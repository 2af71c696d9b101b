import ScriptModules.Proofs.Analysis.Comments
import ScriptModules.Proofs.Frame
import ScriptModules.Proofs.Module.Substitution

namespace ScriptModules

open ScriptModules.Tree
open Node (remarks remarksFrom)

theorem Tree.Template.bare_statement {text : String} {first : Node}
    (read : Template.statement text [] = .ok first) : first.bare = first := by
  unfold Template.statement at read
  split at read
  · cases read
  · rename_i program parsed
    split at read
    · cases read
    · rename_i own rest children
      cases read
      refine @Node.bare_of_mem_bare program _ ?_
      rw [children]
      exact List.mem_cons_self

theorem Tree.Template.bare_expression {text : String} {value : Node}
    (read : Template.expression text [] = .ok value) : value.bare = value := by
  obtain ⟨found, run, made⟩ := bind_eq_ok_iff.mp read
  obtain ⟨statement, run, valued⟩ := bind_eq_ok_iff.mp run
  have plain := bare_statement run
  cases found with
  | none => cases made
  | some value =>
      cases made
      have first : statement.children.head? = some value := by
        unfold valueOf at valued
        split at valued
        all_goals first | exact Except.ok.inj valued | cases valued
      rw [← plain] at first
      exact Node.bare_of_mem_bare (List.mem_of_mem_head? first)

/-! ## Writing a module -/

structure Script.Redirects (globalName : String) (old : Node) (start script : Script) : Prop where
  same : script = { start with tree := script.tree, names := script.names }
  tree : Access.Redirected globalName old script.tree

def Access.Met (globalName : String) (old : Node) (sites : List Position) : Prop :=
  ∀ site ∈ sites, ∃ node, old.at? site = some node ∧ isAccess globalName node = true

namespace Draft

def Redirects (globalName : String) (old : Node) (start : Script) (draft : Draft) : Prop :=
  Script.Redirects globalName old start draft.script

variable {globalName : String} {old : Node} {start : Script}

theorem redirects_of_leaves {α : Type} {task : Drafting α} (leaves : Leaves Draft.script task) :
    Retains (Redirects globalName old start) task :=
  @Retains.of_leaves _ _ _ Draft.script (Script.Redirects globalName old start) _ leaves

theorem redirects_statement (text : String) :
    Retains (Redirects globalName old start) (statement text) :=
  redirects_of_leaves (.liftM _)

theorem redirects_markers (kind : ProvideKind) (target name : String) :
    Retains (Redirects globalName old start) (markers kind target name) := by
  unfold markers
  split
  · exact (redirects_statement _).bind fun _ => redirects_of_leaves (.pure _)
  · exact (redirects_statement _).bind fun _ => redirects_of_leaves (.pure _)
  · exact redirects_of_leaves (.pure _)

theorem redirects_reserve (name : String) :
    Retains (Redirects globalName old start) (reserve name) := by
  intro before free after ends redirects
  obtain ⟨-, rfl⟩ := ends_reserve.mp ends
  exact ⟨by rw [redirects.same], redirects.tree⟩

theorem redirects_replaceBases {sites : List Position} (met : Access.Met globalName old sites)
    (text : String) : Retains (Redirects globalName old start) (replaceBases sites text) := by
  intro before value after ends redirects
  obtain ⟨base, read, rfl⟩ := ends_replaceBases.mp ends
  refine ⟨by rw [redirects.same], ?_⟩
  refine foldl_invariant (fun _ tree => Access.Redirected globalName old tree) ?_ redirects.tree
  intro done site todo tree parts redirected
  obtain ⟨node, here, access⟩ := met site (by rw [parts]; simp)
  exact redirected.setBase here access (Template.bare_expression read)

theorem redirects_replaceAccesses {sites : List Position} (met : Access.Met globalName old sites)
    (bound : String) : Retains (Redirects globalName old start)
      (sites.forM fun site => changeTree (replaceAccess site (.identifier bound))) := by
  refine .forM fun site member before value after ends redirects => ?_
  obtain ⟨tree, run, rfl⟩ := ends_changeTree.mp ends
  obtain ⟨-, -, -, rfl⟩ := replaceAccess_eq_ok run
  obtain ⟨node, here, access⟩ := met site member
  exact ⟨by rw [redirects.same], redirects.tree.putIdentifier here access bound⟩

theorem redirects_nameImport (around : Surroundings) (path : String) (names : List String) :
    Retains (Redirects globalName old start) (nameImport around path names) := by
  refine (redirects_of_leaves .get).bind fun _ => (redirects_of_leaves (.liftM _)).bind fun _ =>
    (redirects_of_leaves (.liftM _)).bind fun _ => (redirects_reserve _).bind fun _ => ?_
  split
  · exact (redirects_reserve _).bind fun _ => redirects_of_leaves (.pure _)
  · exact redirects_of_leaves (.pure _)

variable {settings : Settings} (ready : start.Ready settings)
  (met : ∀ name, Access.Met globalName old (start.recorded name))

include ready met

theorem met_sitesOf (name : String) : Access.Met globalName old (sitesOf start name) := by
  intro site member
  by_cases needed : name ∈ start.requires.names
  · rw [sitesOf_eq_recorded (ready.apart name needed)] at member
    exact met name site member
  · rw [sitesOf, (Ledger.get?_eq_none_iff _ _).mpr needed] at member
    cases member

theorem redirects_require (around : Surroundings) (path : String) (names : List String) :
    Retains (Redirects globalName old start) (require around path names) := by
  refine (redirects_nameImport around path names).bind fun required =>
    (redirects_statement _).bind fun declaration =>
      (redirects_of_leaves .get).bind_of_ends fun before given draft ends redirects => ?_
  obtain ⟨rfl, rfl⟩ := (Ends.get_iff _ _ _).mp ends
  have requires : draft.script.requires = start.requires := by rw [redirects.same]
  have sites : sitesOf draft.script = sitesOf start := by
    funext name
    rw [sitesOf, requires, sitesOf]
  dsimp only
  rw [sites]
  refine Retains.bind (.forM fun name _ => redirects_replaceBases (met_sitesOf ready met name) _)
    fun _ => ?_
  exact redirects_of_leaves (.bind (.modify (by exact fun _ => rfl)) fun _ => .pure _)

theorem redirects_provide {name : String} {provided : Provide}
    (known : (name, provided) ∈ start.provides) :
    Retains (Redirects globalName old start) (provide name provided) := by
  have found := Ledger.get?_of_mem ready.provided_distinct known
  have sites : Access.Met globalName old provided.sites := by
    have own := met name
    rwa [Script.recorded, found] at own
  obtain ⟨word, -⟩ := ready.words ready.other name (.inl (Ledger.mem_names_of_get? found))
  unfold provide
  split
  · refine (redirects_reserve name).bind_of_ends fun before bound between free _ => ?_
    -- the name is free, so reading it gives the identifier that is put in place of the accesses
    obtain ⟨fresh, -⟩ := ends_reserve.mp free
    refine (redirects_statement _).bind fun declaration =>
      (redirects_of_leaves (.liftM _)).bind_of_ends fun _ reference _ ends _ => ?_
    obtain ⟨read, -⟩ := (Ends.liftM_iff _ _ _ _).mp ends
    rw [reference_of_isName (fresh ▸ Text.isName_fresh word _)] at read
    cases read
    exact (redirects_replaceAccesses sites bound).bind fun _ => (redirects_markers _ _ _).bind
      fun _ => (redirects_statement _).bind fun _ => redirects_of_leaves (.pure _)
  · exact (redirects_replaceBases sites _).bind fun _ => (redirects_markers _ _ _).bind
      fun _ => redirects_of_leaves (.pure _)

theorem redirects_write (around : Surroundings) :
    Retains (Redirects globalName old start) (write around) := by
  have required : Retains (Redirects globalName old start) (requireAll around) :=
    (redirects_of_leaves .get).bind fun _ => (redirects_of_leaves (.liftM _)).bind fun _ =>
      .mapM fun entry _ => redirects_require ready met around entry.1 entry.2
  have provided : Retains (Redirects globalName old start) provideAll := by
    refine (redirects_of_leaves .get).bind_of_ends fun before given draft ends redirects => ?_
    obtain ⟨rfl, rfl⟩ := (Ends.get_iff _ _ _).mp ends
    have provides : draft.script.provides = start.provides := by rw [redirects.same]
    dsimp only
    rw [provides]
    split
    · exact redirects_of_leaves (.pure _)
    · exact Retains.bind (.mapM fun entry member => redirects_provide ready met member)
        fun _ => redirects_of_leaves (.pure _)
  exact required.bind fun _ => provided.bind fun _ =>
    (redirects_of_leaves .get).bind fun _ => redirects_of_leaves (.pure _)

end Draft

/-! ## The parts of a module -/

theorem Import.bare_tree (required : Import) : required.tree.bare = required.tree := by
  obtain ⟨path, names, specifier, binding, getter⟩ := required
  cases getter <;> rfl

theorem ProvideKind.bare_exportOf (kind : ProvideKind) (name bound : String) :
    (∀ node ∈ (kind.exportOf name bound).declarations, node.bare = node) ∧
      ∀ node ∈ (kind.exportOf name bound).statements, node.bare = node := by
  cases kind <;> simp [exportOf, Node.declared, markerTree, guardedMarkerTree, exportTree,
    Node.assignment, Node.access, Node.of, Node.identifier, Node.bare, Node.bares]

theorem Module.remarks_program {written : Module} {tree : Node} (body : written.body = tree.children)
    (uncommented : tree.comments = [])
    (imports : ∀ node ∈ written.imports.map Prod.snd, node.bare = node)
    (helpers : ∀ node ∈ written.helpers, node.bare = node)
    (declarations : ∀ node ∈ written.exports.declarations, node.bare = node)
    (statements : ∀ node ∈ written.exports.statements, node.bare = node) :
    remarks (fun _ _ => true) true written.program = remarks (fun _ _ => true) true tree := by
  obtain ⟨form, comments, children⟩ := tree
  cases uncommented
  rw [Module.program, Node.program, Node.of, remarks, remarks]
  simp only [Node.remarksFrom_append, Node.remarksFrom_of_plain imports,
    Node.remarksFrom_of_plain helpers, Node.remarksFrom_of_plain declarations,
    Node.remarksFrom_of_plain statements, List.nil_append, List.append_nil]
  rw [body]
  exact congrArg _ (Node.remarksFrom_held _ _ _ _ _ _)

end ScriptModules
