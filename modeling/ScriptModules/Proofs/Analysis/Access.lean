import ScriptModules.Proofs.Analysis.Site
import ScriptModules.Proofs.Analysis.TypeCheck
import ScriptModules.Proofs.Ledger

namespace ScriptModules.Access

open ScriptModules.Tree

/-! ## Provided names -/

def Assigns (globalName : String) (tree : Node) (name : String) : Prop :=
  ∃ position operator comments left right,
    tree.at? position = some (.mk (.assign operator) comments [left, right]) ∧
      isAccess globalName left = true ∧ left.form ≠ .element ∧ accessedName left = name

structure Collected (globalName : String) (tree : Node) (given provides : Ledger Provide) :
    Prop where
  distinct : provides.names.Nodup
  fresh : ∀ name provide, provides.get? name = some provide → provide.sites = []
  assigned : ∀ name ∈ provides.names, name ∈ given.names ∨ Assigns globalName tree name

theorem noteAssignment_collected {globalName : String} {tree : Node}
    {given before after : Ledger Provide} {position : Position} {node : Node}
    (here : tree.at? position = some node) (collected : Collected globalName tree given before)
    (run : noteAssignment globalName before node = .ok after) :
    Collected globalName tree given after := by
  obtain ⟨form, comments, children⟩ := node
  unfold noteAssignment at run
  split at run
  · rename_i operator left right formed parts
    simp only [Node.form_mk, Node.children_mk] at formed parts
    subst formed parts
    split at run
    · rename_i access
      split at run
      · cases run
      · rename_i named
        cases run
        refine ⟨Ledger.nodup_names_put collected.distinct _ _, ?_, ?_⟩
        · intro name provide found
          rw [Ledger.get?_put] at found
          split at found
          · cases found
            rfl
          · exact collected.fresh name provide found
        · intro name member
          rcases (Ledger.mem_names_put _ _ _ _).mp member with member | rfl
          · exact collected.assigned name member
          · exact .inr ⟨position, operator, comments, left, right, here, access, named, rfl⟩
    · cases run
      exact collected
  · cases run
    exact collected

theorem Collected.recorded_eq_nil {globalName : String} {tree : Node} {given provides : Ledger Provide}
    (collected : Collected globalName tree given provides) {script : Script}
    (noRequires : script.requires = []) (name : String) :
    ({ script with provides } : Script).recorded name = [] := by
  unfold Script.recorded
  split
  · rename_i provide found
    exact collected.fresh name provide found
  · simp [noRequires]

theorem collectProvides_collected {globalName : String} {tree : Node}
    {given provides : Ledger Provide} (distinct : given.names.Nodup)
    (fresh : ∀ name provide, given.get? name = some provide → provide.sites = [])
    (run : collectProvides globalName given tree = .ok provides) :
    Collected globalName tree given provides := by
  refine foldlM_ok (Collected globalName tree given) ?_ run ⟨distinct, fresh, fun _ => .inl⟩
  intro before node after member collected run
  obtain ⟨visit, met, rfl⟩ := List.mem_map.mp member
  exact noteAssignment_collected (Node.at?_position_of_mem_walk met) collected run

/-! ## Accesses -/

theorem leafAccessAt_of_isAccess {globalName : String} {tree : Node} (sound : tree.Sound)
    {site : Position} {node : Node} (here : tree.at? site = some node)
    (access : isAccess globalName node = true) (named : node.form ≠ .element) :
    LeafAccessAt tree site (accessedName node) ∧ IsWord (accessedName node) ∧
      globalName ∈ tree.names := by
  have inner := sound.at? here
  obtain ⟨form, comments, children⟩ := node
  simp only [isAccess, Node.form_mk, Node.children_mk, Bool.and_eq_true, Bool.or_eq_true,
    beq_iff_eq] at access
  obtain ⟨kind, based⟩ := access
  obtain rfl : form = .member := kind.resolve_right named
  obtain ⟨base, key, name, rfl, keyed⟩ := inner.fits
  have based : base.form.name? = some globalName := based
  have same : accessedName (.mk .member comments [base, key]) = name := by
    simp [accessedName, keyed, Form.name?]
  have keySound : key.Sound := inner.child (by simp)
  have baseSound : base.Sound := inner.child (by simp)
  have keyName : key.form.name? = some name := by rw [keyed]; rfl
  rw [same]
  refine ⟨⟨base, ⟨comments, key, here, keyed, keySound.leaf keyName⟩, baseSound.leaf based⟩,
    keySound.word keyName, ?_⟩
  exact Node.mem_names_of_at? here (Node.mem_names.mpr ⟨0, base, rfl, .inl ⟨rfl, based⟩⟩)

theorem exists_visit {globalName : String} {tree node : Node} (program : tree.form = .program)
    {p : Position} (here : tree.at? p = some node) (access : isAccess globalName node = true) :
    ∃ visit ∈ accesses globalName tree, visit.position = p ∧ visit.node = node := by
  have inner : p ≠ [] := by
    rintro rfl
    rw [Node.at?_nil, Option.some.injEq] at here
    rw [← here, isAccess, program] at access
    cases access
  obtain ⟨visit, met, place, rfl⟩ := Node.exists_mem_walk inner here
  exact ⟨visit, List.mem_filter.mpr ⟨met, access⟩, place, rfl⟩

def MarkedAt (tree : Node) (site : Position) (name : String) : Prop :=
  ∃ base, AccessAt tree site name base ∧ base.form = .identifier marker ∧ base.children = []

theorem MarkedAt.leaf {tree : Node} {site : Position} {name : String}
    (marked : MarkedAt tree site name) : LeafAccessAt tree site name := by
  obtain ⟨base, access, -, leaf⟩ := marked
  exact ⟨base, access, leaf⟩

theorem required_of_recorded {script : Script} {name : String} {site : Position}
    (unprovided : script.provides.get? name = none) (recorded : site ∈ script.recorded name) :
    name ∈ script.requires.names := by
  by_contra unknown
  rw [Script.recorded, unprovided, (Ledger.get?_eq_none_iff _ _).mpr unknown] at recorded
  cases recorded

theorem recorded_addSite (script : Script) (name other : String) (site : Position) :
    (addSite script name site).recorded other =
      if other = name then script.recorded name ++ [site] else script.recorded other := by
  unfold addSite
  split
  · rename_i provide found
    by_cases same : other = name
    · subst same
      simp [Script.recorded, found]
    · simp [Script.recorded, same, Ne.symm same]
  · rename_i absent
    by_cases same : other = name
    · subst same
      simp [Script.recorded, absent]
    · simp [Script.recorded, same, Ne.symm same]

structure Marks (globalName : String) (start : Script) (done : List Visit) (script : Script) :
    Prop where
  same : script =
    { start with tree := script.tree, provides := script.provides, requires := script.requires }
  form : script.tree.form = start.tree.form
  taken : ∀ name ∈ script.tree.names, name ∈ start.tree.names ∨ name = marker
  met : ∀ visit ∈ accesses globalName start.tree,
    script.tree.at? visit.position = start.tree.at? visit.position ∨
      MarkedAt script.tree visit.position (accessedName visit.node)
  marked : ∀ visit ∈ done, MarkedAt script.tree visit.position (accessedName visit.node)
  provided : script.provides.names = start.provides.names
  distinct : script.requires.names.Nodup
  required : ∀ name ∈ script.requires.names, name ∉ start.provides.names ∧
    ∃ visit ∈ done, accessedName visit.node = name
  recorded : ∀ name site, site ∈ script.recorded name ↔
    ∃ visit ∈ done, visit.position = site ∧ accessedName visit.node = name
  rest : ∀ q, (∀ visit ∈ done, ¬visit.position ++ [0] <+: q) →
    (script.tree.at? q).map Node.form = (start.tree.at? q).map Node.form

theorem leafAccessAt_of_mem_accesses {globalName : String} {tree : Node} (sound : tree.Sound)
    (named : ∀ visit ∈ accesses globalName tree, visit.node.form ≠ .element) {visit : Visit}
    (found : visit ∈ accesses globalName tree) :
    LeafAccessAt tree visit.position (accessedName visit.node) ∧
      IsWord (accessedName visit.node) ∧ globalName ∈ tree.names := by
  obtain ⟨met, access⟩ := List.mem_filter.mp found
  exact leafAccessAt_of_isAccess sound (Node.at?_position_of_mem_walk met) access
    (named visit found)

theorem names_provides_addSite (script : Script) (name : String) (site : Position) :
    (addSite script name site).provides.names = script.provides.names := by
  unfold addSite
  split
  · rename_i provide found
    exact (Ledger.names_put _ _ _).trans (if_pos (Ledger.mem_names_of_get? found))
  · rfl

theorem mem_names_requires_addSite {script : Script} {name other : String} {site : Position}
    (member : other ∈ (addSite script name site).requires.names) :
    other ∈ script.requires.names ∨ other = name ∧ other ∉ script.provides.names := by
  unfold addSite at member
  split at member
  · exact .inl member
  · rename_i absent
    rcases (Ledger.mem_names_put _ _ _ _).mp member with member | rfl
    · exact .inl member
    · exact .inr ⟨rfl, (Ledger.get?_eq_none_iff _ _).mp absent⟩

theorem nodup_requires_addSite {script : Script} (distinct : script.requires.names.Nodup)
    (name : String) (site : Position) : (addSite script name site).requires.names.Nodup := by
  unfold addSite
  split
  · exact distinct
  · exact Ledger.nodup_names_put distinct _ _

theorem tree_addSite (script : Script) (name : String) (site : Position) :
    (addSite script name site).tree = script.tree := by
  unfold addSite
  split <;> rfl

theorem markAccess_same (base : Node) (script : Script) (visit : Visit) :
    markAccess base script visit =
      { script with
        tree := (markAccess base script visit).tree
        provides := (markAccess base script visit).provides
        requires := (markAccess base script visit).requires } := by
  unfold markAccess addSite
  split <;> rfl

theorem foldl_markAccess_same (base : Node) (script : Script) (visits : List Visit) :
    visits.foldl (markAccess base) script =
      { script with
        tree := (visits.foldl (markAccess base) script).tree
        provides := (visits.foldl (markAccess base) script).provides
        requires := (visits.foldl (markAccess base) script).requires } := by
  refine foldl_invariant (fun _ (marked : Script) => marked =
    { script with
      tree := marked.tree, provides := marked.provides, requires := marked.requires }) ?_ rfl
  intro done visit todo before parts same
  rw [markAccess_same, same]

theorem Marks.start {globalName : String} {script : Script}
    (fresh : ∀ name, script.recorded name = []) (noRequires : script.requires = []) :
    Marks globalName script [] script where
  same := rfl
  form := rfl
  taken := fun _ => .inl
  met := fun _ _ => .inl rfl
  marked := by simp
  provided := rfl
  distinct := by simp [noRequires]
  required := by simp [noRequires]
  recorded := by simp [fresh]
  rest := fun _ _ => rfl

section
variable {globalName : String} {start script : Script} {done : List Visit} {visit : Visit}

theorem Marks.access (marks : Marks globalName start done script) (sound : start.tree.Sound)
    (named : ∀ visit ∈ accesses globalName start.tree, visit.node.form ≠ .element)
    (found : visit ∈ accesses globalName start.tree) :
    ∃ base, AccessAt script.tree visit.position (accessedName visit.node) base := by
  rcases marks.met visit found with same | ⟨base, access, -⟩
  · obtain ⟨base, access, -⟩ := (leafAccessAt_of_mem_accesses sound named found).1
    exact ⟨base, access.of_at? same⟩
  · exact ⟨base, access⟩

theorem Marks.here (marks : Marks globalName start done script) (sound : start.tree.Sound)
    (named : ∀ visit ∈ accesses globalName start.tree, visit.node.form ≠ .element)
    (found : visit ∈ accesses globalName start.tree) :
    MarkedAt (setBase script.tree visit.position (.identifier marker)) visit.position
      (accessedName visit.node) := by
  obtain ⟨base, access⟩ := marks.access sound named found
  exact ⟨_, access.setBase _, by simp [Node.identifier, Node.of], by simp [Node.identifier, Node.of]⟩

theorem Marks.elsewhere (marks : Marks globalName start done script) (sound : start.tree.Sound)
    (named : ∀ visit ∈ accesses globalName start.tree, visit.node.form ≠ .element)
    (found : visit ∈ accesses globalName start.tree) {other : Visit}
    (met : other ∈ accesses globalName start.tree) :
    MarkedAt (setBase script.tree visit.position (.identifier marker)) other.position
        (accessedName other.node) ∨
      (setBase script.tree visit.position (.identifier marker)).at? other.position =
        script.tree.at? other.position := by
  by_cases same : other.position = visit.position
  · have node : other.node = visit.node := by
      have first := Node.at?_position_of_mem_walk (List.mem_filter.mp met).1
      have second := Node.at?_position_of_mem_walk (List.mem_filter.mp found).1
      rw [same, second] at first
      exact (Option.some.inj first).symm
    rw [same, node]
    exact .inl (marks.here sound named found)
  · have leaf := (leafAccessAt_of_mem_accesses sound named found).1
    have leaf' := (leafAccessAt_of_mem_accesses sound named met).1
    exact .inr (at?_setBase_of_apart _ (leaf.apart leaf' (Ne.symm same)) _)

theorem Marks.recorded_markAccess (marks : Marks globalName start done script) (base : Node)
    (visit : Visit) (name : String) (site : Position) :
    site ∈ (markAccess base script visit).recorded name ↔
      ∃ other ∈ done ++ [visit], other.position = site ∧ accessedName other.node = name := by
  have last : (∃ other ∈ done ++ [visit], other.position = site ∧ accessedName other.node = name) ↔
      (∃ other ∈ done, other.position = site ∧ accessedName other.node = name) ∨
        visit.position = site ∧ accessedName visit.node = name := by
    simp [or_and_right, exists_or]
  have recorded : (markAccess base script visit).recorded name =
      (addSite script (accessedName visit.node) visit.position).recorded name := rfl
  rw [last, recorded, recorded_addSite, ← marks.recorded name site]
  by_cases same : name = accessedName visit.node
  · rw [if_pos same, List.mem_append, List.mem_singleton, ← same]
    simp [eq_comm]
  · rw [if_neg same]
    simp [Ne.symm same]

theorem markAccess_marks (sound : start.tree.Sound)
    (named : ∀ visit ∈ accesses globalName start.tree, visit.node.form ≠ .element)
    (behind : ∀ visit ∈ done, visit ∈ accesses globalName start.tree)
    (found : visit ∈ accesses globalName start.tree) (marks : Marks globalName start done script) :
    Marks globalName start (done ++ [visit]) (markAccess (.identifier marker) script visit) := by
  have tree : (markAccess (.identifier marker) script visit).tree =
      setBase script.tree visit.position (.identifier marker) := by
    rw [markAccess, tree_addSite]
  refine
    { same := by rw [markAccess_same, marks.same]
      form := ?_
      taken := ?_
      met := ?_
      marked := ?_
      provided := (names_provides_addSite script _ _).trans marks.provided
      distinct := nodup_requires_addSite marks.distinct _ _
      required := ?_
      recorded := marks.recorded_markAccess _ _
      rest := ?_ }
  · rw [tree, setBase, Node.form_modifyAt_of_ne_nil _ _ (by simp)]
    exact marks.form
  · intro name member
    rw [tree] at member
    rcases mem_names_setBase member with member | member | member
    · exact marks.taken name member
    · cases member
      exact .inr rfl
    · cases member
  · intro other met
    rw [tree]
    rcases marks.elsewhere sound named found met with marked | same
    · exact .inr marked
    · rcases marks.met other met with start | ⟨base, access, marked⟩
      · exact .inl (same.trans start)
      · exact .inr ⟨base, access.of_at? same, marked⟩
  · intro other member
    rw [tree]
    rcases List.mem_append.mp member with member | member
    · rcases marks.elsewhere sound named found (behind other member) with marked | same
      · exact marked
      · obtain ⟨base, access, marked⟩ := marks.marked other member
        exact ⟨base, access.of_at? same, marked⟩
    · rw [List.mem_singleton.mp member]
      exact marks.here sound named found
  · intro name member
    rcases mem_names_requires_addSite member with member | ⟨rfl, absent⟩
    · obtain ⟨absent, other, behind, same⟩ := marks.required name member
      exact ⟨absent, other, List.mem_append_left _ behind, same⟩
    · exact ⟨marks.provided ▸ absent, visit, by simp, rfl⟩
  · intro q outside
    rw [tree, setBase, Node.form_at?_modifyAt _ _ (outside visit (by simp))]
    exact marks.rest q fun other member => outside other (List.mem_append_left _ member)

end

/-! ## Classified scripts -/

structure Analysed (settings : Settings) (script : Script) : Prop where
  helpers : ∀ helper ∈ script.helpers, TypeCheck.IsHelperDeclaration settings helper
  required_distinct : script.requires.names.Nodup
  root : script.isRoot = true → script.requires = []
  root_words : script.isRoot = true → ∀ name ∈ script.provides.names,
    name ∈ settings.rootNames ∨ IsWord name
  taken : script.isRoot = false → ∀ name ∈ script.tree.names, name ∈ script.names ∨ name = marker
  free : script.isRoot = false → settings.globalName ∉ script.tree.names
  provided_distinct : script.provides.names.Nodup
  apart : ∀ name ∈ script.requires.names, name ∉ script.provides.names
  words : script.isRoot = false →
    ∀ name, name ∈ script.provides.names ∨ name ∈ script.requires.names →
      IsWord name ∧ settings.globalName ∈ script.names
  sites : script.isRoot = false →
    ∀ name, ∀ site ∈ script.recorded name, MarkedAt script.tree site name
  assigned : script.isRoot = false → ∀ name ∈ script.provides.names,
    ∃ position operator, (script.tree.at? position).map Node.form = some (.assign operator) ∧
      position ++ [0] ∈ script.recorded name

theorem refersToGlobal_eq_false {globalName : String} {tree : Node}
    (absent : refersToGlobal globalName tree = false) : globalName ∉ tree.names := by
  intro member
  rw [← Node.filterMap_visits [] tree, ← Node.walk_eq] at member
  obtain ⟨visit, met, named⟩ := List.mem_filterMap.mp member
  have binds : visit.binds globalName = true := by
    by_cases key : visit.isKey = true
    · rw [if_pos key] at named
      cases named
    · rw [if_neg key] at named
      simp [Visit.binds, key, named]
  have any : refersToGlobal globalName tree = true := List.any_eq_true.mpr ⟨visit, met, binds⟩
  rw [absent] at any
  cases any

theorem named_of_not_any {visits : List Visit}
    (none : ¬(visits.any fun visit => visit.node.form == .element) = true) :
    ∀ visit ∈ visits, visit.node.form ≠ .element :=
  fun visit found element => none (List.any_eq_true.mpr ⟨visit, found, by simp [element]⟩)

def markAll (globalName : String) (script : Script) : Script :=
  (accesses globalName script.tree).foldl (markAccess (.identifier marker)) script

theorem markAccesses_cases (globalName : String) (script : Script) :
    ((accesses globalName script.tree).any fun visit => visit.node.form == .element) = true ∧
        markAccesses globalName script = .ok (script, some .computedExpression) ∨
      ¬((accesses globalName script.tree).any fun visit => visit.node.form == .element) = true ∧
        markAccesses globalName script = .ok (markAll globalName script,
          if refersToGlobal globalName (markAll globalName script).tree then some .globalReferenced
          else none) := by
  unfold markAccesses
  dsimp only
  split
  · rename_i computed
    exact .inl ⟨computed, rfl⟩
  · rename_i noElement
    refine .inr ⟨noElement, ?_⟩
    rw [reference_of_isName (show IsName marker by decide)]
    change (if refersToGlobal globalName (markAll globalName script).tree then
      Except.ok _ else Except.ok _) = _
    split <;> rfl

theorem eq_markAll {globalName : String} {script marked : Script}
    (run : markAccesses globalName script = .ok (marked, none)) :
    marked = markAll globalName script := by
  rcases markAccesses_cases globalName script with ⟨-, excluded⟩ | ⟨-, marks⟩
  · cases run.symm.trans excluded
  · exact congrArg Prod.fst (Except.ok.inj (run.symm.trans marks))

theorem markAll_marks {globalName : String} {script : Script} (sound : script.tree.Sound)
    (named : ∀ visit ∈ accesses globalName script.tree, visit.node.form ≠ .element)
    (fresh : ∀ name, script.recorded name = []) (noRequires : script.requires = []) :
    Marks globalName script (accesses globalName script.tree) (markAll globalName script) := by
  refine foldl_invariant (Marks globalName script) ?_ (.start fresh noRequires)
  intro done visit todo before parts marks
  refine markAccess_marks sound named ?_ ?_ marks
  · exact fun other behind => by rw [parts]; exact List.mem_append_left _ behind
  · rw [parts]
    simp

theorem markAccesses_marks {globalName : String} {script marked : Script}
    (sound : script.tree.Sound) (fresh : ∀ name, script.recorded name = [])
    (noRequires : script.requires = [])
    (run : markAccesses globalName script = .ok (marked, none)) :
    Marks globalName script (accesses globalName script.tree) marked ∧
      globalName ∉ marked.tree.names ∧
      ∀ visit ∈ accesses globalName script.tree, visit.node.form ≠ .element := by
  rcases markAccesses_cases globalName script with ⟨-, excluded⟩ | ⟨noElement, marks⟩
  · cases run.symm.trans excluded
  · have named := named_of_not_any noElement
    rw [marks] at run
    split at run
    · cases run
    · rename_i absent
      cases run
      exact ⟨markAll_marks sound named fresh noRequires,
        refersToGlobal_eq_false (by simpa using absent), named⟩

theorem markAccesses_same {globalName : String} {script marked : Script}
    {exclusion? : Option Exclusion}
    (run : markAccesses globalName script = .ok (marked, exclusion?)) : marked =
      { script with
        tree := marked.tree, provides := marked.provides, requires := marked.requires } := by
  rcases markAccesses_cases globalName script with ⟨-, excluded⟩ | ⟨-, marks⟩
  · cases run.symm.trans excluded
    rfl
  · cases run.symm.trans marks
    exact foldl_markAccess_same _ _ _

theorem classify_same {settings : Settings} {script result : Script}
    {exclusion? : Option Exclusion} (run : classify settings script = .ok (result, exclusion?)) :
    result = { script with
      tree := result.tree, provides := result.provides, requires := result.requires } := by
  unfold classify at run
  dsimp only at run
  split at run
  · cases run
    rfl
  · split at run
    · cases run
      rfl
    · obtain ⟨⟨marked, found⟩, marks, run⟩ := bind_eq_ok_iff.mp run
      rw [markAccesses_same marks] at run
      cases found with
      | none =>
          cases run
          rfl
      | some found =>
          cases run
          rfl

theorem classify_root {settings : Settings} {script result : Script} (root : script.isRoot = true)
    {exclusion? : Option Exclusion} (run : classify settings script = .ok (result, exclusion?)) :
    result.tree = script.tree := by
  unfold classify at run
  dsimp only at run
  split at run
  · cases run
    rfl
  · rw [if_pos root] at run
    cases run
    rfl

theorem rootProvides_fresh (settings : Settings) {script : Script} (none : script.provides = []) :
    (rootProvides settings script).names.Nodup ∧
      (∀ name provide, (rootProvides settings script).get? name = some provide →
        provide.sites = []) ∧
      ∀ name ∈ (rootProvides settings script).names, name ∈ settings.rootNames := by
  unfold rootProvides
  split
  · refine foldl_invariant (fun done (provides : Ledger Provide) => provides.names.Nodup ∧
      (∀ name provide, provides.get? name = some provide → provide.sites = []) ∧
      ∀ name ∈ provides.names, name ∈ done) ?_ ?_
    · rintro done name - before - ⟨distinct, fresh, behind⟩
      refine ⟨Ledger.nodup_names_put distinct _ _, fun other provide found => ?_,
        fun other member => ?_⟩
      · rw [Ledger.get?_put] at found
        split at found
        · cases found
          rfl
        · exact fresh other provide found
      · rcases (Ledger.mem_names_put _ _ _ _).mp member with old | rfl
        · exact List.mem_append_left _ (behind other old)
        · simp
    · simp [none]
  · simp [none]

structure Unread (script : Script) : Prop where
  sound : script.tree.Sound
  taken : ∀ name ∈ script.tree.names, name ∈ script.names
  provides : script.provides = []
  requires : script.requires = []

theorem Assigns.visited {globalName name : String} {tree : Node}
    (assigns : Assigns globalName tree name) :
    ∃ visit ∈ accesses globalName tree, accessedName visit.node = name ∧
      ∃ position operator comments left right, visit.position = position ++ [0] ∧
        tree.at? position = some (.mk (.assign operator) comments [left, right]) := by
  obtain ⟨position, operator, comments, left, right, here, access, -, same⟩ := assigns
  refine ⟨⟨.mk (.assign operator) comments [left, right], position, 0, left⟩,
    List.mem_filter.mpr ⟨Node.mem_walk.mpr ⟨here, rfl⟩, access⟩, same, ?_⟩
  exact ⟨position, operator, comments, left, right, rfl, here⟩

/-- What the classification leaves of a script that is converted and does not create the global
object: its accesses are marked, and what it provides is assigned at some of them. -/
structure Classified (settings : Settings) (script result : Script) (provides : Ledger Provide) :
    Prop where
  collected : Collected settings.globalName script.tree [] provides
  marks : Marks settings.globalName { script with provides }
    (accesses settings.globalName script.tree) result
  free : settings.globalName ∉ result.tree.names
  named : ∀ visit ∈ accesses settings.globalName script.tree, visit.node.form ≠ .element

theorem classify_eq_ok {settings : Settings} {script result : Script}
    (fresh : script.provides = []) (other : script.isRoot = false)
    (run : classify settings script = .ok (result, none)) : ∃ provides,
      collectProvides settings.globalName [] script.tree = .ok provides ∧
        markAccesses settings.globalName { script with provides } = .ok (result, none) := by
  have given : rootProvides settings script = [] := by
    simp [rootProvides, other, fresh]
  unfold classify at run
  rw [given] at run
  dsimp only at run
  split at run
  · cases run
  · rename_i provides collected
    rw [if_neg (by simp [other])] at run
    obtain ⟨⟨marked, exclusion⟩, marks, run⟩ := bind_eq_ok_iff.mp run
    cases exclusion with
    | some exclusion => cases run
    | none =>
        cases run
        exact ⟨provides, collected, marks⟩

theorem classify_classified {settings : Settings} {script result : Script} (unread : Unread script)
    (other : script.isRoot = false) (run : classify settings script = .ok (result, none)) :
    ∃ provides, Classified settings script result provides := by
  obtain ⟨provides, collected, marks⟩ := classify_eq_ok unread.provides other run
  have collected := collectProvides_collected (by simp) (by simp) collected
  have fresh := collected.recorded_eq_nil unread.requires
  obtain ⟨marks, free, named⟩ :=
    @markAccesses_marks _ { script with provides } _ unread.sound fresh unread.requires marks
  exact ⟨provides, collected, marks, free, named⟩

theorem classify_analysed_root {settings : Settings} {script result : Script} (unread : Unread script)
    (helpers : ∀ helper ∈ script.helpers, TypeCheck.IsHelperDeclaration settings helper)
    (root : script.isRoot = true) (run : classify settings script = .ok (result, none)) :
    Analysed settings result ∧ result.tree.form = script.tree.form := by
  unfold classify at run
  dsimp only at run
  split at run
  · cases run
  · rename_i provides collected
    obtain ⟨distinct, fresh, given⟩ := rootProvides_fresh settings unread.provides
    have collected := collectProvides_collected distinct fresh collected
    rw [if_pos root] at run
    cases run
    refine ⟨⟨helpers, ?_, fun _ => unread.requires, fun _ name member => ?_, ?_, ?_,
      collected.distinct, ?_, ?_, ?_, ?_⟩, rfl⟩
    · simp [unread.requires]
    · refine (collected.assigned name member).imp (given name) fun assigned => ?_
      obtain ⟨position, operator, comments, left, right, here, access, named, rfl⟩ := assigned
      exact (leafAccessAt_of_isAccess unread.sound (Node.at?_snoc here 0) access named).2.1
    · simp [root]
    · simp [root]
    · simp [unread.requires]
    · simp [root]
    · simp [root]
    · simp [root]

theorem Classified.met {settings : Settings} {script result : Script} {provides : Ledger Provide}
    (classified : Classified settings script result provides) {name : String}
    (member : name ∈ result.provides.names ∨ name ∈ result.requires.names) :
    ∃ visit ∈ accesses settings.globalName script.tree, accessedName visit.node = name := by
  rcases member with member | member
  · rw [classified.marks.provided] at member
    obtain ⟨visit, found, own, -⟩ :=
      ((classified.collected.assigned name member).resolve_left (by simp)).visited
    exact ⟨visit, found, own⟩
  · exact (classified.marks.required name member).2

theorem Classified.assigned {settings : Settings} {script result : Script}
    {provides : Ledger Provide} (classified : Classified settings script result provides)
    (sound : script.tree.Sound) {name : String} (member : name ∈ result.provides.names) :
    ∃ position operator, (result.tree.at? position).map Node.form = some (.assign operator) ∧
      position ++ [0] ∈ result.recorded name := by
  obtain ⟨collected, marks, -, named⟩ := classified
  rw [marks.provided] at member
  obtain ⟨visit, found, own, position, operator, comments, left, right, place, here⟩ :=
    ((collected.assigned name member).resolve_left (by simp)).visited
  refine ⟨position, operator, ?_, (marks.recorded _ _).mpr ⟨visit, found, place, own⟩⟩
  rw [marks.rest position fun visit found =>
    (leafAccessAt_of_mem_accesses sound named found).1.not_base_above here (by simp)]
  exact congrArg (Option.map Node.form) here

theorem classify_analysed {settings : Settings} {script result : Script} (unread : Unread script)
    (helpers : ∀ helper ∈ script.helpers, TypeCheck.IsHelperDeclaration settings helper)
    (run : classify settings script = .ok (result, none)) :
    Analysed settings result ∧ result.tree.form = script.tree.form := by
  cases other : script.isRoot with
  | true => exact classify_analysed_root unread helpers other run
  | false =>
      obtain ⟨provides, classified⟩ := classify_classified unread other run
      have ⟨collected, marks, free, named⟩ := classified
      have same := marks.same
      have provided : result.provides.names = provides.names := marks.provided
      have sameNames : result.names = script.names := by rw [same]
      have sameRoot : result.isRoot = false := by
        rw [same]
        exact other
      refine ⟨
        { helpers := by rw [same]; exact helpers
          required_distinct := marks.distinct
          root := by simp [sameRoot]
          root_words := by simp [sameRoot]
          taken := fun _ name member => ?_
          free := fun _ => free
          provided_distinct := provided ▸ collected.distinct
          apart := fun name member => ?_
          words := fun _ name member => ?_
          sites := fun _ name site member => ?_
          assigned := fun _ name => classified.assigned unread.sound }, marks.form⟩
      · rw [sameNames]
        exact (marks.taken name member).imp_left (unread.taken name)
      · rw [provided]
        exact (marks.required name member).1
      · rw [sameNames]
        obtain ⟨visit, found, rfl⟩ := classified.met member
        have leaf := leafAccessAt_of_mem_accesses unread.sound named found
        exact ⟨leaf.2.1, unread.taken _ leaf.2.2⟩
      · obtain ⟨visit, found, rfl, rfl⟩ := (marks.recorded name site).mp member
        exact marks.marked visit found

end ScriptModules.Access
