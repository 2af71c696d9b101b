import ScriptModules.Proofs.Analysis.Exchange

namespace ScriptModules.Access

open ScriptModules.Tree

section

variable (globalName : String) (tree : Node)

def assignment? (node : Node) : Option (String × Node) :=
  match node.form, node.children with
  | .assign _, [left, right] =>
    if isAccess globalName left then some (accessedName left, right) else none
  | _, _ => none

def assignments : List (String × Node) :=
  tree.walk.filterMap fun visit => assignment? globalName visit.node

def accessedNames : List String :=
  (accesses globalName tree).map fun visit => accessedName visit.node

structure Inventory (result : Script) : Prop where
  provided : result.provides.names = ((assignments globalName tree).map Prod.fst).eraseDups
  kinds : ∀ name, (result.provides.get? name).map Provide.kind =
    ((assignments globalName tree).reverse.find? fun assigned => assigned.1 == name).map
      fun assigned => ProvideKind.ofNode assigned.2
  required : result.requires.names = ((accessedNames globalName tree).filter fun name =>
    !result.provides.names.contains name).eraseDups
  recorded : ∀ name, result.recorded name =
    ((accesses globalName tree).filter fun visit => accessedName visit.node == name).map
      Visit.position
  marked : ∀ visit ∈ accesses globalName tree,
    MarkedAt result.tree visit.position (accessedName visit.node)

end

variable {globalName : String}

/-! ## Provides -/

def provided (assigned : String × Node) : String × Provide :=
  (assigned.1, { kind := ProvideKind.ofNode assigned.2 })

theorem assignment?_assign (operator : String) (comments : List String) (left right : Node) :
    assignment? globalName (.mk (.assign operator) comments [left, right]) =
      if isAccess globalName left then some (accessedName left, right) else none :=
  rfl

theorem noteAssignment_eq {before after : Ledger Provide} {node : Node}
    (run : noteAssignment globalName before node = .ok after) :
    after = match assignment? globalName node with
      | some assigned => before.put assigned.1 (provided assigned).2
      | none => before := by
  obtain ⟨form, comments, children⟩ := node
  unfold noteAssignment at run
  dsimp only [Node.form_mk, Node.children_mk] at run
  split at run
  · rename_i operator left right
    split at run
    · rename_i access
      rw [assignment?_assign, if_pos access]
      split at run
      · cases run
      · cases run
        rfl
    · rename_i noAccess
      rw [assignment?_assign, if_neg noAccess]
      cases run
      rfl
  · rename_i noAssignment
    have nothing : assignment? globalName (.mk form comments children) = none := by
      unfold assignment?
      dsimp only [Node.form_mk, Node.children_mk]
      split
      · exact (noAssignment _ _ _ rfl rfl).elim
      · rfl
    cases run
    rw [nothing]

theorem collectProvides_eq {tree : Node} {provides : Ledger Provide}
    (run : collectProvides globalName [] tree = .ok provides) :
    provides = Ledger.ofList ((assignments globalName tree).map provided) := by
  have held := foldlM_invariant (fun done provides =>
    provides = Ledger.ofList ((done.filterMap (assignment? globalName)).map provided)) ?_ run rfl
  · rwa [List.filterMap_map] at held
  · intro done node todo before after parts same run
    rw [noteAssignment_eq run, same, List.filterMap_append]
    cases assigned : assignment? globalName node <;> simp [assigned, Ledger.ofList, provided]

/-! ## Requires -/

theorem kind_provides_addSite (script : Script) (name other : String) (site : Position) :
    ((addSite script name site).provides.get? other).map Provide.kind =
      (script.provides.get? other).map Provide.kind := by
  unfold addSite
  split
  · rename_i provide found
    rw [Ledger.get?_put]
    split
    · rename_i own
      rw [← own, found]
      rfl
    · rfl
  · rfl

theorem names_requires_addSite (script : Script) (name : String) (site : Position) :
    (addSite script name site).requires.names =
      if name ∈ script.provides.names ∨ name ∈ script.requires.names then script.requires.names
      else script.requires.names ++ [name] := by
  unfold addSite
  split
  · rename_i provide found
    rw [if_pos (.inl (Ledger.mem_names_of_get? found))]
  · rename_i absent
    rw [Ledger.get?_eq_none_iff] at absent
    simp only [Ledger.names_put, absent, false_or]

theorem foldl_markAccess_lists (base : Node) {start : Script} (noRequires : start.requires = [])
    (visits : List Visit) :
    (∀ name, ((visits.foldl (markAccess base) start).provides.get? name).map Provide.kind =
      (start.provides.get? name).map Provide.kind) ∧
    (visits.foldl (markAccess base) start).provides.names = start.provides.names ∧
    (visits.foldl (markAccess base) start).requires.names =
      ((visits.map fun visit => accessedName visit.node).filter fun name =>
        !start.provides.names.contains name).eraseDups := by
  refine foldl_invariant (fun done (marked : Script) =>
    (∀ name, (marked.provides.get? name).map Provide.kind =
      (start.provides.get? name).map Provide.kind) ∧
    marked.provides.names = start.provides.names ∧
    marked.requires.names = ((done.map fun visit : Visit => accessedName visit.node).filter fun name =>
        !start.provides.names.contains name).eraseDups) ?_ ⟨fun _ => rfl, rfl, by simp [noRequires]⟩
  rintro done visit todo before - ⟨kinds, provided, required⟩
  refine ⟨fun name => (kind_provides_addSite _ _ _ _).trans (kinds name),
    (names_provides_addSite _ _ _).trans provided, (names_requires_addSite _ _ _).trans ?_⟩
  rw [provided, required, List.map_append, List.filter_append, List.eraseDups_append, List.map_cons,
    List.map_nil]
  by_cases given : accessedName visit.node ∈ start.provides.names
  · simp [given, List.removeAll]
  · by_cases known : accessedName visit.node ∈ done.map fun visit => accessedName visit.node
    · simp [given, known, List.removeAll, List.mem_eraseDups, -List.mem_map]
    · simp [given, known, List.removeAll, List.mem_eraseDups, List.eraseDups_cons, -List.mem_map]

/-! ## Converted scripts -/

/-- What is listed of a converted script is complete: the assigned names are its provides, the other
accessed names its requires, and every access is a site of its name. -/
theorem classify_inventory {settings : Settings} {script result : Script} (unread : Unread script)
    (other : script.isRoot = false) (run : classify settings script = .ok (result, none)) :
    Inventory settings.globalName script.tree result := by
  obtain ⟨provides, collected, marks⟩ := classify_eq_ok unread.provides other run
  have fresh := (collectProvides_collected (by simp) (by simp) collected).recorded_eq_nil
    unread.requires
  obtain ⟨⟨-, -, -, -, marked, -⟩, -, -⟩ :=
    @markAccesses_marks _ { script with provides } _ unread.sound fresh unread.requires marks
  have noRequires : ({ script with provides } : Script).requires = [] := unread.requires
  obtain ⟨kinds, names, required⟩ := foldl_markAccess_lists (.identifier marker) noRequires
    (accesses settings.globalName script.tree)
  obtain rfl := eq_markAll marks
  have listed := collectProvides_eq collected
  refine ⟨?_, fun name => (kinds name).trans ?_, ?_, fun name => ?_, marked⟩
  · refine names.trans ?_
    rw [show ({ script with provides } : Script).provides = provides from rfl, listed,
      Ledger.names_ofList, List.map_map]
    rfl
  · rw [show ({ script with provides } : Script).provides = provides from rfl, listed,
      Ledger.get?_ofList, ← List.map_reverse, List.find?_map, Option.map_map, Option.map_map]
    rfl
  · rw [show (markAll settings.globalName { script with provides }).provides.names = _ from names]
    exact required
  · rw [markAll, recorded_foldl_markAccess, fresh, List.nil_append]

-- the condition of the loop is visited first, so the function is the last value
example : (Node.parse? "do \x7b THREE.A = function () \x7b\x7d; \x7d while (!(THREE.A = 5));").map
    (fun tree => (assignments "THREE" tree).map fun assigned =>
      (assigned.1, ProvideKind.ofNode assigned.2)) =
        some [("A", .literal), ("A", .function)] := by
  decide +kernel

end ScriptModules.Access
