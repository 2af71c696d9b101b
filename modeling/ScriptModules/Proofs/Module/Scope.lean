import ScriptModules.Proofs.Analysis.Scope
import ScriptModules.Proofs.Module.Placement
import ScriptModules.Proofs.Module.Substitution

namespace ScriptModules

open ScriptModules.Tree

theorem Import.bindings_tree (required : Import) : required.tree.bindings = [] := by
  obtain ⟨path, names, specifier, binding, getter⟩ := required
  cases getter <;> rfl

theorem ProvideKind.bindings_exportOf (kind : ProvideKind) (name bound : String) :
    (∀ node ∈ (kind.exportOf name bound).declarations, node.bindings = []) ∧
      ∀ node ∈ (kind.exportOf name bound).statements, node.bindings = [] := by
  have declaration : (Node.declared [[.identifier bound]]).bindings = [] := rfl
  have marker : (markerTree (.identifier bound) name).bindings = [] := rfl
  have guarded : (guardedMarkerTree name).bindings = [] := rfl
  have stated : (exportTree name (.identifier bound)).bindings = [] := rfl
  cases kind <;> simp [exportOf, declaration, marker, guarded, stated]

theorem ProvideKind.declares_exportOf {kind : ProvideKind} (hoistable : kind.isHoistable = true)
    (name bound : String) : Node.declaresAll (kind.exportOf name bound).declarations = [bound] := by
  cases kind with
  | function | object | array => rfl
  | literal | other => cases hoistable

namespace Module

theorem silent_standIn (written : Module) (provides : Ledger Provide) (bound : String → String)
    (name : String) : (written.standIn provides bound name).hoisted = [] ∧
      (written.standIn provides bound name).bindings = [] := by
  rcases written.standIn_cases provides bound name with
    ⟨-, -, -, same⟩ | ⟨base, same, rfl | rfl | ⟨⟨⟨_, _, _, _, getter⟩, _⟩, -, rfl⟩⟩
  all_goals rw [same]
  · exact ⟨rfl, rfl⟩
  · exact ⟨rfl, rfl⟩
  · exact ⟨rfl, rfl⟩
  · cases getter <;> exact ⟨rfl, rfl⟩

theorem plain_standIn (written : Module) (provides : Ledger Provide) (bound : String → String) :
    Access.Plain
      (Node.declaresAll (provides.flatMap fun entry =>
        (entry.2.kind.exportOf entry.1 (bound entry.1)).declarations))
      (written.standIn provides bound) where
  name := by
    intro accessed name named
    rcases written.standIn_cases provides bound accessed with
      ⟨provide, inside, hoistable, same⟩ | ⟨base, same, -⟩
    · rw [same] at named
      obtain rfl : bound accessed = name := Option.some.inj named
      obtain ⟨before, after, rfl⟩ := List.append_of_mem inside
      simp [ProvideKind.declares_exportOf hoistable]
    · rw [same] at named
      cases named
  hoisted := fun accessed => (written.silent_standIn provides bound accessed).1
  bindings := fun accessed => (written.silent_standIn provides bound accessed).2

/-- Around a place in the body of a module, the names are bound that the statements of the module
declare, and those of the scopes in the body. -/
theorem body_place {written : Module} {tree : Node}
    (body : written.body.map Node.bare = tree.children.map Node.bare) {site : Position}
    (inner : site ≠ []) {node : Node} (here : tree.at? site = some node) :
    (written.program.at? (written.place site)).map Node.bare = some node.bare ∧
      written.program.boundAt (written.place site) ⊆
        written.program.scope ++ tree.boundAt site := by
  cases site with
  | nil => exact absurd rfl inner
  | cons index rest =>
      rw [Node.at?_cons] at here
      obtain ⟨child, place, below⟩ := Option.bind_eq_some_iff.mp here
      have same := congrArg (·[index]?) body
      simp only [List.getElem?_map, place, Option.map_some] at same
      obtain ⟨child', place', same⟩ := Option.map_eq_some_iff.mp same
      have further := getElem?_body place'
      rw [Module.place, Node.at?_cons, further, Option.bind_some, ← Node.at?_bare, same,
        Node.at?_bare, below, Node.boundAt_cons further, Node.boundAt_cons place,
        ← Node.boundAt_bare child', same, Node.boundAt_bare]
      refine ⟨rfl, List.append_subset.mpr ⟨List.subset_append_left _ _, ?_⟩⟩
      exact List.Subset.trans (List.subset_append_right _ _) (List.subset_append_right _ _)

theorem exists_of_body {written : Module} {tree : Node}
    (body : written.body.map Node.bare = tree.children.map Node.bare) {offset : Nat} {child : Node}
    (place : written.body[offset]? = some child) {rest : Position} {node : Node}
    (below : child.at? rest = some node) :
    ∃ node', tree.at? (offset :: rest) = some node' ∧ node'.form = node.form := by
  have same := congrArg (·[offset]?) body
  simp only [List.getElem?_map, place, Option.map_some] at same
  obtain ⟨child', place', same⟩ := Option.map_eq_some_iff.mp same.symm
  have below' := congrArg (·.at? rest) same
  simp only [Node.at?_bare, below, Option.map_some] at below'
  obtain ⟨node', below', same⟩ := Option.map_eq_some_iff.mp below'
  refine ⟨node', by rw [Node.at?_cons, place', Option.bind_some, below'], ?_⟩
  rw [← node'.form_bare, same, node.form_bare]

end Module

end ScriptModules
