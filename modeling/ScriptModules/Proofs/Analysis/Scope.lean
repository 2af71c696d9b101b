import ScriptModules.Proofs.Analysis.Marker
import ScriptModules.Proofs.Corpus.Chunks
import ScriptModules.Proofs.Tree.Scope

namespace ScriptModules

open ScriptModules.Tree
open Access (isAccess accessedName)

namespace TypeCheck

variable {settings : Settings}

theorem bindings_helperTrees (pass : Pass) :
    ∀ helper ∈ pass.helperTrees, helper.bindings = [] := by
  intro helper member
  rcases List.mem_append.mp member with member | member
  all_goals
    obtain ⟨name, -, rfl⟩ := List.mem_map.mp member
    rfl

theorem replace_bindings {script checked : Script} {events : List Event}
    (sound : script.tree.Sound) (taken : ∀ name ∈ script.tree.names, name ∈ script.names)
    (run : replace settings script = .ok (checked, events)) :
    ∀ helper ∈ checked.helpers, helper ∈ script.helpers ∨ helper.bindings = [] := by
  obtain ⟨pass, -, -, -, rfl⟩ :=
    replace_invariant sound taken (fun _ _ => True) trivial (fun _ _ _ _ _ _ _ _ => trivial) run
  intro helper member
  exact (List.mem_append.mp member).imp_right (bindings_helperTrees pass helper)

end TypeCheck

/-! ## Substituted accesses -/

namespace Access

/-- What stands for accesses and binds nothing: names of nodes that it brings in are among given
ones. -/
structure Plain (more : List String) (value : String → Node) : Prop where
  name : ∀ accessed name, (value accessed).form.name? = some name → name ∈ more
  hoisted : ∀ accessed, (value accessed).hoisted = []
  bindings : ∀ accessed, (value accessed).bindings = []

variable {more : List String} {value : String → Node}

theorem Plain.of_subset {less : List String} (plain : Plain less value) (subset : less ⊆ more) :
    Plain more value :=
  { plain with name := fun accessed name named => subset (plain.name accessed name named) }

mutual

theorem substitute_bindsWithin (globalName : String) (plain : Plain more value) :
    ∀ tree : Node, (substitute globalName value tree).BindsWithin more tree
  | .mk form comments children => by
    rw [substitute]
    split
    · exact ⟨fun name named => .inr (plain.name _ _ named),
        (plain.hoisted _).symm ▸ List.nil_subset _⟩
    · exact .congr (substituteAll_bindsWithin globalName plain children)

theorem substituteAll_bindsWithin (globalName : String) (plain : Plain more value) :
    ∀ nodes : List Node,
      List.Forall₂ (Node.BindsWithin more) (substituteAll globalName value nodes) nodes
  | [] => .nil
  | node :: nodes => by
    rw [substituteAll]
    exact .cons (substitute_bindsWithin globalName plain node)
      (substituteAll_bindsWithin globalName plain nodes)

end

theorem substitute_scope {globalName : String} (plain : Plain more value) {tree : Node}
    (other : isAccess globalName tree = false) :
    (substitute globalName value tree).scope ⊆ tree.scope ++ more := by
  obtain ⟨form, comments, children⟩ := tree
  rw [substitute, if_neg (by simp [other])]
  exact Node.scope_subset (substituteAll_bindsWithin globalName plain children)

theorem substitute_site {globalName : String} (plain : Plain more value) {tree node : Node}
    {site : Position} (here : tree.at? site = some node) (access : isAccess globalName node = true)
    (off : ∀ p above, p <+: site → p ≠ site → tree.at? p = some above →
      isAccess globalName above = false) :
    (substitute globalName value tree).at? site = some (value (accessedName node)) ∧
      (substitute globalName value tree).boundAt site ⊆ tree.boundAt site ++ more := by
  induction site generalizing tree with
  | nil =>
      rw [Node.at?_nil, Option.some.injEq] at here
      subst here
      obtain ⟨form, comments, children⟩ := tree
      rw [substitute, if_pos access, Node.at?_nil, Node.boundAt_nil]
      exact ⟨rfl, List.nil_subset _⟩
  | cons index site ih =>
      obtain ⟨form, comments, children⟩ := tree
      have other := off [] _ List.nil_prefix (by simp) (Node.at?_nil _)
      have scopes := substitute_scope plain other
      rw [substitute, if_neg (by simp [other])] at scopes ⊢
      rw [Node.at?_cons] at here
      obtain ⟨child, place, here⟩ := Option.bind_eq_some_iff.mp here
      obtain ⟨found, inner⟩ := ih here fun p above within apart found => by
        refine off (index :: p) above (List.cons_prefix_cons.mpr ⟨rfl, within⟩)
          (by simpa using apart) ?_
        rw [Node.at?_cons, place]
        exact found
      have place' : (substituteAll globalName value children)[index]? =
          some (substitute globalName value child) := by
        rw [substituteAll_eq_map, List.getElem?_map, show children[index]? = some child from place]
        rfl
      refine ⟨by rw [Node.at?_cons, Node.children_mk, place', Option.bind_some, found], ?_⟩
      rw [Node.boundAt_cons place', Node.boundAt_cons place]
      intro name member
      have cases := (List.mem_append.mp member).imp (@scopes name) (@inner name)
      simp only [List.mem_append] at cases ⊢
      tauto

theorem at?_substitute {globalName : String} {tree node : Node} {p : Position}
    (here : (substitute globalName value tree).at? p = some node) :
    (∃ site below old, p = site ++ below ∧ tree.at? site = some old ∧
      isAccess globalName old = true) ∨
      ∃ old, tree.at? p = some old ∧ old.form = node.form := by
  induction p generalizing tree with
  | nil =>
      cases access : isAccess globalName tree with
      | true => exact .inl ⟨[], [], tree, rfl, Node.at?_nil tree, access⟩
      | false =>
          obtain ⟨form, comments, children⟩ := tree
          rw [substitute, if_neg (by simp [access]), Node.at?_nil] at here
          cases here
          exact .inr ⟨_, Node.at?_nil _, rfl⟩
  | cons index p ih =>
      cases access : isAccess globalName tree with
      | true => exact .inl ⟨[], index :: p, tree, rfl, Node.at?_nil tree, access⟩
      | false =>
          obtain ⟨form, comments, children⟩ := tree
          rw [substitute, if_neg (by simp [access]), Node.at?_cons, Node.children_mk,
            substituteAll_eq_map, List.getElem?_map] at here
          obtain ⟨child', changed, here⟩ := Option.bind_eq_some_iff.mp here
          obtain ⟨child, place, rfl⟩ := Option.map_eq_some_iff.mp changed
          have step (q : Position) : (Node.mk form comments children).at? (index :: q) =
              child.at? q := by
            rw [Node.at?_cons, Node.children_mk, place, Option.bind_some]
          refine (ih here).imp ?_ ?_
          · rintro ⟨site, below, old, rfl, found, access⟩
            exact ⟨index :: site, below, old, rfl, (step site).trans found, access⟩
          · rintro ⟨old, found, same⟩
            exact ⟨old, (step p).trans found, same⟩

end Access

end ScriptModules
