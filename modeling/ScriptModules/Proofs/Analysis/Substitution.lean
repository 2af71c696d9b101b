import ScriptModules.Proofs.Analysis.Access

namespace ScriptModules.Access

open ScriptModules.Tree

mutual

/-- The tree with each access to a property of the global object replaced by what stands for the
name of the property. -/
def substitute (globalName : String) (value : String → Node) : Node → Node
  | .mk form comments children =>
    let node := Node.mk form comments children
    if isAccess globalName node then value (accessedName node)
    else .mk form comments (substituteAll globalName value children)

def substituteAll (globalName : String) (value : String → Node) : List Node → List Node
  | [] => []
  | node :: nodes => substitute globalName value node :: substituteAll globalName value nodes

end

theorem substituteAll_eq_map (globalName : String) (value : String → Node) (nodes : List Node) :
    substituteAll globalName value nodes = nodes.map (substitute globalName value) := by
  induction nodes with
  | nil => rfl
  | cons node nodes ih => rw [substituteAll, ih, List.map_cons]

def OffAccesses (globalName : String) (tree : Node) (q : Position) : Prop :=
  ∀ p node, p <+: q → tree.at? p = some node → isAccess globalName node = false

theorem OffAccesses.nil {globalName : String} {tree : Node}
    (other : isAccess globalName tree = false) : OffAccesses globalName tree [] := by
  intro p node above found
  rw [List.prefix_nil.mp above, Node.at?_nil] at found
  cases found
  exact other

theorem OffAccesses.cons {globalName : String} {tree : Node} {index : Nat} {q : Position}
    (other : isAccess globalName tree = false)
    (off : ∀ child, tree.children[index]? = some child → OffAccesses globalName child q) :
    OffAccesses globalName tree (index :: q) := by
  intro p node above found
  cases p with
  | nil => exact OffAccesses.nil other [] node (List.prefix_refl []) found
  | cons first p =>
      obtain ⟨rfl, within⟩ := List.cons_prefix_cons.mp above
      rw [Node.at?_cons] at found
      obtain ⟨child, here, found⟩ := Option.bind_eq_some_iff.mp found
      exact off child here p node within found

/-- A tree has the forms of another off its accesses, and the right node at each of these. -/
structure Substitutes (globalName : String) (value : String → Node) (tree changed : Node) : Prop
    where
  forms : ∀ q, OffAccesses globalName tree q →
    (changed.at? q).map Node.form = (tree.at? q).map Node.form
  sites : ∀ p node, tree.at? p = some node → isAccess globalName node = true →
    (changed.at? p).map Node.bare = some (value (accessedName node)).bare

namespace Substitutes

variable {globalName : String} {value : String → Node} {tree changed : Node}

theorem form (substitutes : Substitutes globalName value tree changed)
    (other : isAccess globalName tree = false) : changed.form = tree.form := by
  simpa using substitutes.forms [] (.nil other)

theorem bare (substitutes : Substitutes globalName value tree changed)
    (access : isAccess globalName tree = true) :
    changed.bare = (value (accessedName tree)).bare := by
  simpa using substitutes.sites [] tree (Node.at?_nil tree) access

theorem no_child (substitutes : Substitutes globalName value tree changed)
    (other : isAccess globalName tree = false) {index : Nat}
    (absent : tree.children[index]? = none) : changed.children[index]? = none := by
  have forms := substitutes.forms [index] (.cons other fun child here => by
    cases absent.symm.trans here)
  rw [Node.at?_cons, Node.at?_cons, absent] at forms
  cases here : changed.children[index]? with
  | none => rfl
  | some child => simp [here] at forms

theorem child (substitutes : Substitutes globalName value tree changed)
    (other : isAccess globalName tree = false) {index : Nat} {child : Node}
    (here : tree.children[index]? = some child) : ∃ child',
      changed.children[index]? = some child' ∧ Substitutes globalName value child child' := by
  have below (q : Position) : tree.at? (index :: q) = child.at? q := by
    rw [Node.at?_cons, here, Option.bind_some]
  have off {q : Position} (apart : OffAccesses globalName child q) :
      OffAccesses globalName tree (index :: q) :=
    .cons other fun child' here' => by
      cases here.symm.trans here'
      exact apart
  cases there : changed.children[index]? with
  | none =>
      -- something stands here in the tree, and so it does in the changed one
      exfalso
      cases access : isAccess globalName child with
      | true =>
          have site := substitutes.sites [index] child ((below []).trans (Node.at?_nil child)) access
          simp [Node.at?_cons, there] at site
      | false =>
          have form := substitutes.forms [index] (off (.nil access))
          simp [Node.at?_cons, here, there] at form
  | some child' =>
      have below' (q : Position) : changed.at? (index :: q) = child'.at? q := by
        rw [Node.at?_cons, there, Option.bind_some]
      refine ⟨child', rfl, fun q apart => ?_, fun p node found access => ?_⟩
      · rw [← below', ← below]
        exact substitutes.forms (index :: q) (off apart)
      · rw [← below']
        exact substitutes.sites (index :: p) node ((below p).trans found) access

end Substitutes

theorem bare_eq_substitute {globalName : String} {value : String → Node} {tree changed : Node}
    (sound : tree.Sound) (substitutes : Substitutes globalName value tree changed) :
    changed.bare = (substitute globalName value tree).bare := by
  induction sound generalizing changed with
  | @mk form comments children _ _ _ ih =>
      cases access : isAccess globalName (.mk form comments children) with
      | true => rw [substitutes.bare access, substitute, if_pos access]
      | false =>
          have same := substitutes.form access
          obtain ⟨form', comments', children'⟩ := changed
          obtain rfl : form' = form := same
          rw [substitute, if_neg (by simp [access]), Node.bare, Node.bare, Node.bares_eq_map,
            Node.bares_eq_map, substituteAll_eq_map, List.map_map]
          refine congrArg (Node.mk form' []) (List.ext_getElem? fun index => ?_)
          rw [List.getElem?_map, List.getElem?_map]
          cases here : children[index]? with
          | none =>
              have absent : children'[index]? = none := substitutes.no_child access here
              rw [absent]
              rfl
          | some child =>
              obtain ⟨child', there, within⟩ := substitutes.child access here
              have there : children'[index]? = some child' := there
              rw [there]
              exact congrArg some (ih child (List.mem_of_getElem? here) within)

end ScriptModules.Access
