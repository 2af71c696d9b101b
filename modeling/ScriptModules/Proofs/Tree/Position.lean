import Mathlib.Algebra.GroupWithZero.Nat
import Mathlib.Data.List.Basic
import ScriptModules.Tree.Walk

namespace ScriptModules.Tree.Node

/-! ## Nodes at positions -/

@[simp] theorem at?_nil (node : Node) : node.at? [] = some node := by
  cases node
  rw [at?]

theorem at?_cons (node : Node) (index : Nat) (rest : Position) :
    node.at? (index :: rest) = node.children[index]?.bind fun child => child.at? rest := by
  rw [at?]
  cases node.children[index]? <;> rfl

theorem at?_append (node : Node) (p q : Position) :
    node.at? (p ++ q) = (node.at? p).bind fun below => below.at? q := by
  induction p generalizing node with
  | nil => simp
  | cons index p ih =>
      rw [List.cons_append, at?_cons, at?_cons]
      cases node.children[index]? with
      | none => rfl
      | some child => exact ih child

theorem at?_snoc {node parent : Node} {p : Position} (here : node.at? p = some parent)
    (index : Nat) : node.at? (p ++ [index]) = parent.children[index]? := by
  rw [at?_append, here, Option.bind_some, at?_cons]
  cases parent.children[index]? <;> simp

theorem at?_modifyAt_append (change : Node → Node) (root : Node) (p q : Position) :
    (root.modifyAt change p).at? (p ++ q) = (root.at? p).bind fun old => (change old).at? q := by
  induction p generalizing root with
  | nil =>
      cases root
      simp [modifyAt]
  | cons index p ih =>
      obtain ⟨form, comments, children⟩ := root
      rw [List.cons_append, at?_cons, at?_cons, modifyAt]
      rw [children_mk, children_mk, List.getElem?_modify_eq]
      cases children[index]? with
      | none => rfl
      | some child => exact ih child

theorem at?_modifyAt_self (change : Node → Node) (root : Node) (p : Position) :
    (root.modifyAt change p).at? p = (root.at? p).map change := by
  have below := at?_modifyAt_append change root p []
  rw [List.append_nil] at below
  rw [below]
  cases root.at? p <;> simp

def Apart (p q : Position) : Prop :=
  ¬p <+: q ∧ ¬q <+: p

theorem at?_modifyAt_of_apart (change : Node → Node) (root : Node) {p q : Position}
    (apart : Apart p q) : (root.modifyAt change p).at? q = root.at? q := by
  induction p generalizing root q with
  | nil => exact absurd List.nil_prefix apart.1
  | cons i p ih =>
      cases q with
      | nil => exact absurd List.nil_prefix apart.2
      | cons j q =>
          obtain ⟨form, comments, children⟩ := root
          rw [modifyAt, at?_cons, at?_cons, children_mk, children_mk]
          by_cases same : i = j
          · subst same
            rw [List.getElem?_modify_eq]
            have apart : Apart p q := by
              simpa [Apart] using apart
            cases children[i]? with
            | none => rfl
            | some child => exact ih child apart
          · rw [List.getElem?_modify_ne _ _ same]

theorem at?_modifyAt_above (change : Node → Node) (root : Node) (p : Position) (index : Nat)
    (q : Position) : (root.modifyAt change (p ++ index :: q)).at? p =
      (root.at? p).map fun above => above.modifyAt change (index :: q) := by
  induction p generalizing root with
  | nil => simp
  | cons i p ih =>
      obtain ⟨form, comments, children⟩ := root
      rw [List.cons_append, modifyAt, at?_cons, at?_cons, children_mk, children_mk,
        List.getElem?_modify_eq]
      cases children[i]? with
      | none => rfl
      | some child => exact ih child

theorem modifyAt_nil (change : Node → Node) (node : Node) :
    node.modifyAt change [] = change node := by
  cases node
  rfl

theorem form_modifyAt_cons (change : Node → Node) (root : Node) (index : Nat) (rest : Position) :
    (root.modifyAt change (index :: rest)).form = root.form := by
  obtain ⟨form, comments, children⟩ := root
  rw [modifyAt, form_mk, form_mk]

theorem form_modifyAt_of_ne_nil (change : Node → Node) (root : Node) {p : Position} (below : p ≠ []) :
    (root.modifyAt change p).form = root.form := by
  cases p with
  | nil => exact absurd rfl below
  | cons index rest => exact form_modifyAt_cons change root index rest

theorem comments_modifyAt_of_ne_nil (change : Node → Node) (root : Node) {p : Position}
    (below : p ≠ []) : (root.modifyAt change p).comments = root.comments := by
  cases root
  cases p with
  | nil => exact absurd rfl below
  | cons index rest => rw [modifyAt, comments_mk, comments_mk]

theorem form_at?_modifyAt (change : Node → Node) (root : Node) {p q : Position}
    (outside : ¬p <+: q) :
    ((root.modifyAt change p).at? q).map form = (root.at? q).map form := by
  by_cases above : q <+: p
  · obtain ⟨rest, rfl⟩ := above
    cases rest with
    | nil => exact absurd (by simp) outside
    | cons index rest =>
        rw [at?_modifyAt_above, Option.map_map]
        refine congrArg (Option.map · _) (funext fun node => ?_)
        exact form_modifyAt_cons change node index rest
  · rw [at?_modifyAt_of_apart change root ⟨outside, above⟩]

theorem comments_at?_modifyAt (change : Node → Node) (root : Node) {p q : Position}
    (outside : ¬p <+: q) :
    ((root.modifyAt change p).at? q).map comments = (root.at? q).map comments := by
  by_cases above : q <+: p
  · obtain ⟨rest, rfl⟩ := above
    have below : rest ≠ [] := by
      rintro rfl
      exact outside (by simp)
    obtain ⟨index, rest, rfl⟩ := List.exists_cons_of_ne_nil below
    rw [at?_modifyAt_above, Option.map_map]
    refine congrArg (Option.map · _) (funext fun node => ?_)
    exact comments_modifyAt_of_ne_nil change node below
  · rw [at?_modifyAt_of_apart change root ⟨outside, above⟩]

/-! ## Visits -/

mutual

def visits (above : Position) : Node → List Visit
  | mk form comments children => visitsFrom (mk form comments children) above 0 children

def visitsFrom (parent : Node) (above : Position) : Nat → List Node → List Visit
  | _, [] => []
  | index, child :: rest =>
    ⟨parent, above, index, child⟩ ::
      (visits (above ++ [index]) child ++ visitsFrom parent above (index + 1) rest)

end

theorem visits_eq (above : Position) (node : Node) :
    visits above node = visitsFrom node above 0 node.children := by
  cases node
  rw [visits, children_mk]

theorem flatMap_children (parent : Node) (above : Position) (index : Nat) (nodes : List Node) :
    ((Visit.children parent above index nodes).flatMap fun visit =>
      visit :: visits visit.position visit.node) = visitsFrom parent above index nodes := by
  induction nodes generalizing index with
  | nil => rw [Visit.children, List.flatMap_nil, visitsFrom]
  | cons node nodes ih =>
      rw [Visit.children, List.flatMap_cons, visitsFrom, ih]
      rfl

theorem sum_children (parent : Node) (above : Position) (index : Nat) (nodes : List Node) :
    ((Visit.children parent above index nodes).map fun visit => visit.node.size).sum =
      sizes nodes := by
  induction nodes generalizing index with
  | nil => rfl
  | cons node nodes ih => rw [Visit.children, List.map_cons, List.sum_cons, ih, sizes]

theorem walkFrom_eq {steps : Nat} {due : List Visit}
    (enough : (due.map fun visit => visit.node.size).sum ≤ steps) :
    walkFrom steps due = due.flatMap fun visit => visit :: visits visit.position visit.node := by
  induction steps generalizing due with
  | zero =>
      cases due with
      | nil => rfl
      | cons visit due =>
          have positive : 0 < visit.node.size := by
            cases visit.node
            rw [size]
            omega
          rw [List.map_cons, List.sum_cons] at enough
          omega
  | succ steps ih =>
      cases due with
      | nil => rfl
      | cons visit due =>
          have whole : visit.node.size = sizes visit.node.children + 1 := by
            cases visit.node
            rw [size, children_mk]
          rw [List.map_cons, List.sum_cons] at enough
          rw [walkFrom, ih, List.flatMap_append, flatMap_children, List.flatMap_cons, visits_eq]
          · rfl
          · rw [List.map_append, List.sum_append, sum_children]
            omega

theorem walk_eq (root : Node) : root.walk = visits [] root := by
  have enough : sizes root.children ≤ root.size := by
    cases root
    rw [size, children_mk]
    omega
  rw [walk, walkFrom_eq, flatMap_children, visits_eq]
  rw [sum_children]
  exact enough

/-- What a visit tells about the tree below a node: its parent stands at a position, and the visited
node among the children of the parent. -/
def Sees (node : Node) (above : Position) (visit : Visit) : Prop :=
  ∃ q, visit.above = above ++ q ∧ node.at? q = some visit.parent ∧
    visit.parent.children[visit.index]? = some visit.node

theorem sees_iff (node : Node) (above : Position) (visit : Visit) :
    Sees node above visit ↔ ∃ i child, node.children[i]? = some child ∧
      (visit = ⟨node, above, i, child⟩ ∨ Sees child (above ++ [i]) visit) := by
  constructor
  · rintro ⟨q, whole, parent, child⟩
    cases q with
    | nil =>
        rw [at?_nil] at parent
        cases parent
        refine ⟨visit.index, visit.node, child, .inl ?_⟩
        rw [List.append_nil] at whole
        cases visit
        cases whole
        rfl
    | cons i q =>
        rw [at?_cons] at parent
        obtain ⟨below, here, parent⟩ := Option.bind_eq_some_iff.mp parent
        exact ⟨i, below, here, .inr ⟨q, by simpa using whole, parent, child⟩⟩
  · rintro ⟨i, child, here, rfl | ⟨q, whole, parent, last⟩⟩
    · exact ⟨[], by simp, at?_nil node, here⟩
    · refine ⟨i :: q, by simpa using whole, ?_, last⟩
      rw [at?_cons, here]
      exact parent

mutual

theorem mem_visits (visit : Visit) (above : Position) : ∀ node : Node,
    visit ∈ visits above node ↔ Sees node above visit
  | mk form comments children => by
      rw [visits, mem_visitsFrom, sees_iff]
      simp

theorem mem_visitsFrom (visit : Visit) (parent : Node) (above : Position) :
    ∀ (index : Nat) (nodes : List Node), visit ∈ visitsFrom parent above index nodes ↔
      ∃ i child, nodes[i]? = some child ∧
        (visit = ⟨parent, above, index + i, child⟩ ∨ Sees child (above ++ [index + i]) visit)
  | _, [] => by simp [visitsFrom]
  | index, child :: rest => by
      rw [visitsFrom, List.mem_cons, List.mem_append, mem_visits visit _ child,
        mem_visitsFrom visit parent above (index + 1) rest]
      constructor
      · rintro (here | below | ⟨i, node, member, met⟩)
        · exact ⟨0, child, rfl, .inl here⟩
        · exact ⟨0, child, rfl, .inr below⟩
        · refine ⟨i + 1, node, member, ?_⟩
          rwa [Nat.add_right_comm, Nat.add_assoc] at met
      · rintro ⟨i, node, member, met⟩
        cases i with
        | zero =>
            cases member
            exact met.imp_right .inl
        | succ i =>
            refine .inr (.inr ⟨i, node, member, ?_⟩)
            rwa [Nat.add_right_comm, Nat.add_assoc]

end

theorem mem_walk {root : Node} {visit : Visit} :
    visit ∈ root.walk ↔ root.at? visit.above = some visit.parent ∧
      visit.parent.children[visit.index]? = some visit.node := by
  rw [walk_eq, mem_visits]
  constructor
  · rintro ⟨q, rfl, parent, child⟩
    exact ⟨parent, child⟩
  · rintro ⟨parent, child⟩
    exact ⟨visit.above, rfl, parent, child⟩

theorem at?_position_of_mem_walk {root : Node} {visit : Visit} (member : visit ∈ root.walk) :
    root.at? visit.position = some visit.node := by
  obtain ⟨parent, child⟩ := mem_walk.mp member
  rw [Visit.position, at?_snoc parent, child]

theorem exists_mem_walk {root node : Node} {p : Position} (inner : p ≠ [])
    (here : root.at? p = some node) :
    ∃ visit ∈ root.walk, visit.position = p ∧ visit.node = node := by
  rcases List.eq_nil_or_concat p with rfl | ⟨above, index, rfl⟩
  · exact absurd rfl inner
  · rw [List.concat_eq_append, at?_append] at here
    obtain ⟨parent, place, here⟩ := Option.bind_eq_some_iff.mp here
    rw [at?_cons] at here
    obtain ⟨child, inside, here⟩ := Option.bind_eq_some_iff.mp here
    rw [at?_nil] at here
    cases here
    refine ⟨⟨parent, above, index, node⟩, mem_walk.mpr ⟨place, inside⟩, ?_, rfl⟩
    rw [List.concat_eq_append]
    rfl

end ScriptModules.Tree.Node
