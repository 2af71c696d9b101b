import ScriptModules.Proofs.Tree.Position

namespace ScriptModules.Tree

inductive Exchanges : List Position → Node → Node → Prop
  | none (tree : Node) : Exchanges [] tree tree
  | next {calls : List Position} {position : Position} {tree between last new : Node}
      (before : Exchanges calls tree between)
      (replaced : between.replaceChild? position.dropLast position new = some last) :
      Exchanges (calls ++ [position]) tree last

/-- No position is at or below an earlier one. -/
def Steady (calls : List Position) : Prop :=
  calls.Pairwise fun earlier later => ¬earlier <+: later

namespace Node

theorem modifyAt_congr {change change' : Node → Node} {root old : Node} {p : Position}
    (here : root.at? p = some old) (same : change old = change' old) :
    root.modifyAt change p = root.modifyAt change' p := by
  induction p generalizing root with
  | nil =>
      rw [at?_nil, Option.some.injEq] at here
      subst here
      cases root
      exact same
  | cons index p ih =>
      obtain ⟨form, comments, children⟩ := root
      rw [at?_cons, children_mk] at here
      obtain ⟨child, place, below⟩ := Option.bind_eq_some_iff.mp here
      rw [modifyAt, modifyAt]
      congr 1
      apply List.ext_getElem?
      intro i
      by_cases own : i = index
      · subst own
        rw [List.getElem?_modify_eq, List.getElem?_modify_eq, place]
        exact congrArg some (ih below)
      · rw [List.getElem?_modify_ne _ _ (Ne.symm own), List.getElem?_modify_ne _ _ (Ne.symm own)]

theorem replaceChild?_eq_some {root old : Node} {p : Position} (here : root.at? p = some old)
    (below : p ≠ []) (new : Node) :
    root.replaceChild? p.dropLast p new = some (root.modifyAt new.inPlaceOf p) := by
  rw [replaceChild?, if_pos ⟨rfl, below⟩, here]
  exact congrArg some (modifyAt_congr here rfl)

theorem replaceChild?_eq_none {root : Node} {above p : Position}
    (unvisited : ∀ visit ∈ root.walk, ¬(visit.above = above ∧ visit.position = p)) (new : Node) :
    root.replaceChild? above p new = none := by
  rw [replaceChild?]
  split
  · rename_i place
    cases here : root.at? p with
    | none => rfl
    | some node =>
        obtain ⟨visit, met, same, -⟩ := exists_mem_walk place.2 here
        refine absurd ⟨?_, same⟩ (unvisited visit met)
        rw [← place.1, ← same, Visit.position, List.dropLast_concat]
  · rfl

theorem replaceChild?_of_mem_walk {root : Node} {visit : Visit} (met : visit ∈ root.walk)
    (new : Node) : root.replaceChild? visit.above visit.position new =
      some (root.modifyAt (fun _ => new.inPlaceOf visit.node) visit.position) := by
  have last : visit.position.dropLast = visit.above ∧ visit.position ≠ [] := by
    simp [Visit.position]
  rw [replaceChild?, if_pos last, at?_position_of_mem_walk met]

end Node

namespace Exchanges

variable {calls more : List Position} {tree between last old : Node} {p : Position}

theorem put (before : Exchanges calls tree between) (here : between.at? p = some old)
    (below : p ≠ []) (new : Node) :
    Exchanges (calls ++ [p]) tree (between.modifyAt new.inPlaceOf p) :=
  .next before (Node.replaceChild?_eq_some here below new)

theorem trans (before : Exchanges calls tree between) (after : Exchanges more between last) :
    Exchanges (calls ++ more) tree last := by
  induction after with
  | none => rwa [List.append_nil]
  | next _ replaced ih =>
      rw [← List.append_assoc]
      exact .next (ih before) replaced

end Exchanges

/-! ## The order of a walk -/

namespace Node

theorem position_of_mem_visits {visit : Visit} {above : Position} {node : Node}
    (member : visit ∈ visits above node) : ∃ index rest, visit.position = above ++ index :: rest := by
  obtain ⟨q, whole, -⟩ := (mem_visits visit above node).mp member
  rw [Visit.position, whole, List.append_assoc]
  cases q with
  | nil => exact ⟨visit.index, [], rfl⟩
  | cons index q => exact ⟨index, q ++ [visit.index], rfl⟩

theorem position_of_mem_visitsFrom {visit : Visit} {parent : Node} {above : Position} {index : Nat}
    {nodes : List Node} (member : visit ∈ visitsFrom parent above index nodes) :
    ∃ i rest, index ≤ i ∧ visit.position = above ++ i :: rest := by
  obtain ⟨i, child, -, here | ⟨q, whole, -⟩⟩ :=
    (mem_visitsFrom visit parent above index nodes).mp member
  · exact ⟨index + i, [], Nat.le_add_right _ _, by rw [here]; rfl⟩
  · refine ⟨index + i, q ++ [visit.index], Nat.le_add_right _ _, ?_⟩
    rw [Visit.position, whole, List.append_assoc, List.append_assoc]
    rfl

theorem not_prefix_of_lt {above rest rest' : Position} {i j : Nat} (less : i < j) :
    ¬above ++ j :: rest <+: above ++ i :: rest' := by
  rw [List.prefix_append_right_inj, List.cons_prefix_cons]
  exact fun below => absurd below.1 (by omega)

mutual

theorem steady_visits (above : Position) : ∀ node : Node,
    (visits above node).Pairwise fun early late => ¬late.position <+: early.position
  | mk form comments children => by
      rw [visits]
      exact steady_visitsFrom _ above 0 children

theorem steady_visitsFrom (parent : Node) (above : Position) : ∀ (index : Nat) (nodes : List Node),
    (visitsFrom parent above index nodes).Pairwise fun early late =>
      ¬late.position <+: early.position
  | _, [] => by
      rw [visitsFrom]
      exact .nil
  | index, child :: rest => by
      rw [visitsFrom, List.pairwise_cons, List.pairwise_append]
      refine ⟨fun late member => ?_, steady_visits _ child, steady_visitsFrom parent above _ rest,
        fun early member late member' => ?_⟩
      · rcases List.mem_append.mp member with below | behind
        · obtain ⟨i, q, same⟩ := position_of_mem_visits below
          rw [same]
          intro above
          have longer := above.length_le
          simp [Visit.position] at longer
        · obtain ⟨i, q, less, same⟩ := position_of_mem_visitsFrom behind
          rw [same]
          exact not_prefix_of_lt less
      · obtain ⟨i, q, same⟩ := position_of_mem_visits member
        obtain ⟨j, r, less, same'⟩ := position_of_mem_visitsFrom member'
        rw [same, same', List.append_assoc]
        exact not_prefix_of_lt less

end

theorem steady_walk (root : Node) :
    root.walk.Pairwise fun early late => ¬late.position <+: early.position := by
  rw [walk_eq]
  exact steady_visits [] root

theorem nodup_positions (root : Node) : (root.walk.map Visit.position).Nodup := by
  rw [List.Nodup, List.pairwise_map]
  apply root.steady_walk.imp
  intro early late apart same
  exact apart (same ▸ List.prefix_rfl)

end Node

end ScriptModules.Tree
