import Mathlib.Data.String.Basic
import ScriptModules.Proofs.Result
import ScriptModules.Text.Order

namespace ScriptModules.Text

variable {α κ : Type}

section

variable [LT κ] [DecidableLT κ]

theorem insertBy_perm (key : α → κ) (x : α) (xs : List α) : (insertBy key x xs).Perm (x :: xs) := by
  induction xs with
  | nil => exact .refl _
  | cons y ys ih =>
      rw [insertBy]
      split
      · exact .refl _
      · exact (ih.cons y).trans (.swap x y ys)

theorem sortBy_perm (key : α → κ) (xs : List α) : (sortBy key xs).Perm xs := by
  refine foldl_invariant (fun done sorted => List.Perm sorted done) ?_ (.refl [])
  intro done x todo sorted parts perm
  refine (insertBy_perm key x sorted).trans ((perm.cons x).trans ?_)
  exact (List.perm_append_singleton x done).symm

end

variable [LinearOrder κ]

theorem insertBy_ascending (key : α → κ) (x : α) {xs : List α}
    (ascending : xs.Pairwise fun y z => key y ≤ key z) :
    (insertBy key x xs).Pairwise fun y z => key y ≤ key z := by
  induction xs with
  | nil => exact List.pairwise_singleton _ x
  | cons y ys ih =>
      obtain ⟨first, rest⟩ := List.pairwise_cons.mp ascending
      rw [insertBy]
      split
      · rename_i less
        apply List.pairwise_cons.mpr
        refine ⟨fun z member => ?_, ascending⟩
        rcases List.mem_cons.mp member with rfl | member
        · exact less.le
        · exact less.le.trans (first z member)
      · rename_i notLess
        apply List.pairwise_cons.mpr
        refine ⟨fun z member => ?_, ih rest⟩
        rcases List.mem_cons.mp ((insertBy_perm key x ys).mem_iff.mp member) with rfl | member
        · exact not_lt.mp notLess
        · exact first z member

theorem sortBy_ascending {key : α → κ} {xs : List α} (distinct : (xs.map key).Nodup) :
    ((sortBy key xs).map key).Pairwise (· < ·) := by
  have ascending : (sortBy key xs).Pairwise fun y z => key y ≤ key z := by
    refine foldl_invariant (fun _ sorted => List.Pairwise (fun y z => key y ≤ key z) sorted) ?_ .nil
    intro done x todo sorted _ ascending
    exact insertBy_ascending key x ascending
  have different : ((sortBy key xs).map key).Nodup :=
    ((sortBy_perm key xs).map key).nodup_iff.mpr distinct
  have both := (List.pairwise_map.mpr ascending).and different
  exact both.imp fun less => lt_of_le_of_ne less.1 less.2

theorem eq_sortBy {key : α → κ} {xs sorted : List α} (distinct : (xs.map key).Nodup)
    (ascending : (sorted.map key).Pairwise (· < ·)) (perm : sorted.Perm xs) :
    sorted = sortBy key xs := by
  have ascending' := List.pairwise_map.mp (sortBy_ascending distinct)
  apply List.Perm.eq_of_pairwise (fun _ _ _ _ less greater => absurd less greater.asymm)
    (List.pairwise_map.mp ascending) ascending'
  exact perm.trans (sortBy_perm key xs).symm

theorem sortBy_of_perm {key : α → κ} {xs ys : List α} (distinct : (xs.map key).Nodup)
    (perm : ys.Perm xs) : sortBy key ys = sortBy key xs := by
  have distinct' : (ys.map key).Nodup := (perm.map key).nodup_iff.mpr distinct
  exact eq_sortBy distinct (sortBy_ascending distinct') ((sortBy_perm key ys).trans perm)

theorem sortBy_filter {key : α → κ} {xs : List α} (distinct : (xs.map key).Nodup) (keep : α → Bool) :
    sortBy key (xs.filter keep) = (sortBy key xs).filter keep := by
  have fewer : ((xs.filter keep).map key).Nodup := distinct.sublist (List.filter_sublist.map key)
  refine (eq_sortBy fewer ?_ ((sortBy_perm key xs).filter keep)).symm
  exact (sortBy_ascending distinct).sublist (List.filter_sublist.map key)

end ScriptModules.Text
