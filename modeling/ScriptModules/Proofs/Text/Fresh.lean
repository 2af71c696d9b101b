import Mathlib.Data.List.Nodup
import Mathlib.Data.List.Perm.Subperm
import ScriptModules.Proofs.Tree.Scanning

namespace ScriptModules.Text

def underscored : Nat → String → String
  | 0, name => name
  | count + 1, name => "_" ++ underscored count name

theorem toList_underscored (count : Nat) (name : String) :
    (underscored count name).toList = List.replicate count '_' ++ name.toList := by
  induction count with
  | zero => rfl
  | succ count ih => simp [underscored, ih, List.replicate_succ]

theorem underscored_injective (name : String) :
    Function.Injective fun count => underscored count name := by
  intro a b same
  have lengths := congrArg (fun text : String => text.toList.length) same
  simpa [toList_underscored] using lengths

theorem underscored_succ (count : Nat) (name : String) :
    underscored count ("_" ++ name) = underscored (count + 1) name := by
  induction count with
  | zero => rfl
  | succ count ih => exact congrArg ("_" ++ ·) ih

theorem freshWithin_eq (used : List String) (limit : Nat) (name : String) :
    ∃ count ≤ limit, freshWithin used limit name = underscored count name ∧
      (∀ fewer < count, underscored fewer name ∈ used) ∧
      (count < limit → underscored count name ∉ used) := by
  induction limit generalizing name with
  | zero => exact ⟨0, Nat.le_refl 0, rfl, by simp, by simp⟩
  | succ limit ih =>
      by_cases refused : name ∈ used
      · obtain ⟨count, bound, result, before, free⟩ := ih ("_" ++ name)
        refine ⟨count + 1, by omega, ?_, ?_, ?_⟩
        · rw [freshWithin, if_pos (by simpa using refused), result, underscored_succ]
        · intro fewer less
          cases fewer with
          | zero => exact refused
          | succ fewer =>
              rw [← underscored_succ]
              exact before fewer (by omega)
        · intro less
          rw [← underscored_succ]
          exact free (by omega)
      · refine ⟨0, by omega, ?_, by simp, fun _ => refused⟩
        rw [freshWithin, if_neg (by simpa using refused)]
        rfl

theorem fresh_eq (taken : List String) (name : String) :
    ∃ count, fresh taken name = underscored count name ∧
      underscored count name ∉ taken ++ reservedWords ∧
      ∀ fewer < count, underscored fewer name ∈ taken ++ reservedWords := by
  obtain ⟨count, bound, result, before, free⟩ :=
    freshWithin_eq (taken ++ reservedWords) (taken ++ reservedWords).length name
  refine ⟨count, result, ?_, before⟩
  intro refused
  -- then all names up to this one are in use, one more than there are names in use
  have all : (List.range (count + 1)).map (underscored · name) ⊆ taken ++ reservedWords := by
    intro candidate member
    obtain ⟨fewer, less, rfl⟩ := List.mem_map.mp member
    rcases Nat.lt_succ_iff_lt_or_eq.mp (List.mem_range.mp less) with earlier | rfl
    · exact before fewer earlier
    · exact refused
  have nodup : ((List.range (count + 1)).map (underscored · name)).Nodup :=
    List.Nodup.map (underscored_injective name) List.nodup_range
  have counted := (List.subperm_of_subset nodup all).length_le
  rw [List.length_map, List.length_range] at counted
  exact free (by omega) refused

theorem fresh_not_mem (taken : List String) (name : String) : fresh taken name ∉ taken := by
  obtain ⟨count, result, free, -⟩ := fresh_eq taken name
  rw [result]
  exact fun member => free (List.mem_append_left _ member)

theorem fresh_not_reserved (taken : List String) (name : String) :
    fresh taken name ∉ reservedWords := by
  obtain ⟨count, result, free, -⟩ := fresh_eq taken name
  rw [result]
  exact fun member => free (List.mem_append_right _ member)

theorem fresh_underscored (taken : List String) (name : String) :
    ∃ count, fresh taken name = underscored count name := by
  obtain ⟨count, result, -⟩ := fresh_eq taken name
  exact ⟨count, result⟩

theorem fresh_congr {taken taken' : List String} {name : String}
    (same : ∀ count, underscored count name ∈ taken ↔ underscored count name ∈ taken') :
    fresh taken name = fresh taken' name := by
  have used (count : Nat) : underscored count name ∈ taken ++ reservedWords ↔
      underscored count name ∈ taken' ++ reservedWords := by
    rw [List.mem_append, List.mem_append, same]
  obtain ⟨count, result, free, before⟩ := fresh_eq taken name
  obtain ⟨count', result', free', before'⟩ := fresh_eq taken' name
  rcases Nat.lt_trichotomy count count' with less | rfl | less
  · exact absurd ((used count).mpr (before' count less)) free
  · rw [result, result']
  · exact absurd ((used count').mp (before count' less)) free'

/-! ## Several names -/

structure Unused (taken names : List String) : Prop where
  distinct : names.Nodup
  free : ∀ name ∈ names, name ∉ taken ∧ name ∉ reservedWords

namespace Unused

variable {taken names more : List String}

theorem nil (taken : List String) : Unused taken [] :=
  ⟨List.nodup_nil, by simp⟩

theorem fresh (taken : List String) (name : String) : Unused taken [fresh taken name] := by
  refine ⟨List.nodup_singleton _, fun other member => ?_⟩
  rw [List.mem_singleton.mp member]
  exact ⟨fresh_not_mem taken name, fresh_not_reserved taken name⟩

theorem of_subset (unused : Unused more names) (subset : taken ⊆ more) : Unused taken names where
  distinct := unused.distinct
  free := fun name member => (unused.free name member).imp_left (mt fun old => subset old)

theorem append (first : Unused taken names) (second : Unused (taken ++ names) more) :
    Unused taken (names ++ more) where
  distinct := by
    refine List.nodup_append.mpr ⟨first.distinct, second.distinct, ?_⟩
    rintro name member _ again rfl
    exact (second.free name again).1 (List.mem_append_right _ member)
  free := fun name member => by
    rcases List.mem_append.mp member with old | new
    · exact first.free name old
    · exact (second.free name new).imp_left (mt (List.mem_append_left _))

theorem perm (unused : Unused taken names) (same : names.Perm more) : Unused taken more where
  distinct := same.nodup_iff.mp unused.distinct
  free := fun name member => unused.free name (same.mem_iff.mpr member)

end Unused

/-! ## Words -/

theorem isWord_underscored {name : String} (word : Tree.IsWord name) (count : Nat) :
    Tree.IsWord (underscored count name) := by
  obtain ⟨start, tail, parts, nonempty, starts, continues⟩ := word
  refine ⟨List.replicate count '_' ++ start, tail, ?_, by simp [nonempty], ?_, continues⟩
  · rw [toList_underscored, parts, List.append_assoc]
  · intro c member
    rcases List.mem_append.mp member with member | member
    · rw [List.eq_of_mem_replicate member]
      decide
    · exact starts c member

theorem isName_of_isWord_fresh {taken : List String} {name : String}
    (word : Tree.IsWord (fresh taken name)) : Tree.IsName (fresh taken name) := by
  have reserved : Tree.Lexeme.keywords ⊆ reservedWords := by decide
  exact ⟨word, fun keyword => fresh_not_reserved taken name (reserved keyword)⟩

theorem isName_fresh {name : String} (word : Tree.IsWord name) (taken : List String) :
    Tree.IsName (fresh taken name) := by
  obtain ⟨count, result⟩ := fresh_underscored taken name
  refine isName_of_isWord_fresh ?_
  rw [result]
  exact isWord_underscored word count

end ScriptModules.Text
