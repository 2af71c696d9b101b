import Mathlib.Data.List.Basic
import ScriptModules.Text.Parts

namespace ScriptModules.Text

theorem splitChars_of_free {separator : Char} {piece : List Char} (free : separator ∉ piece) :
    splitChars separator piece = [piece] := by
  induction piece with
  | nil => rfl
  | cons c cs ih =>
      obtain ⟨other, free⟩ := not_or.mp (mt List.mem_cons.mpr free)
      rw [splitChars, if_neg (Ne.symm other), ih free]

theorem splitChars_append {separator : Char} {piece : List Char} (free : separator ∉ piece)
    (rest : List Char) :
    splitChars separator (piece ++ separator :: rest) = piece :: splitChars separator rest := by
  induction piece with
  | nil => rw [List.nil_append, splitChars, if_pos rfl]
  | cons c cs ih =>
      obtain ⟨other, free⟩ := not_or.mp (mt List.mem_cons.mpr free)
      rw [List.cons_append, splitChars, if_neg (Ne.symm other), ih free]

theorem splitChars_joinChars {separator : Char} {pieces : List (List Char)}
    (nonempty : pieces ≠ []) (free : ∀ piece ∈ pieces, separator ∉ piece) :
    splitChars separator (joinChars separator pieces) = pieces := by
  induction pieces with
  | nil => exact absurd rfl nonempty
  | cons piece pieces ih =>
      obtain ⟨here, free⟩ := List.forall_mem_cons.mp free
      cases pieces with
      | nil => exact splitChars_of_free here
      | cons next pieces =>
          rw [joinChars, splitChars_append here, ih (List.cons_ne_nil _ _) free]
          exact List.cons_ne_nil _ _

theorem splitAt_joinWith {separator : Char} {pieces : List String} (nonempty : pieces ≠ [])
    (free : ∀ piece ∈ pieces, separator ∉ piece.toList) :
    splitAt separator (joinWith separator pieces) = pieces := by
  rw [splitAt, joinWith, String.toList_ofList, splitChars_joinChars]
  · rw [List.map_map]
    exact List.map_id'' (fun piece => String.ofList_toList) pieces
  · simpa using nonempty
  · simpa using free

theorem not_mem_splitChars (separator : Char) (cs : List Char) :
    ∀ piece ∈ splitChars separator cs, separator ∉ piece ∧ ∀ c ∈ piece, c ∈ cs := by
  induction cs with
  | nil => simp [splitChars]
  | cons c cs ih =>
      rw [splitChars]
      split
      · rename_i same
        refine List.forall_mem_cons.mpr ⟨by simp, fun piece member => ?_⟩
        exact ⟨(ih piece member).1, fun d met => List.mem_cons_of_mem _ ((ih piece member).2 d met)⟩
      · rename_i other
        split
        · rename_i empty
          exact absurd empty (splitChars_ne_nil separator cs)
        · rename_i first rest parts
          rw [parts] at ih
          obtain ⟨⟨free, within⟩, ih⟩ := List.forall_mem_cons.mp ih
          refine List.forall_mem_cons.mpr ⟨⟨?_, ?_⟩, fun piece member => ?_⟩
          · exact mt List.mem_cons.mp (not_or.mpr ⟨Ne.symm other, free⟩)
          · intro d member
            rcases List.mem_cons.mp member with rfl | member
            · exact List.mem_cons_self
            · exact List.mem_cons_of_mem _ (within d member)
          · exact ⟨(ih piece member).1,
              fun d met => List.mem_cons_of_mem _ ((ih piece member).2 d met)⟩

theorem joinChars_cons {separator : Char} (piece : List Char) {pieces : List (List Char)}
    (nonempty : pieces ≠ []) :
    joinChars separator (piece :: pieces) = piece ++ separator :: joinChars separator pieces := by
  cases pieces with
  | nil => exact absurd rfl nonempty
  | cons next pieces => rfl

theorem joinChars_append {separator : Char} {pieces more : List (List Char)}
    (nonempty : pieces ≠ []) (nonempty' : more ≠ []) :
    joinChars separator (pieces ++ more) =
      joinChars separator pieces ++ separator :: joinChars separator more := by
  induction pieces with
  | nil => exact absurd rfl nonempty
  | cons piece pieces ih =>
      cases pieces with
      | nil => exact joinChars_cons piece nonempty'
      | cons next pieces =>
          rw [List.cons_append, joinChars_cons piece (by simp), ih (List.cons_ne_nil _ _),
            joinChars_cons piece (List.cons_ne_nil _ _), List.append_assoc, List.cons_append]

theorem mem_joinChars {separator c : Char} {pieces : List (List Char)}
    (member : c ∈ joinChars separator pieces) : c = separator ∨ ∃ piece ∈ pieces, c ∈ piece := by
  induction pieces with
  | nil => cases member
  | cons piece pieces ih =>
      cases pieces with
      | nil => exact .inr ⟨piece, List.mem_cons_self, member⟩
      | cons next pieces =>
          rw [joinChars_cons piece (List.cons_ne_nil _ _), List.mem_append, List.mem_cons] at member
          rcases member with here | here | later
          · exact .inr ⟨piece, List.mem_cons_self, here⟩
          · exact .inl here
          · obtain same | ⟨other, found, within⟩ := ih later
            · exact .inl same
            · exact .inr ⟨other, List.mem_cons_of_mem _ found, within⟩

theorem joinWith_append {separator : Char} {pieces more : List String} (nonempty : pieces ≠ [])
    (nonempty' : more ≠ []) :
    joinWith separator (pieces ++ more) =
      joinWith separator pieces ++ String.ofList [separator] ++ joinWith separator more := by
  apply String.toList_inj.mp
  simp [joinWith, joinChars_append, nonempty, nonempty']

end ScriptModules.Text
