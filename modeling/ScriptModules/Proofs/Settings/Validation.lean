import ScriptModules.Proofs.Result
import ScriptModules.Proofs.Tree.Declaration
import ScriptModules.Settings.Validation

namespace ScriptModules.Settings

def Accepted (settings : Settings) : Prop :=
  ∃ table, ofTable table = .ok settings

theorem accepted_standard : Accepted {} :=
  ⟨[], rfl⟩

variable {settings : Settings}

theorem valueOr_given {α : Type} (Holds : α → Prop) {table : Ledger Value} {setting : String}
    {check : String → Value → Checked α} {default : α}
    (checked : ∀ value result, check setting value = .ok result → Holds result)
    (standard : Holds default) : Holds (valueOr default (given table setting check default)) := by
  unfold given
  split
  · rename_i value found
    cases result : check setting value with
    | ok result' => exact checked value result' result
    | error problems => exact standard
  · exact standard

theorem checkIdentifier_lettered {setting : String} {value : Value} {name : String}
    (checked : checkIdentifier setting value = .ok name) :
    ∃ c cs, name.toList = c :: cs ∧ c.isDigit = false ∧ ∀ d ∈ name.toList, Tree.IsLettered d := by
  obtain ⟨text, -, checked⟩ := bind_eq_ok_iff.mp checked
  dsimp only at checked
  split at checked
  · rename_i first rest parts
    split at checked
    · rename_i fits
      cases checked
      rw [Bool.and_eq_true, List.all_eq_true, Bool.not_eq_true'] at fits
      refine ⟨first, rest, parts, ?_, fun d member => ?_⟩
      · rw [Bool.eq_false_iff]
        intro digit
        have digit' : Text.isDigit first = true := by
          rw [Text.isDigit, if_pos (Tree.toNat_lt_of_isDigit digit)]
          exact digit
        rw [digit'] at fits
        cases fits.1
      · simpa [Tree.IsLettered, or_assoc] using fits.2 d (parts ▸ member)
    · cases checked
  · cases checked

theorem checkExtension_pointed {setting : String} {value : Value} {extension : String}
    (checked : checkExtension setting value = .ok extension) :
    Text.startsWith extension "." = true := by
  obtain ⟨text, -, checked⟩ := bind_eq_ok_iff.mp checked
  cases checked
  split
  · assumption
  · simp [Text.startsWith]

namespace Accepted

theorem rootAlias (accepted : Accepted settings) :
    ∃ c cs, settings.rootAlias.toList = c :: cs ∧ c.isDigit = false ∧
      ∀ d ∈ settings.rootAlias.toList, Tree.IsLettered d := by
  obtain ⟨table, given⟩ := accepted
  unfold ofTable at given
  dsimp only at given
  split at given
  · cases given
    refine valueOr_given (fun name : String => ∃ c cs, name.toList = c :: cs ∧ c.isDigit = false ∧
      ∀ d ∈ name.toList, Tree.IsLettered d) (fun _ _ => checkIdentifier_lettered) ?_
    exact ⟨'T', _, rfl, rfl, by decide⟩
  · cases given

theorem codeExtension (accepted : Accepted settings) :
    Text.startsWith settings.codeExtension "." = true := by
  obtain ⟨table, given⟩ := accepted
  unfold ofTable at given
  dsimp only at given
  split at given
  · cases given
    exact valueOr_given (fun extension => Text.startsWith extension "." = true)
      (fun _ _ => checkExtension_pointed) (by decide)
  · cases given

end Accepted

end ScriptModules.Settings
