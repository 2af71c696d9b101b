import ScriptModules.Log
import ScriptModules.Settings.Basic
import ScriptModules.Text.Alphanumeric
import ScriptModules.Text.Blank
import ScriptModules.Text.Ledger
import ScriptModules.Text.Parts

namespace ScriptModules.Settings

/-- The number that decimal digits of any script write. -/
def decimal? (digits : List Char) : Option Nat :=
  digits.foldlM (fun value c => (Text.decimalValue? c).map (value * 10 + ·)) 0

def lowered (text : String) : String :=
  String.ofList (text.toList.map Char.toLower)

/-- The value that a text stands for. Digits that are no decimal digits form no number. -/
def inferValue (text : String) : Except Fault Value :=
  let characters := text.toList
  if lowered text = "true" then .ok (.boolean true)
  else if lowered text = "false" then .ok (.boolean false)
  else if characters ≠ [] ∧ characters.all Text.isDigit then
    match decimal? characters with
    | some number => .ok (.integer number)
    | none => .error (.notANumber text)
  else .ok (.text text)

def splitItem? (item : String) : Option (String × String) :=
  match item.toList.dropWhile (· != '=') with
  | _ :: value => some (String.ofList (item.toList.takeWhile (· != '=')), String.ofList value)
  | [] => none

def ofItems (items : List String) : Logged (Ledger Value) :=
  items.foldlM (fun table item => do
    match splitItem? item with
    | some (key, value) => return table.put (Text.strip key) (← inferValue (Text.strip value))
    | none =>
      Logged.note .warning
        ("Ignoring invalid config format: '" ++ item ++ "'. Expected 'key=value'.")
      return table) []

end ScriptModules.Settings
