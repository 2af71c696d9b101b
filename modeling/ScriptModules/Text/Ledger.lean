namespace ScriptModules

/-- Named values in order of first appearance. -/
abbrev Ledger (α : Type) := List (String × α)

namespace Ledger

variable {α : Type}

def get? (ledger : Ledger α) (name : String) : Option α :=
  (ledger.find? fun entry => entry.1 == name).map Prod.snd

def has (ledger : Ledger α) (name : String) : Bool :=
  ledger.any fun entry => entry.1 == name

def names (ledger : Ledger α) : List String :=
  ledger.map Prod.fst

/-- Writes a value under a name, in its old place or at the end. -/
def put : Ledger α → String → α → Ledger α
  | [], name, value => [(name, value)]
  | entry :: rest, name, value =>
    if entry.1 = name then (name, value) :: rest else entry :: put rest name value

def ofList (entries : List (String × α)) : Ledger α :=
  entries.foldl (fun ledger entry => ledger.put entry.1 entry.2) []

end Ledger

end ScriptModules
