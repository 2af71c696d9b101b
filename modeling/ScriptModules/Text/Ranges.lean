namespace ScriptModules.Text

def runOf (runs : List (Nat × Nat)) (c : Char) : Option (Nat × Nat) :=
  runs.find? fun run => run.1 ≤ c.toNat && c.toNat ≤ run.2

def inRuns (runs : List (Nat × Nat)) (c : Char) : Bool :=
  (runOf runs c).isSome

end ScriptModules.Text
