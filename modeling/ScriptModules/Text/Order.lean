namespace ScriptModules.Text

/-- Inserts into a list that ascends in `key`, behind the entries with an equal key. -/
def insertBy {α κ : Type} [LT κ] [DecidableLT κ] (key : α → κ) (x : α) : List α → List α
  | [] => [x]
  | y :: ys => if key x < key y then x :: y :: ys else y :: insertBy key x ys

def sortBy {α κ : Type} [LT κ] [DecidableLT κ] (key : α → κ) (xs : List α) : List α :=
  xs.foldl (fun sorted x => insertBy key x sorted) []

def sorted (texts : List String) : List String :=
  sortBy (fun text => text) texts

end ScriptModules.Text
