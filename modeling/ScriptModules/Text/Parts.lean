namespace ScriptModules.Text

def splitChars (separator : Char) : List Char → List (List Char)
  | [] => [[]]
  | c :: cs =>
    if c = separator then [] :: splitChars separator cs
    else
      match splitChars separator cs with
      | [] => [[c]]
      | piece :: pieces => (c :: piece) :: pieces

def joinChars (separator : Char) : List (List Char) → List Char
  | [] => []
  | [piece] => piece
  | piece :: pieces => piece ++ separator :: joinChars separator pieces

theorem splitChars_ne_nil (separator : Char) (cs : List Char) : splitChars separator cs ≠ [] := by
  cases cs with
  | nil => simp [splitChars]
  | cons c cs =>
    simp only [splitChars]
    split
    · simp
    · split <;> simp

theorem joinChars_splitChars (separator : Char) (cs : List Char) :
    joinChars separator (splitChars separator cs) = cs := by
  induction cs with
  | nil => rfl
  | cons c cs ih =>
    have nonempty := splitChars_ne_nil separator cs
    simp only [splitChars]
    split
    · rename_i same
      subst same
      cases h : splitChars c cs with
      | nil => exact absurd h nonempty
      | cons piece pieces => rw [h] at ih; simp [joinChars, ih]
    · cases h : splitChars separator cs with
      | nil => exact absurd h nonempty
      | cons piece pieces =>
        rw [h] at ih
        subst ih
        cases pieces <;> simp [joinChars]

def splitAt (separator : Char) (text : String) : List String :=
  (splitChars separator text.toList).map String.ofList

def joinWith (separator : Char) (texts : List String) : String :=
  String.ofList (joinChars separator (texts.map String.toList))

def startsWith (text start : String) : Bool :=
  start.toList.isPrefixOf text.toList

def endsWith (text ending : String) : Bool :=
  ending.toList.isSuffixOf text.toList

def dropEnd (n : Nat) (text : String) : String :=
  String.ofList (text.toList.take (text.toList.length - n))

def dropStart (n : Nat) (text : String) : String :=
  String.ofList (text.toList.drop n)

def copies (n : Nat) (text : String) : String :=
  String.join (List.replicate n text)

end ScriptModules.Text
