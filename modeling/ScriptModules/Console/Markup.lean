import ScriptModules.Text.Parts
import ScriptModules.Text.Width

namespace ScriptModules.Console

def beginsTag (c : Char) : Bool :=
  c.isLower || c == '#' || c == '/' || c == '@'

/-- Whether a text behind an opening bracket goes on as a tag: up to a closing bracket in front of
which there is no other opening one. -/
def isTag : List Char → Bool
  | [] => false
  | c :: rest =>
    beginsTag c && (rest.find? fun c => c == ']' || c == '[') == some ']'

/-- Whether there is a tag behind some backslashes. -/
def leadsToTag (text : List Char) : Bool :=
  match text.dropWhile (· == '\\') with
  | '[' :: rest => isTag rest
  | _ => false

def plainChars : Bool → List Char → List Char
  | _, [] => []
  | true, c :: rest => plainChars (c != ']') rest
  | false, '\\' :: '\\' :: rest =>
    if leadsToTag rest then '\\' :: plainChars false rest
    else '\\' :: plainChars false ('\\' :: rest)
  | false, '\\' :: '[' :: rest => '[' :: plainChars false rest
  | false, c :: rest =>
    if c = '[' ∧ isTag rest then plainChars true rest else c :: plainChars false rest

def movesCursor (c : Char) : Bool :=
  c == '\x07' || c == '\x08' || c == '\x0b' || c == '\x0c' || c == '\x0d'

def expandTabs (column : Nat) : List Char → List Char
  | [] => []
  | c :: rest =>
    if c = '\t' then
      let blanks := 8 - column % 8
      List.replicate blanks ' ' ++ expandTabs (column + blanks) rest
    else c :: expandTabs (column + Text.columns c) rest

def linesOf (message : String) : List String :=
  let shown := (plainChars false message.toList).filter fun c => !movesCursor c
  (Text.splitChars '\n' shown).map fun line => String.ofList (expandTabs 0 line)

end ScriptModules.Console
