import ScriptModules.Text.Alphanumeric
import ScriptModules.Text.Parts

/-!
# Layout

A program is written as texts with marks between them, and a mark becomes blanks, line breaks,
indentation, braces and semicolons depending on the texts around it. The marks between two texts are
settled together: first neighbours that cancel out are dropped, then each mark is written.
-/

namespace ScriptModules.Tree

inductive Mark where
  | space
  | optionalSpace
  /-- A space in the head of a loop or a condition: in front of any text but a closing
  parenthesis. -/
  | headSpace
  | newline
  | optionalNewline
  | indent
  | dedent
  | openBrace
  | closeBrace
  | semicolon
  | nothing
deriving DecidableEq, Repr

inductive Piece where
  | text (value : String)
  | mark (value : Mark)
deriving DecidableEq, Repr

namespace Layout

/-- Adds a mark to a run, given from last to first. A semicolon swallows a space in front of it,
and an indented line without text disappears. -/
def push : List Mark → Mark → List Mark
  | .space :: marks, .semicolon => .semicolon :: marks
  | .optionalSpace :: marks, .semicolon => .semicolon :: marks
  | .headSpace :: marks, .semicolon => .semicolon :: marks
  | .newline :: .indent :: marks, .dedent => .nothing :: marks
  | marks, mark => mark :: marks

def lastChar (text : Option String) : Option Char :=
  text.bind fun text => text.toList.getLast?

def firstChar (text : Option String) : Option Char :=
  text.bind fun text => text.toList.head?

def breaks (c : Option Char) : Bool :=
  c == some '\n' || c == some '\x0d'

/-- Whether two neighbouring characters would read as one token. -/
def runTogether (left right : Char) : Bool :=
  Text.isWordCharacter left && (Text.isWordCharacter right || right == '$')
    || left == '$' && Text.isWordCharacter right
    || left == '+' && right == '+' || left == '-' && right == '-'

def assignments : List String :=
  ["=", "*=", "/=", "%=", "+=", "-=", "<<=", ">>=", ">>>=", "&=", "^=", "|="]

def needsSpace : Option String → Option String → Bool
  | some before, some after =>
    assignments.contains after ||
      match lastChar (some before), firstChar (some after) with
      | some left, some right => runTogether left right
      | _, _ => false
  | _, _ => false

/-- The state of writing a run of marks: what is written, the last text of it, and the level of
indentation. -/
structure Run where
  written : List String := []
  last : Option String := none
  level : Nat

namespace Run

def write (run : Run) (text : String) : Run :=
  { run with written := run.written ++ [text], last := some text }

def writeIndent (unit : String) (run : Run) : Run :=
  if run.level = 0 ∨ unit = "" then run else run.write (Text.copies run.level unit)

def settle (unit : String) (before after : Option String) (run : Run) : Mark → Run
  | .space => run.write " "
  | .optionalSpace => if needsSpace before after then run.write " " else run
  | .headSpace =>
    if after.any (· != ")") || needsSpace before after then run.write " " else run
  | .newline => (run.write "\n").writeIndent unit
  | .optionalNewline =>
    if breaks (lastChar before) then run
    else
      let broken := breaks (lastChar run.last) || breaks (firstChar after)
      (if broken then run else run.write "\n").writeIndent unit
  | .indent => { run with level := run.level + 1 }
  | .dedent => { run with level := run.level - 1 }
  | .openBrace => run.write "\x7b"
  | .closeBrace => run.write "\x7d"
  | .semicolon => run.write ";"
  | .nothing => run

end Run

/-- The texts that a run of marks stands for, the run being given from last to first, and the level
behind it. -/
def settle (unit : String) (before after : Option String) (level : Nat) (marks : List Mark) :
    List String × Nat :=
  let run := marks.reverse.foldl (Run.settle unit before after) { level }
  (run.written, run.level)

def texts (unit : String) : Option String → Nat → List Mark → List Piece → List String
  | before, level, marks, [] => (settle unit before none level marks).1
  | before, level, marks, .mark mark :: pieces => texts unit before level (push marks mark) pieces
  | before, level, marks, .text text :: pieces =>
    let (written, level) := settle unit before (some text) level marks
    written ++ text :: texts unit (some text) level [] pieces

def unitOf (indent : String) : String :=
  if indent = "" then "  " else indent

def render (indent : String) (pieces : List Piece) : String :=
  String.join (texts (unitOf indent) none 0 [] pieces)

end Layout

end ScriptModules.Tree
