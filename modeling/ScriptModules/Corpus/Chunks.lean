import ScriptModules.Text.Ledger
import ScriptModules.Text.Quoted
import ScriptModules.Tree.Template

namespace ScriptModules.Chunks

open ScriptModules.Tree

/-- Where the table stands in a program: the value of the assignment that is the expression of the
first statement. -/
def tablePosition : Position :=
  [0, 0, 1]

def holdsTable (program : Node) : Bool :=
  match program.at? [0], program.at? [0, 0], program.at? tablePosition with
  | some statement, some value, some table =>
    statement.form == .expression && value.form matches .assign _ && table.form == .object
  | _, _, _ => false

def literalText (name text : String) : String :=
  "(\x7b" ++ Text.Quoted.quote name ++ ": " ++ Text.Quoted.quote text ++ "\x7d)"

def propertiesIn (value : Node) : List Node :=
  match value.walk.find? fun visit => visit.node.form == .object with
  | some visit => visit.node.children
  | none => []

def append (children : List Node) (table : Node) : Node :=
  .mk table.form table.comments (table.children ++ children)

def add (program : Node) (name text : String) : Except Fault Node := do
  let value ← Template.expression (literalText name text) []
  pure (program.modifyAt (append (propertiesIn value)) tablePosition)

def addAll (program : Node) (chunks : Ledger String) : Except Fault Node :=
  chunks.foldlM (fun program chunk => add program chunk.1 chunk.2) program

end ScriptModules.Chunks
