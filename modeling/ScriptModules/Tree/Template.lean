import ScriptModules.Fault
import ScriptModules.Tree.Parser
import ScriptModules.Tree.Walk

/-!
# Templates

New code is written as the text of a statement in which `$` stands for nodes to be put in.
`Template.statement` reads the text and fills the places in document order; a `$` inside a node that
is put in is left alone.
-/

namespace ScriptModules.Tree.Template

def placeholder : String :=
  "$"

def places (statement : Node) : List Position :=
  (statement.walk.filter fun visit => visit.node.form.name? == some placeholder).map
    Visit.position

def putAt (statement : Node) (holes : List (Position × Node)) : Node :=
  holes.foldl (fun tree hole => tree.modifyAt hole.2.inPlaceOf hole.1) statement

def fill (statement : Node) (holes : List Node) : Except Fault Node :=
  let places := places statement
  if places.length = holes.length then .ok (putAt statement (places.zip holes))
  else .error (.wrongHoles places.length holes.length)

/-- The first statement of a text, with nodes in its places. Without nodes the places stay. -/
def statement (text : String) (holes : List Node) : Except Fault Node :=
  match Node.parse? text with
  | none => .error .malformedTemplate
  | some program =>
    match program.bare.children with
    | [] => .error .emptyTemplate
    | first :: _ => if holes.isEmpty then .ok first else fill first holes

/-- The expression that a statement consists of or starts with; `return` may be without one. -/
def valueOf (statement : Node) : Except Fault (Option Node) :=
  match statement.form with
  | .expression | .returnWith | .throwValue | .withScope | .switchOn =>
    .ok statement.children.head?
  | _ => .error .noExpression

def expression? (text : String) (holes : List Node) : Except Fault (Option Node) := do
  valueOf (← statement (text ++ ";") holes)

def expression (text : String) (holes : List Node) : Except Fault Node := do
  match ← expression? text holes with
  | some value => pure value
  | none => throw .noExpression

def reference (name : String) : Except Fault Node :=
  expression name []

end ScriptModules.Tree.Template
