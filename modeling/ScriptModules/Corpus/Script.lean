import ScriptModules.Text.Identifier
import ScriptModules.Text.Ledger
import ScriptModules.Tree.Walk

namespace ScriptModules

inductive ProvideKind where
  | function
  | object
  | array
  | literal
  | other
deriving DecidableEq, Repr

namespace ProvideKind

def word : ProvideKind → String
  | function => "function"
  | object => "object"
  | array => "array"
  | literal => "literal"
  | other => "other"

/-- The kinds whose value is bound to a variable of the module before it is exported. -/
def isHoistable : ProvideKind → Bool
  | function | object | array => true
  | literal | other => false

def ofNode (node : Tree.Node) : ProvideKind :=
  match node.form with
  | .function declared _ _ => if declared then other else function
  | .object => object
  | .array => array
  | .string _ | .number _ | .boolean _ | .nullValue | .regex _ => literal
  | _ => other

end ProvideKind

/-- A name that a script provides: the kind of its value and the positions of its accesses. -/
structure Provide where
  kind : ProvideKind
  sites : List Tree.Position := []
deriving DecidableEq, Repr

structure Script where
  path : String
  id : Nat
  tree : Tree.Node
  stem : String
  names : List String := []
  provides : Ledger Provide := []
  /-- The names that the script uses and does not provide, with the positions of the accesses. -/
  requires : Ledger (List Tree.Position) := []
  isRoot : Bool := false
  /-- Declarations that the type checks of the file need. -/
  helpers : List Tree.Node := []
deriving Repr

namespace Script

def reserve (script : Script) (name : String) : String × Script :=
  let free := Text.fresh script.names name
  (free, { script with names := script.names ++ [free] })

end Script

end ScriptModules
