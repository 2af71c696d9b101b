import ScriptModules.Corpus.Script
import ScriptModules.Corpus.Trace
import ScriptModules.Settings.Basic
import ScriptModules.Text.Quoted
import ScriptModules.Tree.Template

/-!
# Type checks

A check `value instanceof N.T` against a type of the global object `N` becomes a look at the marker
`isT` of the value, and a check against a built-in type becomes a comparison of tags. Neither needs
the type itself, so the module that holds the check need not require the module of the type. The
checks of a file share two helper variables, which are declared only where they are used.
-/

namespace ScriptModules.TypeCheck

open ScriptModules.Tree

structure Check where
  type : String
  native : Bool
deriving DecidableEq, Repr

def ofRight? (settings : Settings) (right : Node) : Option Check :=
  match right.form, right.children with
  | .member, [base, name] =>
    if base.form.name? = some settings.globalName then
      name.form.name?.map fun type => { type, native := false }
    else none
  | .identifier type, _ | .propertyName type, _ =>
    if settings.nativeTypes.contains type then some { type, native := true } else none
  | _, _ => none

def ofNode? (settings : Settings) (node : Node) : Option Check :=
  match node.form, node.children with
  | .binary "instanceof", [_, right] => ofRight? settings right
  | _, _ => none

def template (check : Check) (helper : String) : String :=
  if check.native then
    "(" ++ helper ++ ".call($).slice(8, -1) === " ++ Text.Quoted.quote check.type ++ ")"
  else "(!!(" ++ helper ++ " = $) && !!" ++ helper ++ ".is" ++ check.type ++ ")"

def replacement (check : Check) (helper : String) (node : Node) : Except Fault Node := do
  let left := node.dropLeadingComments.children.take 1
  let value ← Template.expression (template check helper) left
  pure (value.withComments node.leadingComments)

structure Pass where
  script : Script
  instanceName : Option String := none
  /-- The variable that holds the function that gives the tag of a value. -/
  tagName : Option String := none
  events : List Event := []

def Pass.helper (pass : Pass) (native : Bool) : String × Pass :=
  if native then
    match pass.tagName with
    | some name => (name, pass)
    | none =>
      let (name, script) := pass.script.reserve "toString"
      (name, { pass with script, tagName := some name })
  else
    match pass.instanceName with
    | some name => (name, pass)
    | none =>
      let (name, script) := pass.script.reserve "instance"
      (name, { pass with script, instanceName := some name })

/-- The node that was met on a visit, as it stands in a tree now. There is none if its place is
gone or has been taken by a node of another form. -/
def current? (tree : Node) (met : Visit) : Option Node :=
  (tree.at? met.position).filter fun node => node.form == met.node.form

/-- Replaces a node that was met on a visit in its parent, which it may have left since. -/
def exchange (tree : Node) (met : Visit) (new : Node) : Except Fault Node :=
  match current? tree met, tree.replaceChild? met.above met.position new with
  | some _, some tree => .ok tree
  | _, _ => .error (.notAChild met.node.form.typeName met.parent.form.typeName)

def Pass.replaceAt (settings : Settings) (pass : Pass) (met : Visit) : Except Fault Pass :=
  -- a node that is gone still tells what it checks, and then fails to be replaced
  let node := (current? pass.script.tree met).getD met.node
  match ofNode? settings node with
  | none => .ok pass
  | some check => do
    let (helper, pass) := pass.helper check.native
    let value ← replacement check helper node
    let script := { pass.script with tree := ← exchange pass.script.tree met value }
    let event := Event.typeChecked script.path check.type check.native
    pure { pass with script, events := pass.events ++ [event] }

def candidates (tree : Node) : List Visit :=
  tree.walk.filter fun visit => visit.node.form == .binary "instanceof"

def Pass.declarations (pass : Pass) : Except Fault (List Node) := do
  let tag ← pass.tagName.toList.mapM fun name =>
    Template.statement ("var " ++ name ++ " = Object.prototype.toString;") []
  let inst ← pass.instanceName.toList.mapM fun name =>
    Template.statement ("var " ++ name ++ ";") []
  pure (tag ++ inst)

/-- Replaces the checks of a script, the inner ones first, so that a check that stands inside
another is moved after it was replaced. Also returned is one event for each replaced check. -/
def replace (settings : Settings) (script : Script) : Except Fault (Script × List Event) := do
  let pass ← (candidates script.tree).reverse.foldlM (Pass.replaceAt settings) { script }
  let helpers ← pass.declarations
  pure ({ pass.script with helpers := pass.script.helpers ++ helpers }, pass.events)

end ScriptModules.TypeCheck
