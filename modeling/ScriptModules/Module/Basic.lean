import ScriptModules.Tree.Node

namespace ScriptModules

open ScriptModules.Tree

/-- A file that is required: its path, the names that are used from it, its quoted path as seen from
the module, the variable of the module that it is bound to, and the function that requires it if
that is put off. -/
structure Import where
  path : String
  names : List String
  specifier : String
  binding : String
  getter : Option String
deriving DecidableEq, Repr

namespace Import

def isDeferred (required : Import) : Bool :=
  required.getter.isSome

def declaration (required : Import) : String :=
  let call := "require(" ++ required.specifier ++ ");"
  match required.getter with
  | some getter =>
    "var " ++ required.binding ++ ", " ++ getter ++ " = function () \x7b return "
      ++ required.binding ++ " = " ++ call ++ " \x7d;"
  | none => "var " ++ required.binding ++ " = " ++ call

def reference (required : Import) : String :=
  match required.getter with
  | some getter => "(" ++ required.binding ++ " || " ++ getter ++ "())"
  | none => required.binding

end Import

structure Export where
  declarations : List Node := []
  statements : List Node := []
deriving Repr

/-- The parts of a module. Each required file stands with the statement that requires it. -/
structure Module where
  path : String
  imports : List (Import × Node)
  helpers : List Node
  exports : Export
  body : List Node
deriving Repr

def Module.program (written : Module) : Node :=
  .program (written.imports.map Prod.snd ++ written.helpers ++ written.exports.declarations
    ++ written.body ++ written.exports.statements)

end ScriptModules
