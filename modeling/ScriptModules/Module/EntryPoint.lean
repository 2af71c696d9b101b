import ScriptModules.Path.Corpus
import ScriptModules.Text.Identifier
import ScriptModules.Text.Quoted
import ScriptModules.Tree.Template

namespace ScriptModules

/-- The entry point so far: where it is, the extension that is left out of required paths, the
statements, and the aliases that are taken. -/
structure EntryPoint where
  path : String
  extension : String
  statements : List Tree.Node := []
  aliases : List String := []
deriving Repr

def quotedSpecifier (source target extension : String) : Except Fault String :=
  match Path.specifier? source target extension with
  | some specifier => .ok (Text.Quoted.quote specifier)
  | none => .error .emptyPath

namespace EntryPoint

abbrev Adding (α : Type) := ExceptT Fault (StateM EntryPoint) α

def addStatement (text : String) : Adding Unit := do
  let statement ← liftM (Tree.Template.statement text [])
  modify fun entry => { entry with statements := entry.statements ++ [statement] }

def reserveAlias (name : String) : Adding String := do
  let free := Text.fresh (← get).aliases name
  modify fun entry => { entry with aliases := entry.aliases ++ [free] }
  return free

def add (path stem : String) (names : List String) : Adding Unit := do
  let entry ← get
  match names with
  | [] => pure ()
  | [name] =>
    let specifier ← quotedSpecifier entry.path path entry.extension
    addStatement ("exports." ++ name ++ " = require(" ++ specifier ++ ")." ++ name ++ ";")
  | _ =>
    let specifier ← quotedSpecifier entry.path path entry.extension
    let bound ← reserveAlias (Text.toIdentifier stem)
    addStatement ("var " ++ bound ++ " = require(" ++ specifier ++ ");")
    names.forM fun name =>
      addStatement ("exports." ++ name ++ " = " ++ bound ++ "." ++ name ++ ";")

def program (entry : EntryPoint) : Tree.Node :=
  .program entry.statements

end EntryPoint

end ScriptModules
