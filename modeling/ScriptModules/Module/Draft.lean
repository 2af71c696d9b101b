import ScriptModules.Analysis.Access
import ScriptModules.Dependency.Resolution
import ScriptModules.Module.Basic
import ScriptModules.Module.EntryPoint

/-!
# Drafts

An analysed script becomes a module. Every file that it requires from is required once, at the top;
if that would close a cycle, the file is required at the first use. Names that the script provides
are bound to variables of the module, or written to the exports directly where the value may be
anything. Functions get a marker that type checks look at. The file that creates the global object
keeps its body.
-/

namespace ScriptModules

open ScriptModules.Tree

structure Draft where
  script : Script
  events : List Event := []

structure Surroundings where
  settings : Settings
  index : Index
  scripts : List Script
  live : List String

namespace Draft

/-- A task on a draft; a fault leaves the draft as it was at that point. -/
abbrev Drafting (α : Type) := ExceptT Fault (StateM Draft) α

def reserve (name : String) : Drafting String := do
  let (free, script) := (← get).script.reserve name
  modify fun draft => { draft with script }
  return free

def statement (text : String) : Drafting Node :=
  liftM (Template.statement text [])

def changeTree (change : Node → Except Fault Node) : Drafting Unit := do
  let script := (← get).script
  let tree ← liftM (change script.tree)
  modify fun draft => { draft with script := { script with tree } }

def replaceAccess (site : Position) (new tree : Node) : Except Fault Node :=
  match tree.at? site, tree.at? site.dropLast with
  | some old, some parent =>
    if old.form = .member then .ok (tree.modifyAt new.inPlaceOf site)
    else .error (.notAChild Form.member.typeName parent.form.typeName)
  | _, _ => .error (.notAChild Form.member.typeName tree.form.typeName)

/-- Puts the expression of a text in place of the base of each access. -/
def replaceBases (sites : List Position) (text : String) : Drafting Unit := do
  let base ← liftM (Template.expression text [])
  changeTree fun tree => .ok (sites.foldl (fun tree site => Access.setBase tree site base) tree)

def converted (around : Surroundings) (path : String) : Except Fault Script :=
  match Dependency.scriptAt? around.scripts path with
  | some script => if around.live.contains path then .ok script else .error (.missingFile path)
  | none => .error (.missingFile path)

def nameImport (around : Surroundings) (path : String) (names : List String) : Drafting Import := do
  let source := (← get).script.path
  let required ← liftM (converted around path)
  let specifier ← liftM (quotedSpecifier source path around.settings.codeExtension)
  let stem := Text.toIdentifier required.stem
  let binding ← reserve (if required.isRoot then around.settings.rootAlias else stem ++ "Module")
  if Dependency.reaches around.index around.scripts path source then
    -- the file requires this one in turn, so it is not finished while this one is being loaded
    let getter ← reserve ("get" ++ stem ++ "Module")
    return { path, names, specifier, binding, getter := some getter }
  else return { path, names, specifier, binding, getter := none }

def sitesOf (script : Script) (name : String) : List Position :=
  (script.requires.get? name).getD []

def require (around : Surroundings) (path : String) (names : List String) :
    Drafting (Import × Node) := do
  let required ← nameImport around path names
  let declaration ← statement required.declaration
  let script := (← get).script
  names.forM fun name => replaceBases (sitesOf script name) required.reference
  let event := Event.imported script.path path names required.isDeferred
  modify fun draft => { draft with events := draft.events ++ [event] }
  return (required, declaration)

def requireAll (around : Surroundings) : Drafting (List (Import × Node)) := do
  let required ← liftM (Dependency.requiredFiles around.index (← get).script)
  required.mapM fun entry => require around entry.1 entry.2

def markerText (target name : String) : String :=
  target ++ ".prototype.is" ++ name ++ " = true;"

def exported (name : String) : String :=
  "exports." ++ name

/-- The statements that mark a provided name, given the expression for it; a value of any kind is
marked if it turns out to be a function. -/
def markers (kind : ProvideKind) (target name : String) : Drafting (List Node) := do
  match kind with
  | .function => return [← statement (markerText target name)]
  | .other =>
    return [← statement
      ("if (typeof " ++ target ++ " === 'function') " ++ markerText target name)]
  | _ => return []

def provideVariable (name : String) (provide : Provide) : Drafting Export := do
  let bound ← reserve name
  let declaration ← statement ("var " ++ bound ++ ";")
  let reference ← liftM (Template.reference bound)
  -- the variable takes the place of the whole access, not only of its base
  provide.sites.forM fun site => changeTree (replaceAccess site reference)
  let marks ← markers provide.kind bound name
  let assignment ← statement (exported name ++ " = " ++ bound ++ ";")
  return { declarations := [declaration], statements := marks ++ [assignment] }

def provideDirectly (name : String) (provide : Provide) : Drafting Export := do
  replaceBases provide.sites "exports"
  return { statements := ← markers provide.kind (exported name) name }

def provide (name : String) (provide : Provide) : Drafting Export :=
  if provide.kind.isHoistable then provideVariable name provide
  else provideDirectly name provide

def provideAll : Drafting Export := do
  let script := (← get).script
  if script.isRoot then return {}
  else
    let exports ← script.provides.mapM fun entry => provide entry.1 entry.2
    return { declarations := exports.flatMap Export.declarations
             statements := exports.flatMap Export.statements }

def write (around : Surroundings) : Drafting Module := do
  let imports ← requireAll around
  let exports ← provideAll
  let script := (← get).script
  return { path := script.path, imports, helpers := script.helpers, exports
           body := script.tree.children }

end Draft

end ScriptModules
