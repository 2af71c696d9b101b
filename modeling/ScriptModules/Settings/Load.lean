import ScriptModules.Log
import ScriptModules.Path.FileTree
import ScriptModules.Settings.Toml
import ScriptModules.Settings.Validation

namespace ScriptModules.Settings

def projectFile : String :=
  "pyproject.toml"

def toolSection : String :=
  "cjsify"

def upwards (location : Location) : List Location :=
  (List.range (location.length + 1)).map fun n => location.take (location.length - n)

def findProject? (tree : FileTree) (start : FilePath) : Option (Location × ByteArray) :=
  (upwards (tree.resolve start)).findSome? fun directory =>
    match tree.entry? (directory ++ [projectFile]) with
    | some (.file content) => some (directory, content)
    | _ => none

def sectionOf (document : Ledger Value) : Except Fault (Ledger Value) :=
  match (document.get? "tool").getD (.table []) with
  | .table tools =>
    match (Ledger.get? tools toolSection).getD (.table []) with
    | .table settings => .ok settings
    | _ => .error .settingsNotTable
  | _ => .error .toolNotTable

/-- The settings of the nearest project file and its directory. A file that breaks the rules of the
format is ignored with a warning. -/
def projectSettings (tree : FileTree) (start : FilePath) :
    Logged (Ledger Value × Option Location) := do
  match findProject? tree start with
  | none => return ([], none)
  | some (directory, content) =>
    let path := (FileTree.absolutePath (directory ++ [projectFile])).text
    match FileTree.decode? content with
    | none => throw (.undecodable path)
    | some text =>
      match Toml.parse? text with
      | none =>
        Logged.note .warning ("Ignoring unreadable " ++ LogLine.path path)
        return ([], none)
      | some document => return (← sectionOf document, some directory)

def absoluteDirectory (tree : FileTree) (directory : Location) : Value → Except Fault Value
  | .text text =>
    let path := (FileTree.absolutePath directory).join (FilePath.parse text)
    .ok (.text (FileTree.absolutePath (tree.resolve path)).text)
  | _ => .error .directoryNotText

def load (tree : FileTree) (start : FilePath) (overrides : Ledger Value) : Logged Settings := do
  let (table, directory?) ← projectSettings tree start
  let merged := overrides.foldl (fun merged entry => Ledger.put merged entry.1 entry.2) table
  match directory?, table.get? "template_dir" with
  | some directory, some value =>
    if overrides.has "template_dir" then ofTable merged
    else ofTable (merged.put "template_dir" (← absoluteDirectory tree directory value))
  | _, _ => ofTable merged

end ScriptModules.Settings
