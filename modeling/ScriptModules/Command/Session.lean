import ScriptModules.Command.Arguments
import ScriptModules.Console.Display
import ScriptModules.Settings.Load
import ScriptModules.Settings.Overrides

/-!
# The command

The command converts the corpus in one directory into another. It works on a file tree: it reads the
settings and the sources, converts them, and only then writes. Wrong settings and sources that are
no programs end it with exit code 1 and nothing written; wrong arguments end it with exit code 2.
-/

namespace ScriptModules

/-- What the command sees and shows: the files, the log, the lines on the console behind the log,
and the lines on the standard output. -/
structure CommandState where
  files : FileTree
  log : List LogLine := []
  closing : List String := []
  output : List String := []

namespace Command

abbrev Task (α : Type) := ExceptT Fault (StateM CommandState) α

def logged {α : Type} (task : Logged α) : Task α :=
  onPart CommandState.log (fun log state => { state with log }) task

def note (level : Level) (message : String) : Task Unit :=
  logged (Logged.note level message)

def changeFiles (change : FileTree → Except Fault FileTree) : Task Unit := do
  let files ← liftM (change (← get).files)
  modify fun state => { state with files }

def spoilsSettings : Fault → Bool
  | .wrongSettings _ | .undecodable _ => true
  | _ => false

def settingsFor (input : FilePath) (overrides : Ledger Value) : Task (Option Settings) := do
  let files := (← get).files
  try
    return some (← logged (Settings.load files input overrides))
  catch fault =>
    if spoilsSettings fault then
      note .error "Invalid configuration"
      return none
    else throw fault

def abortedAt? : Fault → Option String
  | .unreadableSource path | .unprintableTree path => some path
  | _ => none

def convertDirectory (settings : Settings) (input : FilePath) (withGraph : Bool) :
    Task (Option Report) := do
  let sources ← liftM (Corpus.readSources (← get).files input settings)
  try
    return some (← logged (Conversion.run settings sources withGraph))
  catch fault =>
    match abortedAt? fault with
    | some path =>
      note .error ("Conversion aborted: " ++ path)
      return none
    | none => throw fault

def noteWritten (path : FilePath) : Task Unit :=
  note .success ("written " ++ LogLine.path path.text)

def writeText (path : FilePath) (text : String) : Task Unit := do
  changeFiles fun files => files.makeDirectories path.parent
  changeFiles fun files => files.writeFile path text.toUTF8
  noteWritten path

def copyFile (source target : FilePath) (files : FileTree) : Except Fault FileTree :=
  match files.lookUp source with
  | some (.file content) =>
    if files.locate source = files.locate target then .error (.sameFile target.text)
    else files.writeFile target content
  | _ => .error (.missingFile source.text)

def copyTemplate (settings : Settings) (output : FilePath) (name : String) : Task Unit := do
  let source := settings.templateDirectory.join (FilePath.parse name)
  let target := output.join (FilePath.parse name)
  if (← get).files.isFile source then
    changeFiles fun files => files.makeDirectories target.parent
    changeFiles (copyFile source target)
    noteWritten target
  else
    note .warning ("Template not found, skipped: " ++ LogLine.path source.text)

def close (report : Report) : Task Unit := do
  match Console.closing report.modules.length report.excluded with
  | .complete line => note line.level line.message
  | .incomplete lines => modify fun state => { state with closing := lines }

def deliver (request : Request) (settings : Settings) (report : Report) : Task Unit := do
  note .info ("Writing " ++ toString report.modules.length ++ " units to "
    ++ LogLine.path request.output.text)
  report.outputs.forM fun output =>
    writeText (request.output.join (FilePath.parse output.1)) output.2
  writeText (request.output.join (FilePath.parse report.entryPath)) report.entryCode
  settings.copiedFiles.forM (copyTemplate settings request.output)
  match request.graph, report.graph with
  | some path, some graph => writeText path graph.toJson.render
  | _, _ => pure ()
  match request.trace with
  | some path => writeText path report.trace.toJson.render
  | none => pure ()
  close report

def convert (request : Request) : Task Nat := do
  let overrides ← logged (Settings.ofItems request.settings)
  if (← get).files.isDirectory request.input then
    match ← settingsFor request.input overrides with
    | none => return 1
    | some settings =>
      match ← convertDirectory settings request.input request.graph.isSome with
      | none => return 1
      | some report =>
        deliver request settings report
        return 0
  else
    note .error ("Input directory not found: " ++ LogLine.path request.input.text)
    return 1

def templatesOf (files : FileTree) (request : Request) : List FilePath :=
  let paths : Logged (List FilePath) := do
    let overrides ← Settings.ofItems request.settings
    let settings ← Settings.load files request.input overrides
    return settings.copiedFiles.map fun name => settings.templateDirectory.join (.parse name)
  match paths.run.run [] with
  | (.ok paths, _) => paths
  | (.error _, _) => []

def versionText : String :=
  "cjsify 0.1.0"

def usageText : String :=
  "usage: cjsify [-h] [--version] --input INPUT --output OUTPUT [--graph GRAPH] " ++
    "[--json-trace JSON_TRACE] [--config [CONFIG ...]]"

def answer (text : String) : Task Nat := do
  modify fun state => { state with output := [text] }
  return 0

def run (arguments : List String) : Task Nat := do
  match Arguments.read arguments with
  | .convert request => convert request
  | .version => answer versionText
  | .help => answer usageText
  | .misused => return 2

end Command

end ScriptModules
