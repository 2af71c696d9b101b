import ScriptModules.Corpus.Chunks
import ScriptModules.Corpus.Ingest
import ScriptModules.Dependency.Graph
import ScriptModules.Dependency.Integrity
import ScriptModules.Module.Draft

namespace ScriptModules

structure Workspace where
  settings : Settings
  scripts : List Script := []
  /-- The paths of the scripts that are converted. -/
  live : List String := []
  chunks : Ledger String := []
  index : Index := {}
  entry : EntryPoint
  trace : Trace := {}
  log : List LogLine := []

abbrev Work (α : Type) := ExceptT Fault (StateM Workspace) α

/-- Runs a task on a part of a state. A fault leaves the part as the task left it. -/
def onPart {σ τ α : Type} (read : σ → τ) (write : τ → σ → σ)
    (task : ExceptT Fault (StateM τ) α) : ExceptT Fault (StateM σ) α := do
  let (result, part) := task.run.run (read (← get))
  modify (write part)
  liftM result

namespace Workspace

def ofCorpus (settings : Settings) (corpus : Corpus) : Workspace :=
  { settings
    scripts := corpus.scripts
    live := corpus.scripts.map Script.path
    chunks := corpus.chunks
    entry := { path := settings.entryPath, extension := settings.codeExtension } }

def liveScripts (workspace : Workspace) : List Script :=
  workspace.scripts.filter fun script => workspace.live.contains script.path

def putScript (workspace : Workspace) (script : Script) : Workspace :=
  { workspace with
    scripts := workspace.scripts.map fun old => if old.path = script.path then script else old }

def drop (workspace : Workspace) (path : String) : Workspace :=
  { workspace with live := workspace.live.filter (· != path) }

def surroundings (workspace : Workspace) : Surroundings :=
  { settings := workspace.settings
    index := workspace.index
    scripts := workspace.scripts
    live := workspace.live }

end Workspace

namespace Work

def logged {α : Type} (task : Logged α) : Work α :=
  onPart Workspace.log (fun log workspace => { workspace with log }) task

def note (level : Level) (message : String) : Work Unit :=
  logged (Logged.note level message)

def record (event : Event) : Work Unit :=
  modify fun workspace => { workspace with trace := workspace.trace.record event }

def scriptAt (path : String) : Work Script := do
  match Dependency.scriptAt? (← get).scripts path with
  | some script => return script
  | none => throw (.missingFile path)

def noTableText (path : String) : String :=
  LogLine.path path ++
    " does not start with an object literal assignment, shader chunks skipped"

def mergeChunks : Work Nat := do
  let workspace ← get
  let path := workspace.settings.chunkTablePath
  match workspace.liveScripts.find? fun script => script.path == path with
  | none => return 0
  | some script =>
    if workspace.chunks.isEmpty then return 0
    else if Chunks.holdsTable script.tree then
      let tree ← liftM (Chunks.addAll script.tree workspace.chunks)
      modify fun workspace => workspace.putScript { script with tree }
      return workspace.chunks.length
    else
      note .warning (noTableText path)
      return 0

def replaceChecks (path : String) : Work Nat := do
  let settings := (← get).settings
  let (script, events) ← liftM (TypeCheck.replace settings (← scriptAt path))
  modify fun workspace => workspace.putScript script
  events.forM record
  return events.length

def register (path name : String) : Work Unit := do
  let (index, redefinition?) := (← get).index.register name path
  modify fun workspace => { workspace with index }
  match redefinition? with
  | none => return ()
  | some redefinition =>
    note redefinition.notice.level redefinition.notice.message
    record (.redefined redefinition.name redefinition.path redefinition.previous)

def analyze (path : String) : Work (Option Exclusion) := do
  let _ ← replaceChecks path
  let settings := (← get).settings
  let (script, exclusion?) ← liftM (Access.classify settings (← scriptAt path))
  modify fun workspace => workspace.putScript script
  match exclusion? with
  | some exclusion =>
    modify fun workspace => workspace.drop path
    return some exclusion
  | none =>
    script.provides.names.forM (register path)
    return none

def checkIntegrity : Work (List (String × String)) := do
  let workspace ← get
  let survey := Dependency.checkIntegrity (Dependency.requiredNames workspace.scripts)
    workspace.live workspace.index
  set { workspace with live := survey.live, index := survey.index }
  return survey.dropped

def discard (path : String) : Work (List String) := do
  let index := (← get).index
  modify fun workspace => { workspace with index := index.discard path }
  return index.namesOf path

def reserve (path name : String) : Work String := do
  let (free, script) := (← scriptAt path).reserve name
  modify fun workspace => workspace.putScript script
  return free

def onDraft {α : Type} (path : String) (task : Draft.Drafting α) : Work α := do
  let (result, draft) := task.run.run { script := ← scriptAt path }
  modify fun workspace => workspace.putScript draft.script
  draft.events.forM record
  liftM result

def writeModule (path : String) : Work Module := do
  let written ← onDraft path (Draft.write (← get).surroundings)
  let script ← scriptAt path
  onPart Workspace.entry (fun entry workspace => { workspace with entry })
    (EntryPoint.add path script.stem script.provides.names)
  return written

def render (program : Tree.Node) (path : String) : Work String := do
  logged (Tree.writeSource (some program) path (← get).settings.indent)

def renderEntry : Work String := do
  let entry := (← get).entry
  render entry.program entry.path

def graph : Work Dependency.Graph := do
  let workspace ← get
  liftM (Dependency.Graph.build workspace.index workspace.liveScripts)

end Work

end ScriptModules
