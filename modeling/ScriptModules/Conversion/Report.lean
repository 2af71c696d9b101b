import ScriptModules.Conversion.Workspace

/-!
# Conversions

A conversion takes the sources of a corpus to its modules and their entry point. It goes through
phases, each of which finishes before the next one starts: reading, shader chunks, analysis,
integrity, writing of the modules, and the entry point. A file that cannot be converted is excluded
with a reason; only a source that is no program stops the conversion.
-/

namespace ScriptModules

structure ExcludedFile where
  path : String
  reason : String
deriving DecidableEq, Repr

def ExcludedFile.warning (file : ExcludedFile) : String :=
  "IGNORED " ++ file.path ++ " (" ++ file.reason ++ ")"

structure Report where
  modules : List (Module × String)
  entryPath : String
  entryCode : String
  excluded : List ExcludedFile
  warnings : List String
  graph : Option Dependency.Graph
  index : Index
  trace : Trace

namespace Report

def outputs (report : Report) : Ledger String :=
  report.modules.map fun written => (written.1.path, written.2)

/-- The texts of all files, the entry point among them; it takes the place of a module with the same
path. -/
def files (report : Report) : Ledger String :=
  report.outputs.put report.entryPath report.entryCode

end Report

namespace Conversion

def phase {α : Type} (name detail : String) (task : Work α) : Work α := do
  modify fun workspace => { workspace with trace := workspace.trace.startPhase name detail }
  let result ← task
  modify fun workspace => { workspace with trace := workspace.trace.endPhase }
  return result

def exclude (path reason : String) : Work ExcludedFile := do
  Work.note .warning ("IGNORED " ++ LogLine.path path ++ " (" ++ reason ++ ")")
  Work.record (.excluded path reason)
  return { path, reason }

def mergePhase : Work Unit := do
  let path := (← get).settings.chunkTablePath
  phase "Shader Chunks" path do
    let merged ← Work.mergeChunks
    if merged ≠ 0 then
      Work.note .info
        ("Merged " ++ toString merged ++ " shader chunks into " ++ LogLine.path path)

def analyzeFile (path : String) : Work (List ExcludedFile) := do
  match ← Work.analyze path with
  | some exclusion => return [← exclude path exclusion.reason]
  | none => return []

def analysisPhase : Work (List ExcludedFile) :=
  phase "Analysis" "Provide/Require classification" do
    let excluded ← (← get).live.mapM analyzeFile
    Work.note .info ("Definition Index holds " ++ toString (← get).index.size ++ " names")
    return excluded.flatten

def integrityPhase : Work (List ExcludedFile) :=
  phase "Integrity" "Dangling require removal" do
    let dropped ← Work.checkIntegrity
    dropped.mapM fun file => exclude file.1 ("missing " ++ file.2 ++ " definition")

def writeFile (path : String) : Work (Module × String) := do
  let written ← Work.writeModule path
  return (written, ← Work.render written.program path)

def modulePhase : Work (List (Module × String)) := do
  let live := (← get).live
  phase "Rewrite" (toString live.length ++ " units") (live.mapM writeFile)

def entryPhase (withGraph : Bool) : Work (String × Option Dependency.Graph) := do
  phase "Emit" (← get).settings.entryPath do
    let code ← Work.renderEntry
    if withGraph then return (code, some (← Work.graph))
    else return (code, none)

def convert (withGraph : Bool) : Work Report := do
  mergePhase
  let unclassified ← analysisPhase
  let redefinitions := (← get).index.redefinitions
  let dangling ← integrityPhase
  let modules ← modulePhase
  let (entryCode, graph) ← entryPhase withGraph
  let workspace ← get
  return {
    modules
    entryPath := workspace.settings.entryPath
    entryCode
    excluded := unclassified ++ dangling
    warnings := unclassified.map ExcludedFile.warning ++ redefinitions.map Redefinition.warning
      ++ dangling.map ExcludedFile.warning
    graph
    index := workspace.index
    trace := workspace.trace }

def readingTrace (count : Nat) : Trace :=
  (Trace.startPhase {} "Ingestion" (toString count ++ " input files")).endPhase

def run (settings : Settings) (sources : Ledger String) (withGraph : Bool) : Logged Report := do
  let corpus ← Corpus.ingest settings sources
  let workspace := Workspace.ofCorpus settings corpus
  onPart (fun log => { workspace with trace := readingTrace sources.length, log })
    (fun workspace _ => workspace.log) (convert withGraph)

end Conversion

end ScriptModules
