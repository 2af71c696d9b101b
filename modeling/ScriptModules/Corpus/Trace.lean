import ScriptModules.Text.Json

namespace ScriptModules

inductive Event where
  | phaseStart (name detail : String)
  | phaseEnd
  | excluded (path reason : String)
  | redefined (name path previous : String)
  | imported (path required : String) (names : List String) (deferred : Bool)
  | typeChecked (path type : String) (native : Bool)
deriving DecidableEq, Repr

namespace Event

def kind : Event → String
  | phaseStart .. => "phase_start"
  | phaseEnd => "phase_end"
  | excluded .. => "file_excluded"
  | redefined .. => "redefinition"
  | imported .. => "import_action"
  | typeChecked .. => "type_check_rewrite"

def description : Event → String
  | phaseStart name _ => name
  | phaseEnd => "End Phase"
  | excluded path _ => "Excluded " ++ path
  | redefined name _ _ => "Redefined " ++ name
  | imported path required _ _ => path ++ " -> " ++ required
  | typeChecked _ type _ => "instanceof " ++ type

open Text in
def metadata : Event → Json
  | phaseStart _ detail => .object [("detail", .string detail)]
  | phaseEnd => .object []
  | excluded path reason => .object [("path", .string path), ("reason", .string reason)]
  | redefined name path previous =>
    .object [("name", .string name), ("path", .string path), ("previous_path", .string previous)]
  | imported path required names deferred =>
    .object [("path", .string path), ("required_path", .string required),
      ("names", .array (names.map .string)), ("deferred", .bool deferred)]
  | typeChecked path type native =>
    .object [("path", .string path), ("type", .string type), ("native", .bool native)]

end Event

/-- An event and the phase that it belongs to, given by the index of the event that starts the
phase. -/
structure TraceEntry where
  event : Event
  parent : Option Nat
deriving DecidableEq, Repr

/-- The events so far and the phases that are open, innermost first, by the indices of the events
that start them. -/
structure Trace where
  entries : List TraceEntry := []
  phases : List Nat := []
deriving DecidableEq, Repr

namespace Trace

def record (trace : Trace) (event : Event) : Trace :=
  { trace with entries := trace.entries ++ [{ event, parent := trace.phases.head? }] }

def startPhase (trace : Trace) (name detail : String) : Trace :=
  let phase := trace.entries.length
  { trace.record (.phaseStart name detail) with phases := phase :: trace.phases }

/-- Closes the innermost open phase. Nothing happens if none is open. -/
def endPhase (trace : Trace) : Trace :=
  match trace.phases with
  | [] => trace
  | phase :: phases =>
    { entries := trace.entries ++ [{ event := .phaseEnd, parent := some phase }], phases }

def eventsOf (trace : Trace) (kind : String) : List TraceEntry :=
  trace.entries.filter fun entry => entry.event.kind == kind

end Trace

open Text in
def TraceEntry.toJson (entry : TraceEntry) : Json :=
  .object [("type", .string entry.event.kind), ("description", .string entry.event.description),
    ("parent", (entry.parent.map .natural).getD .null), ("metadata", entry.event.metadata)]

def Trace.toJson (trace : Trace) : Text.Json :=
  .array (trace.entries.map TraceEntry.toJson)

end ScriptModules
