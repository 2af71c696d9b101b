import ScriptModules.Dependency.Resolution
import ScriptModules.Path.Corpus
import ScriptModules.Text.Json

namespace ScriptModules.Dependency

structure GraphNode where
  id : Nat
  label : String
  group : String
  value : Nat
deriving DecidableEq, Repr

structure GraphEdge where
  source : Nat
  target : Nat
deriving DecidableEq, Repr

structure Graph where
  nodes : List GraphNode := []
  edges : List GraphEdge := []
deriving DecidableEq, Repr

namespace Graph

def edgeTo (files : List Script) (script : Script) (path : String) : Except Fault GraphEdge :=
  match scriptAt? files path with
  | some target => .ok { source := script.id, target := target.id }
  | none => .error (.missingFile path)

def edgesFrom (index : Index) (files : List Script) (script : Script) :
    Except Fault (List GraphEdge) := do
  (← requiredFiles index script).names.mapM (edgeTo files script)

def nodeOf (edges : List GraphEdge) (script : Script) : GraphNode :=
  { id := script.id
    label := script.stem
    group := Path.group script.path
    value := (edges.filter fun edge => edge.target == script.id).length }

def build (index : Index) (files : List Script) : Except Fault Graph := do
  let edges := (← files.mapM (edgesFrom index files)).flatten
  pure { nodes := files.map (nodeOf edges), edges }

open Text in
def toJson (graph : Graph) : Json :=
  .object [
    ("nodes", .array (graph.nodes.map fun node =>
      .object [("id", .natural node.id), ("label", .string node.label),
        ("group", .string node.group), ("value", .natural node.value)])),
    ("edges", .array (graph.edges.map fun edge =>
      .object [("from", .natural edge.source), ("to", .natural edge.target)]))]

end Graph

end ScriptModules.Dependency
