import ScriptModules.Corpus.Index
import ScriptModules.Corpus.Script

namespace ScriptModules.Dependency

def scriptAt? (scripts : List Script) (path : String) : Option Script :=
  scripts.find? fun script => script.path == path

def requiredNames (scripts : List Script) (path : String) : List String :=
  ((scriptAt? scripts path).map fun script => script.requires.names).getD []

/-- The owners of the names that a script requires, in the order of the names. Names without an
owner lead nowhere. -/
def successors (index : Index) (script : Script) : List String :=
  script.requires.names.filterMap index.owner?

def addRequired (required : Ledger (List String)) (path name : String) : Ledger (List String) :=
  required.put path ((required.get? path).getD [] ++ [name])

/-- The files that a script has to require, with the names that it requires from each. Every name
has to have an owner. -/
def requiredFiles (index : Index) (script : Script) : Except Fault (Ledger (List String)) :=
  script.requires.names.foldlM (fun required name =>
    match index.owner? name with
    | some path => .ok (addRequired required path name)
    | none => .error (.unprovided script.path name)) []

/-- Searches on from a stack of files that are due, in as many steps as stated. A file that was
looked at is skipped; the search ends when the target is among the owners of what a file
requires. -/
def searchFrom (index : Index) (scripts : List Script) (target : String) :
    Nat → List String → List String → Bool
  | 0, _, _ => false
  | _ + 1, _, [] => false
  | steps + 1, seen, path :: due =>
    if seen.contains path then searchFrom index scripts target steps seen due
    else
      match scriptAt? scripts path with
      | none => searchFrom index scripts target steps (path :: seen) due
      | some script =>
        let next := successors index script
        -- the target counts only where an edge leads to it, not as the file the search starts at
        if next.contains target then true
        else searchFrom index scripts target steps (path :: seen) (next.reverse ++ due)

/-- The number of steps that a search takes at most: one for the start and one for every edge. -/
def searchSteps (scripts : List Script) : Nat :=
  scripts.foldl (fun steps script => steps + script.requires.length) 2

def reaches (index : Index) (scripts : List Script) (source target : String) : Bool :=
  searchFrom index scripts target (searchSteps scripts) [] [source]

end ScriptModules.Dependency
