import ScriptModules.Log
import ScriptModules.Text.Ledger

/-!
# The definition index

The index tells which file owns a name. The last file to provide a name owns it, and each takeover
is recorded. Files are told apart by what they are and reported by their paths; in a conversion,
where no two files have the same path, a file is its path.
-/

namespace ScriptModules

/-- Files that are reported by their paths. -/
class Located (File : Type) where
  path : File → String

instance : Located String :=
  ⟨id⟩

structure Redefinition where
  name : String
  path : String
  previous : String
deriving DecidableEq, Repr

namespace Redefinition

def notice (redefinition : Redefinition) : LogLine :=
  { level := .warning
    message := "REDEFINITION of " ++ LogLine.code redefinition.name ++ " in " ++
      LogLine.path redefinition.path ++ ", previously defined in " ++
      LogLine.path redefinition.previous }

def warning (redefinition : Redefinition) : String :=
  "REDEFINITION of " ++ redefinition.name ++ " in " ++ redefinition.path ++
    ", previously defined in " ++ redefinition.previous

end Redefinition

structure Takeover (File : Type) where
  name : String
  file : File
  previous : File
deriving DecidableEq, Repr

def Takeover.redefinition {File : Type} [Located File] (takeover : Takeover File) : Redefinition :=
  { name := takeover.name
    path := Located.path takeover.file
    previous := Located.path takeover.previous }

/-- The owner of each name, in the order in which the names were first registered, and the
takeovers. -/
structure Index (File : Type := String) where
  owners : Ledger File := []
  redefinitions : List Redefinition := []
deriving DecidableEq, Repr

namespace Index

variable {File : Type}

def owner? (index : Index File) (name : String) : Option File :=
  index.owners.get? name

def size (index : Index File) : Nat :=
  index.owners.length

variable [DecidableEq File]

def takeover? (index : Index File) (name : String) (file : File) : Option (Takeover File) :=
  match index.owner? name with
  | some previous => if previous = file then none else some { name, file, previous }
  | none => none

def register [Located File] (index : Index File) (name : String) (file : File) :
    Index File × Option Redefinition :=
  let redefinition? := (index.takeover? name file).map Takeover.redefinition
  ({ owners := index.owners.put name file
     redefinitions := index.redefinitions ++ redefinition?.toList }, redefinition?)

def namesOf (index : Index File) (file : File) : List String :=
  (index.owners.filter fun entry => entry.2 == file).map Prod.fst

def discard (index : Index File) (file : File) : Index File :=
  { index with owners := index.owners.filter fun entry => entry.2 != file }

end Index

end ScriptModules
