import ScriptModules.Dependency.Resolution

namespace ScriptModules.Dependency

/-- The files that are still converted, the index, and the paths of the dropped files with the name
that each was dropped for. -/
structure Survey (File : Type := String) where
  live : List File
  index : Index File
  dropped : List (String × String) := []
deriving DecidableEq, Repr

namespace Survey

variable {File : Type} [DecidableEq File] [Located File]

def resolves (survey : Survey File) (name : String) : Bool :=
  (survey.index.owner? name).any fun owner =>
    survey.live.find? (fun file => Located.path file == Located.path owner) == some owner

def drop (survey : Survey File) (file : File) (name : String) : Survey File :=
  { live := survey.live.filter fun other => Located.path other != Located.path file
    index := survey.index.discard file
    dropped := survey.dropped ++ [(Located.path file, name)] }

variable (requires : File → List String)

def missing? (survey : Survey File) (file : File) : Option String :=
  (requires file).find? fun name => !survey.resolves name

def check (survey : Survey File) (file : File) : Survey File :=
  match survey.missing? requires file with
  | some name => survey.drop file name
  | none => survey

def pass (survey : Survey File) : Survey File :=
  survey.live.foldl (check requires) survey

/-- Passes until one drops no file, at most as many as stated. -/
def passes : Nat → Survey File → Survey File
  | 0, survey => survey
  | limit + 1, survey =>
    let next := survey.pass requires
    if next.live = survey.live then next else passes limit next

end Survey

/-- Drops files until every name that a live file requires is owned by a live file. Each pass but
the last drops a file, so there are at most as many as files and one more. -/
def checkIntegrity {File : Type} [DecidableEq File] [Located File] (requires : File → List String)
    (live : List File) (index : Index File) : Survey File :=
  Survey.passes requires (live.length + 1) { live, index }

end ScriptModules.Dependency
