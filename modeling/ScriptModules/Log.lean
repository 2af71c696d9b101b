import ScriptModules.Fault

namespace ScriptModules

inductive Level where
  | info
  | success
  | warning
  | error
deriving DecidableEq, Repr

def Level.word : Level → String
  | info => "INFO"
  | success => "SUCCESS"
  | warning => "WARNING"
  | error => "ERROR"

structure LogLine where
  level : Level
  message : String
deriving DecidableEq, Repr

namespace LogLine

def path (path : String) : String :=
  "[path]" ++ path ++ "[/path]"

def code (name : String) : String :=
  "[code]" ++ name ++ "[/code]"

end LogLine

abbrev Logged (α : Type) := ExceptT Fault (StateM (List LogLine)) α

def Logged.note (level : Level) (message : String) : Logged Unit :=
  modify (· ++ [⟨level, message⟩])

end ScriptModules
