namespace ScriptModules

inductive Cause where
  | notText
  | notList
  | notPath
  | notIdentifier (value : String)
  | outsideCorpus (path : String)
  | unknown
deriving DecidableEq, Repr

structure Problem where
  setting : String
  item : Option Nat := none
  cause : Cause
deriving DecidableEq, Repr

inductive Fault where
  | unreadableSource (path : String)
  | unprintableTree (path : String)
  | wrongSettings (problems : List Problem)
  | malformedTemplate
  | emptyTemplate
  | noExpression
  | wrongHoles (expected given : Nat)
  /-- A node was to be replaced in a node that it is no child of; the names of the two forms. -/
  | notAChild (node parent : String)
  | outsideCorpus (path : String)
  | emptyPath
  | notANumber (digits : String)
  | unprovided (path name : String)
  | missingFile (path : String)
  | undecodable (path : String)
  | toolNotTable
  | settingsNotTable
  | directoryNotText
  | fileInTheWay (path : String)
  | notADirectory (path : String)
  | isADirectory (path : String)
  | sameFile (path : String)
  | noDirectory (path : String)
deriving DecidableEq, Repr

def outsideCorpusText (path : String) : String :=
  "Path must be relative to the input root: '" ++ path ++ "'"

namespace Cause

def kind : Cause → String
  | notText => "string_type"
  | notList => "list_type"
  | notPath => "path_type"
  | notIdentifier _ | outsideCorpus _ => "value_error"
  | unknown => "extra_forbidden"

def message : Cause → String
  | notText => "Input should be a valid string"
  | notList => "Input should be a valid list"
  | notPath => "Input is not a valid path for <class 'pathlib.Path'>"
  | notIdentifier value => "Value error, Not a valid identifier: '" ++ value ++ "'"
  | outsideCorpus path => "Value error, " ++ outsideCorpusText path
  | unknown => "Extra inputs are not permitted"

end Cause

namespace Fault

def message? : Fault → Option String
  | wrongHoles expected given =>
    some ("Template expects " ++ toString expected ++ " substitutions, got " ++ toString given)
  | notAChild node parent => some (node ++ " is not a child of " ++ parent)
  | outsideCorpus path => some (outsideCorpusText path)
  | emptyPath => some "no path specified"
  | notANumber digits => some ("invalid literal for int() with base 10: '" ++ digits ++ "'")
  | unprovided path name =>
    some (path ++ " requires '" ++ name ++ "' which no file provides")
  | _ => none

end Fault

end ScriptModules
