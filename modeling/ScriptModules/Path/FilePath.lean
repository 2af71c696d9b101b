import ScriptModules.Text.Parts

namespace ScriptModules

structure FilePath where
  anchor : String := ""
  parts : List String := []
deriving DecidableEq, Repr

namespace FilePath

/-- The anchor of a path that begins with slashes: two of them are kept, any other number is
one. -/
def anchorOf (text : String) : String :=
  match text.toList.takeWhile (· == '/') with
  | [] => ""
  | ['/', '/'] => "//"
  | _ => "/"

def keptParts (text : String) : List String :=
  (Text.splitAt '/' text).filter fun part => part != "" && part != "."

def parse (text : String) : FilePath :=
  { anchor := anchorOf text, parts := keptParts text }

def text (path : FilePath) : String :=
  if path.anchor = "" ∧ path.parts = [] then "."
  else path.anchor ++ Text.joinWith '/' path.parts

def join (base path : FilePath) : FilePath :=
  if path.anchor = "" then { base with parts := base.parts ++ path.parts } else path

def parent (path : FilePath) : FilePath :=
  { path with parts := path.parts.dropLast }

/-- The ending of a file name from its last point on; there is none if nothing is in front of the
point or behind it. -/
def suffix (name : String) : String :=
  let ending := name.toList.reverse.takeWhile (· != '.')
  let stem := (name.toList.reverse.dropWhile (· != '.')).drop 1
  if ending = [] ∨ stem = [] then "" else String.ofList ('.' :: ending.reverse)

end FilePath

end ScriptModules
