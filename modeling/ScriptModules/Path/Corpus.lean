import ScriptModules.Text.Parts

/-!
# Corpus paths

A file of a corpus is named by its path from the corpus root, in the form `./dir/file.js`. Paths
are worked on as lists of components: `collapse` resolves `.` and `..`, `normalize` gives the form
above, and `relative` leads from one directory to a file.
-/

namespace ScriptModules.Path

/-- Adds a component to the components walked so far, the last of them first. A step up removes a
component, is kept when there is nothing to remove, and stays at the root of an absolute path. -/
def step (absolute : Bool) (walked : List String) (component : String) : List String :=
  if component = "" ∨ component = "." then walked
  else if component = ".." then
    match walked with
    | [] => if absolute then [] else [".."]
    | last :: rest => if last = ".." then ".." :: last :: rest else rest
  else component :: walked

def collapse (absolute : Bool) (components : List String) : List String :=
  (components.foldl (step absolute) []).reverse

def isAbsolute (path : String) : Bool :=
  path.toList.head? == some '/'

def components (path : String) : List String :=
  collapse (isAbsolute path) (Text.splitAt '/' path)

def withSlashes (path : String) : String :=
  String.ofList (path.toList.map fun c => if c = '\\' then '/' else c)

/-- The path of a file in the form `./dir/file.js`. There is none for an absolute path and for one
that leads to a file outside the corpus root. -/
def normalize? (path : String) : Option String :=
  let slashed := withSlashes path
  if isAbsolute slashed then none
  else
    match components slashed with
    | ".." :: _ :: _ => none
    | resolved => some ("./" ++ Text.joinWith '/' resolved)

/-- The part of a path up to its last separator, without separators at the end unless there is
nothing else. -/
def directory (path : String) : String :=
  let head := (path.toList.reverse.dropWhile (· != '/'))
  match head.dropWhile (· == '/') with
  | [] => String.ofList head
  | name => String.ofList name.reverse

def fileName (path : String) : String :=
  String.ofList (path.toList.reverse.takeWhile (· != '/')).reverse

def relative : List String → List String → List String
  | f :: fs, t :: ts =>
    if f = t then relative fs ts else (f :: fs).map (fun _ => "..") ++ t :: ts
  | fs, ts => fs.map (fun _ => "..") ++ ts

def relativePath (directory file : String) : String :=
  match relative (components directory) (components file) with
  | [] => "."
  | steps => Text.joinWith '/' steps

/-- The text by which the file `source` requires the file `target`: the path between them without
the extension, marked as relative. There is none if the target is empty. -/
def specifier? (source target extension : String) : Option String :=
  if target = "" then none
  else
    let path := relativePath (directory source) target
    let stem :=
      if extension ≠ "" ∧ Text.endsWith path extension then
        Text.dropEnd extension.toList.length path
      else path
    some (if Text.startsWith stem "../" then stem else "./" ++ stem)

def group (path : String) : String :=
  let directory := directory path
  if directory = "" ∨ directory = "." then ""
  else
    let inner := if Text.startsWith directory "./" then Text.dropStart 2 directory else directory
    String.ofList (inner.toList.reverse.dropWhile (· == '/')).reverse

end ScriptModules.Path
