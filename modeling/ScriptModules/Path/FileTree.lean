import ScriptModules.Fault
import ScriptModules.Path.FilePath
import ScriptModules.Text.Order

namespace ScriptModules

/-- A place in a file tree: the names on the way from the root. -/
abbrev Location := List String

inductive Entry where
  | directory
  | file (content : ByteArray)

instance : DecidableEq Entry
  | .directory, .directory => isTrue rfl
  | .directory, .file _ | .file _, .directory => isFalse nofun
  | .file left, .file right =>
    decidable_of_iff (left.data = right.data) (by simp [ByteArray.ext_iff])

structure FileTree where
  entries : List (Location × Entry) := []
  workingDirectory : Location := []

namespace FileTree

def entry? (tree : FileTree) (location : Location) : Option Entry :=
  if location = [] then some .directory
  else (tree.entries.find? fun entry => entry.1 == location).map Prod.snd

def isDirectoryAt (tree : FileTree) (location : Location) : Bool :=
  tree.entry? location matches some .directory

def put (tree : FileTree) (location : Location) (entry : Entry) : FileTree :=
  { tree with entries := (tree.entries.filter fun old => old.1 != location) ++ [(location, entry)] }

def stepTo (tree : FileTree) (location : Location) (name : String) : Option Location :=
  if name = ".." then if tree.isDirectoryAt location then some location.dropLast else none
  else some (location ++ [name])

def startOf (tree : FileTree) (path : FilePath) : Location :=
  if path.anchor = "" then tree.workingDirectory else []

def locate (tree : FileTree) (path : FilePath) : Option Location :=
  path.parts.foldlM tree.stepTo (tree.startOf path)

def lookUp (tree : FileTree) (path : FilePath) : Option Entry :=
  (tree.locate path).bind tree.entry?

def isDirectory (tree : FileTree) (path : FilePath) : Bool :=
  tree.lookUp path matches some .directory

def isFile (tree : FileTree) (path : FilePath) : Bool :=
  tree.lookUp path matches some (.file _)

/-- A step up or down from a place, without looking at the tree. -/
def lexicalStep (location : Location) (name : String) : Location :=
  if name = ".." then location.dropLast else location ++ [name]

/-- The place that a path leads to if everything on its way is a directory. -/
def resolve (tree : FileTree) (path : FilePath) : Location :=
  path.parts.foldl lexicalStep (tree.startOf path)

def absolutePath (location : Location) : FilePath :=
  { anchor := "/", parts := location }

def decode? (content : ByteArray) : Option String :=
  String.fromUTF8? content

def filesBelow (tree : FileTree) (path : FilePath) : List (Location × ByteArray) :=
  match tree.locate path with
  | none => []
  | some location =>
    if tree.isDirectoryAt location then
      let below := tree.entries.filterMap fun entry =>
        match entry.2 with
        | .file content =>
          if location.isPrefixOf entry.1 ∧ location ≠ entry.1 then
            some (entry.1.drop location.length, content)
          else none
        | .directory => none
      Text.sortBy Prod.fst below
    else []

/-- Makes the directories on the way from a place along the given names. Nothing can be made where a
file is. -/
def makeDirectoriesFrom (tree : FileTree) (location : Location) :
    List String → Except Fault FileTree
  | [] => .ok tree
  | name :: names =>
    if name = ".." then makeDirectoriesFrom tree location.dropLast names
    else
      let next := location ++ [name]
      match tree.entry? next with
      | some .directory => makeDirectoriesFrom tree next names
      | some (.file _) =>
        let path := (absolutePath next).text
        -- only at the end of the way the file stands where the directory is wanted
        .error (if names.isEmpty then .fileInTheWay path else .notADirectory path)
      | none => makeDirectoriesFrom (tree.put next .directory) next names

def makeDirectories (tree : FileTree) (path : FilePath) : Except Fault FileTree :=
  tree.makeDirectoriesFrom (tree.startOf path) path.parts

def writeFile (tree : FileTree) (path : FilePath) (content : ByteArray) : Except Fault FileTree :=
  match tree.locate path with
  | none => .error (.noDirectory path.text)
  | some location =>
    match tree.entry? location with
    | some .directory => .error (.isADirectory path.text)
    | _ =>
      match tree.entry? location.dropLast with
      | some .directory => .ok (tree.put location (.file content))
      | some (.file _) => .error (.notADirectory path.text)
      | none => .error (.noDirectory path.text)

def addFile (tree : FileTree) (location : Location) (content : ByteArray) : FileTree :=
  match tree.makeDirectoriesFrom [] location.dropLast with
  | .ok tree => tree.put location (.file content)
  | .error _ => tree

def addDirectory (tree : FileTree) (location : Location) : FileTree :=
  match tree.makeDirectoriesFrom [] location with
  | .ok tree => tree
  | .error _ => tree

def changedFiles (before after : FileTree) : List (Location × ByteArray) :=
  after.entries.filterMap fun entry =>
    match entry.2 with
    | .file content =>
      if before.entry? entry.1 = some entry.2 then none else some (entry.1, content)
    | .directory => none

end FileTree

end ScriptModules
