import ScriptModules.Command.Session

namespace ScriptModules.Program

def loadFile (tree : FileTree) (location : Location) : IO FileTree := do
  let path := (← IO.currentDir) / (FileTree.absolutePath location).text
  if (← path.pathExists) && !(← path.isDir) then
    return tree.addFile location (← IO.FS.readBinFile path)
  else return tree

def loadDirectory (tree : FileTree) (location : Location) : IO FileTree := do
  let base ← IO.currentDir
  let mut tree := tree
  let mut due := [location]
  while !due.isEmpty do
    let here := due.headD []
    due := due.tail
    let path := base / (FileTree.absolutePath here).text
    if ← path.isDir then
      tree := tree.addDirectory here
      due := (← path.readDir).toList.map (fun entry => here ++ [entry.fileName]) ++ due
    else
      tree ← loadFile tree here
  return tree

def load (request : Request) : IO FileTree := do
  let workingDirectory := FilePath.keptParts (← IO.currentDir).toString
  let start : FileTree := { workingDirectory }
  let input := start.resolve request.input
  let tree ← loadDirectory (start.addDirectory workingDirectory) input
  let tree ← (Settings.upwards input).foldlM
    (fun tree directory => loadFile tree (directory ++ [Settings.projectFile])) tree
  (Command.templatesOf tree request).foldlM
    (fun tree path => loadFile tree (tree.resolve path)) tree

def filesFor (arguments : List String) : IO FileTree :=
  match Arguments.read arguments with
  | .convert request => load request
  | _ => return {}

def store (location : Location) (content : ByteArray) : IO Unit := do
  let base ← IO.currentDir
  IO.FS.createDirAll (base / (FileTree.absolutePath location.dropLast).text)
  IO.FS.writeBinFile (base / (FileTree.absolutePath location).text) content

def finish (before : FileTree) (state : CommandState) : IO Unit := do
  for (location, content) in FileTree.changedFiles before state.files do
    store location content
  for line in state.log.flatMap LogLine.display ++ state.closing do
    IO.eprintln line
  for line in state.output do
    IO.println line

end ScriptModules.Program

open ScriptModules in
def main (arguments : List String) : IO UInt32 := do
  let files ← Program.filesFor arguments
  let (result, state) := (Command.run arguments).run.run { files }
  Program.finish files state
  match result with
  | .ok code => return code.toUInt32
  | .error fault =>
    IO.eprintln (fault.message?.getD "The conversion stopped at a file that cannot be used.")
    return 1
