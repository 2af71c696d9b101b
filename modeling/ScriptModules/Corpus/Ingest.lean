import ScriptModules.Corpus.Script
import ScriptModules.Path.Corpus
import ScriptModules.Path.FileTree
import ScriptModules.Settings.Basic
import ScriptModules.Text.Order
import ScriptModules.Tree.Source

namespace ScriptModules

structure Corpus where
  scripts : List Script := []
  chunks : Ledger String := []

namespace Corpus

def normalize (path : String) : Except Fault String :=
  match Path.normalize? path with
  | some normal => .ok normal
  | none => .error (.outsideCorpus path)

def unifyBreaks : List Char → List Char
  | '\x0d' :: '\n' :: rest => '\n' :: unifyBreaks rest
  | '\x0d' :: rest => '\n' :: unifyBreaks rest
  | c :: rest => c :: unifyBreaks rest
  | [] => []

def readText (path : String) (content : ByteArray) : Except Fault String :=
  match FileTree.decode? content with
  | some text => .ok (String.ofList (unifyBreaks text.toList))
  | none => .error (.undecodable path)

def readSources (tree : FileTree) (directory : FilePath) (settings : Settings) :
    Except Fault (Ledger String) :=
  (tree.filesBelow directory).foldlM (fun sources file => do
    let suffix := FilePath.suffix (file.1.getLast?.getD "")
    if suffix = settings.codeExtension ∨ suffix = settings.shaderExtension then
      let path ← normalize (Text.joinWith '/' file.1)
      let text ← readText path file.2
      return sources.put path text
    else return sources) []

/-- The sources under their corpus paths; of sources with the same path the last one counts. -/
def normalizeSources (sources : List (String × String)) : Except Fault (Ledger String) :=
  sources.foldlM (fun normal source => do
    return Ledger.put normal (← normalize source.1) source.2) []

def stem (path ending : String) : String :=
  Text.dropEnd ending.toList.length (Path.fileName path)

/-- Adds a source: a shader chunk, a script, or neither. -/
def addSource (settings : Settings) (corpus : Corpus) (path text : String) : Logged Corpus := do
  if Text.endsWith path settings.shaderExtension then
    return { corpus with
      chunks := corpus.chunks.put (stem path settings.shaderExtension) text }
  else if Text.endsWith path settings.codeExtension then
    let tree ← Tree.readSource text path
    let script : Script :=
      { path
        id := corpus.scripts.length
        tree
        stem := stem path settings.codeExtension
        names := tree.boundNames
        isRoot := path == settings.rootPath }
    return { corpus with scripts := corpus.scripts ++ [script] }
  else return corpus

def ingest (settings : Settings) (sources : List (String × String)) : Logged Corpus := do
  let normal ← normalizeSources sources
  (Text.sortBy Prod.fst normal).foldlM (fun corpus source =>
    addSource settings corpus source.1 source.2) {}

end Corpus

end ScriptModules
