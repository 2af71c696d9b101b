import ScriptModules.Log
import ScriptModules.Tree.Parser
import ScriptModules.Tree.Printer

namespace ScriptModules.Tree

def snippetPath : String :=
  "<snippet>"

def readSource (text path : String) : Logged Node := do
  match Node.parse? text with
  | some program => pure program
  | none =>
    Logged.note .error ("error parsing " ++ LogLine.path path)
    throw (.unreadableSource path)

def writeSource (node? : Option Node) (path indent : String) : Logged String := do
  match node? with
  | some node => pure (node.render indent)
  | none =>
    Logged.note .error ("error generating " ++ LogLine.path path)
    throw (.unprintableTree path)

end ScriptModules.Tree
