import ScriptModules.Path.FilePath
import ScriptModules.Text.Parts

namespace ScriptModules

structure Request where
  input : FilePath
  output : FilePath
  graph : Option FilePath := none
  trace : Option FilePath := none
  settings : List String := []
deriving DecidableEq, Repr

inductive Invocation where
  | convert (request : Request)
  | version
  | help
  | misused
deriving DecidableEq, Repr

namespace Arguments

inductive Flag where
  | help
  | version
  | input
  | output
  | graph
  | trace
  | settings
deriving DecidableEq, Repr

def flagNames : List (String × Flag) :=
  [("-h", .help), ("--help", .help), ("--version", .version), ("--input", .input),
   ("--output", .output), ("--graph", .graph), ("--json-trace", .trace), ("--config", .settings)]

def flag? (name : String) : Option Flag :=
  (flagNames.find? fun entry => entry.1 == name).map Prod.snd

inductive Argument where
  | value (text : String)
  | flag (flag : Flag) (attached : Option String)
  | separator
  | unknown
  | ambiguous
deriving DecidableEq, Repr

def splitValue (argument : String) : String × Option String :=
  let name := argument.toList.takeWhile (· != '=')
  match argument.toList.dropWhile (· != '=') with
  | _ :: value => (String.ofList name, some (String.ofList value))
  | [] => (argument, none)

def isNegativeNumber (text : String) : Bool :=
  match text.toList with
  | '-' :: digits =>
    let whole := digits.takeWhile Char.isDigit
    match digits.dropWhile Char.isDigit with
    | [] => !whole.isEmpty
    | '.' :: fraction => !fraction.isEmpty && fraction.all Char.isDigit
    | _ => false
  | _ => false

def unnamed (argument : String) : Argument :=
  if isNegativeNumber argument || argument.toList.contains ' ' then .value argument else .unknown

/-- What is attached to the short name of an option. Letters are not: they are taken for more short
names. -/
def attachedTo (rest : String) : Option String :=
  if Text.startsWith rest "-" then some rest else none

/-- An argument that is a shortened name, or starts with the short name of an option. -/
def abbreviated (argument : String) : Argument :=
  if Text.startsWith argument "--" then
    let (name, attached) := splitValue argument
    match flagNames.filter fun entry => Text.startsWith entry.1 name with
    | [] => unnamed argument
    | [entry] => .flag entry.2 attached
    | _ => .ambiguous
  else
    match flag? (String.ofList (argument.toList.take 2)) with
    | some flag => .flag flag (attachedTo (Text.dropStart 2 argument))
    | none => unnamed argument

def classify (argument : String) : Argument :=
  if !Text.startsWith argument "-" || argument = "-" then .value argument
  else if argument = "--" then .separator
  else
    match flag? argument with
    | some flag => .flag flag none
    | none =>
      let (name, attached) := splitValue argument
      match flag? name with
      | some flag => .flag flag attached
      | none => abbreviated argument

def classifyAll : List String → List Argument
  | [] => []
  | argument :: rest =>
    match classify argument with
    | .separator => .separator :: rest.map .value
    | classified => classified :: classifyAll rest

/-- Which values the arguments read so far ask for next. -/
inductive Wanted where
  | nothing
  | one (flag : Flag)
  | many
deriving DecidableEq, Repr

structure Reading where
  input : Option String := none
  output : Option String := none
  graph : Option String := none
  trace : Option String := none
  settings : List String := []
  wanted : Wanted := .nothing
  excess : Bool := false
deriving DecidableEq, Repr

namespace Reading

def put (reading : Reading) (flag : Flag) (value : String) : Reading :=
  match flag with
  | .input => { reading with input := some value, wanted := .nothing }
  | .output => { reading with output := some value, wanted := .nothing }
  | .graph => { reading with graph := some value, wanted := .nothing }
  | .trace => { reading with trace := some value, wanted := .nothing }
  | .settings => { reading with settings := [value], wanted := .nothing }
  | .help | .version => reading

def takeFlag (reading : Reading) (flag : Flag) (attached : Option String) :
    Except Invocation Reading :=
  match flag, attached with
  | .help, none => .error .help
  | .version, none => .error .version
  | .help, some _ | .version, some _ => .error .misused
  | .settings, none => .ok { reading with settings := [], wanted := .many }
  | flag, none => .ok { reading with wanted := .one flag }
  | flag, some value => .ok (reading.put flag value)

def takeValue (reading : Reading) (value : String) : Reading :=
  match reading.wanted with
  | .nothing => { reading with excess := true }
  | .one flag => reading.put flag value
  | .many => { reading with settings := reading.settings ++ [value] }

def take (reading : Reading) (argument : Argument) : Except Invocation Reading :=
  match argument, reading.wanted with
  | .value value, _ => .ok (reading.takeValue value)
  | _, .one _ => .error .misused
  | .flag flag attached, _ => reading.takeFlag flag attached
  | _, _ => .ok { reading with excess := true, wanted := .nothing }

def finish (reading : Reading) : Invocation :=
  match reading.wanted, reading.excess, reading.input, reading.output with
  | .one _, _, _, _ => .misused
  | _, false, some input, some output =>
    .convert {
      input := FilePath.parse input
      output := FilePath.parse output
      graph := reading.graph.map FilePath.parse
      trace := reading.trace.map FilePath.parse
      settings := reading.settings }
  | _, _, _, _ => .misused

end Reading

def read (arguments : List String) : Invocation :=
  let classified := classifyAll arguments
  if classified.contains .ambiguous then .misused
  else
    match classified.foldlM Reading.take {} with
    | .ok reading => reading.finish
    | .error invocation => invocation

end Arguments

end ScriptModules
