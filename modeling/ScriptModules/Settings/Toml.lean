import ScriptModules.Settings.Basic
import ScriptModules.Text.Ledger

/-!
# Settings files

A reader for the part of TOML that settings files use: comments, table headers, dotted and quoted
keys, strings on one line, integers, booleans and arrays. A text that breaks the rules of the format
is refused as a whole; so is a key or a table that is defined twice.
-/

namespace ScriptModules.Toml

abbrev Key := List String

abbrev Reader (α : Type) := StateT (List Char) Option α

def skipBlanks : Reader Unit :=
  modify (·.dropWhile fun c => c == ' ' || c == '\t')

def isControl (c : Char) : Bool :=
  c.toNat < 0x20 && c != '\t' || c.toNat == 0x7f

def expect (c : Char) : Reader Unit := fun cs =>
  match cs with
  | d :: rest => if d = c then some ((), rest) else none
  | [] => none

def skipComment : Reader Unit := do
  skipBlanks
  match ← get with
  | '#' :: rest =>
    let comment := rest.takeWhile (· != '\n')
    if comment.any isControl then failure else set (rest.drop comment.length)
  | _ => pure ()

def digit? (c : Char) : Option Nat :=
  if c.isDigit then some (c.toNat - 0x30)
  else if 'a' ≤ c ∧ c ≤ 'f' then some (c.toNat - 0x57)
  else if 'A' ≤ c ∧ c ≤ 'F' then some (c.toNat - 0x37)
  else none

def codePoint? (digits : List Char) : Option Char := do
  let value ← digits.foldlM (fun value c => return value * 16 + (← digit? c)) 0
  if value.isValidChar then some (Char.ofNat value) else none

def basicTail : List Char → Option (List Char × List Char)
  | '"' :: rest => some ([], rest)
  | '\\' :: 'u' :: a :: b :: c :: d :: rest => do
    let character ← codePoint? [a, b, c, d]
    let (tail, left) ← basicTail rest
    pure (character :: tail, left)
  | '\\' :: 'U' :: a :: b :: c :: d :: e :: f :: g :: h :: rest => do
    let character ← codePoint? [a, b, c, d, e, f, g, h]
    let (tail, left) ← basicTail rest
    pure (character :: tail, left)
  | '\\' :: c :: rest => do
    let character ←
      match c with
      | 'b' => some '\x08'
      | 't' => some '\t'
      | 'n' => some '\n'
      | 'f' => some '\x0c'
      | 'r' => some '\x0d'
      | '"' => some '"'
      | '\\' => some '\\'
      | _ => none
    let (tail, left) ← basicTail rest
    pure (character :: tail, left)
  | c :: rest =>
    if isControl c ∨ c = '\\' then none
    else do
      let (tail, left) ← basicTail rest
      pure (c :: tail, left)
  | [] => none

def basicString : Reader String := fun cs => do
  let ((), rest) ← expect '"' cs
  let (text, left) ← basicTail rest
  pure (String.ofList text, left)

def literalString : Reader String := fun cs => do
  let ((), rest) ← expect '\x27' cs
  let text := rest.takeWhile (· != '\x27')
  if text.any isControl then none
  else
    let ((), left) ← expect '\x27' (rest.drop text.length)
    pure (String.ofList text, left)

def isBare (c : Char) : Bool :=
  c.isAlphanum || c == '_' || c == '-'

def keyPart : Reader String := do
  match ← get with
  | '"' :: _ => basicString
  | '\x27' :: _ => literalString
  | cs =>
    let name := cs.takeWhile isBare
    if name.isEmpty then failure
    else
      set (cs.drop name.length)
      return String.ofList name

def key : Nat → Reader Key
  | 0 => failure
  | n + 1 => do
    let part ← keyPart
    skipBlanks
    match ← get with
    | '.' :: rest =>
      set rest
      skipBlanks
      return part :: (← key n)
    | _ => return [part]

def digits : List Char → List Char × List Char
  | c :: '_' :: d :: rest =>
    if c.isAlphanum ∧ d.isAlphanum then
      let (tail, left) := digits (d :: rest)
      (c :: tail, left)
    else if c.isAlphanum then ([c], '_' :: d :: rest)
    else ([], c :: '_' :: d :: rest)
  | c :: rest =>
    if c.isAlphanum then
      let (tail, left) := digits rest
      (c :: tail, left)
    else ([], c :: rest)
  | [] => ([], [])

def natural? (base : Nat) (digits : List Char) : Option Nat :=
  if digits.isEmpty then none
  else
    digits.foldlM (fun value c =>
      match digit? c with
      | some d => if d < base then some (value * base + d) else none
      | none => none) 0

def integer : Reader Int := fun cs =>
  match cs with
  | '0' :: 'x' :: rest => inBase 16 rest
  | '0' :: 'o' :: rest => inBase 8 rest
  | '0' :: 'b' :: rest => inBase 2 rest
  | '+' :: rest => decimal 1 rest
  | '-' :: rest => decimal (-1) rest
  | _ => decimal 1 cs
where
  inBase (base : Nat) (cs : List Char) : Option (Int × List Char) := do
    let (ds, rest) := digits cs
    let value ← natural? base ds
    pure (value, rest)
  decimal (sign : Int) (cs : List Char) : Option (Int × List Char) := do
    let (ds, rest) := digits cs
    let value ← natural? 10 ds
    if ds.head? = some '0' ∧ ds.length ≠ 1 then none else pure (sign * value, rest)

def word (text : String) : Reader Unit := fun cs =>
  if text.toList.isPrefixOf cs then some ((), cs.drop text.toList.length) else none

def skipLines : Nat → Reader Unit
  | 0 => failure
  | n + 1 => do
    skipComment
    match ← get with
    | '\n' :: rest =>
      set rest
      skipLines n
    | _ => pure ()

mutual

def value : Nat → Reader Value
  | 0 => failure
  | n + 1 => do
    match ← get with
    | '"' :: '"' :: '"' :: _ => failure
    | '\x27' :: '\x27' :: '\x27' :: _ => failure
    | '"' :: _ => return .text (← basicString)
    | '\x27' :: _ => return .text (← literalString)
    | 't' :: _ =>
      word "true"
      return .boolean true
    | 'f' :: _ =>
      word "false"
      return .boolean false
    | '[' :: rest =>
      set rest
      return .list (← items n)
    | _ => return .integer (← integer)

def items : Nat → Reader (List Value)
  | 0 => failure
  | n + 1 => do
    skipLines n
    match ← get with
    | ']' :: rest =>
      set rest
      return []
    | _ =>
      let item ← value n
      skipLines n
      match ← get with
      | ',' :: rest =>
        set rest
        return item :: (← items n)
      | ']' :: rest =>
        set rest
        return [item]
      | _ => failure

end

/-- What has been read: the values, and which tables may not be opened again. -/
structure Document where
  root : Ledger Value := []
  /-- The tables with a header, and those that dotted keys of earlier headers opened. -/
  closed : List Key := []
  /-- The tables that dotted keys under the last header opened. -/
  pending : List Key := []

/-- Changes the table at a key, opening the tables on the way. Fails where a value stands in the
way. -/
def updateTable (change : Ledger Value → Option (Ledger Value)) :
    Key → Ledger Value → Option (Ledger Value)
  | [], table => change table
  | name :: rest, table =>
    match table.get? name with
    | none => do return table.put name (.table (← updateTable change rest []))
    | some (.table inner) => do return table.put name (.table (← updateTable change rest inner))
    | some _ => none

/-- The proper beginnings of a key behind the header it stands under. -/
def opened (header key : Key) : List Key :=
  (List.range (key.length - 1)).map fun n => header ++ key.take (n + 1)

namespace Document

def openTable (document : Document) (key : Key) : Option Document :=
  let closed := document.closed ++ document.pending
  if closed.contains key then none
  else do
    let root ← updateTable some key document.root
    pure { root, closed := closed ++ [key], pending := [] }

def addValue (document : Document) (header key : Key) (value : Value) : Option Document :=
  let tables := opened header key
  match key.getLast? with
  | none => none
  | some name =>
    if tables.any document.closed.contains then none
    else do
      let change (table : Ledger Value) : Option (Ledger Value) :=
        if table.has name then none else some (table.put name value)
      let root ← updateTable change (header ++ key.dropLast) document.root
      pure { document with root, pending := document.pending ++ tables }

end Document

def line (size : Nat) (header : Key) (document : Document) : Reader (Key × Document) := do
  skipBlanks
  match ← get with
  | [] | '\n' :: _ | '#' :: _ => return (header, document)
  | '[' :: rest =>
    set rest
    skipBlanks
    let key ← key size
    expect ']'
    return (key, ← document.openTable key)
  | _ =>
    let key ← key size
    expect '='
    skipBlanks
    let value ← value size
    return (header, ← document.addValue header key value)

/-- The lines of a document, of which there are at most the given number. -/
def lines (size : Nat) : Nat → Key → Document → Reader Document
  | 0, _, _ => failure
  | n + 1, header, document => do
    let (header, document) ← line size header document
    skipComment
    match ← get with
    | [] => return document
    | '\n' :: rest =>
      set rest
      lines size n header document
    | _ => failure

def joinBreaks : List Char → List Char
  | '\x0d' :: '\n' :: rest => '\n' :: joinBreaks rest
  | c :: rest => c :: joinBreaks rest
  | [] => []

def parse? (text : String) : Option (Ledger Value) := do
  let characters := joinBreaks text.toList
  let size := 2 * characters.length + 2
  let (document, _) ← (lines size size [] {}).run characters
  pure document.root

end ScriptModules.Toml
