namespace ScriptModules.Text

def reservedWords : List String :=
  ["break", "case", "catch", "class", "const", "continue", "debugger", "default", "delete", "do",
   "else", "enum", "export", "extends", "false", "finally", "for", "function", "if", "implements",
   "import", "in", "instanceof", "interface", "let", "new", "null", "package", "private",
   "protected", "public", "return", "static", "super", "switch", "this", "throw", "true", "try",
   "typeof", "var", "void", "while", "with", "yield", "arguments", "eval", "undefined", "require",
   "exports", "module"]

def isPlain (c : Char) : Bool :=
  c.isAlphanum || c == '_' || c == '$'

/-- A text with every other character replaced by an underscore; never empty. -/
def plainChars (text : List Char) : List Char :=
  match text.map fun c => if isPlain c then c else '_' with
  | [] => ['_']
  | c :: cs => c :: cs

def toIdentifier (text : String) : String :=
  let plain := plainChars text.toList
  let name := String.ofList plain
  if plain.head?.any Char.isDigit || reservedWords.contains name then "_" ++ name else name

def freshWithin (used : List String) : Nat → String → String
  | 0, name => name
  | limit + 1, name =>
    if used.contains name then freshWithin used limit ("_" ++ name) else name

/-- The name behind the fewest underscores that make it neither reserved nor taken. As many names
as are in use can be refused, so one more is always free. -/
def fresh (taken : List String) (name : String) : String :=
  let used := taken ++ reservedWords
  freshWithin used used.length name

end ScriptModules.Text
