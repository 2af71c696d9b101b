import ScriptModules.Tree.Token

/-!
# Scanning

A scanner reads the tokens of a program one after another. What a slash starts depends on the token
before it, and a line break directly behind `break`, `continue`, `return` or `throw` is a token
that ends the statement, so a scanner remembers the last token and the parentheses around it.
-/

namespace ScriptModules.Tree

structure Gap where
  comments : List String := []
  endsInBreak : Bool := false
deriving DecidableEq, Repr

namespace Gap

def addBreak (gap : Gap) : Gap :=
  { gap with endsInBreak := true }

def addComment (gap : Gap) (reversed : List Char) : Gap :=
  { comments := gap.comments ++ [String.ofList reversed.reverse], endsInBreak := false }

/-- Where in a gap a character stands; comments hold their characters so far, last to first. -/
inductive Place where
  | between
  | lineComment (reversed : List Char)
  | blockComment (reversed : List Char)

def read : Place → Gap → List Char → Option (Gap × List Char)
  | .between, gap, '/' :: '/' :: rest => read (.lineComment ['/', '/']) gap rest
  | .between, gap, '/' :: '*' :: rest => read (.blockComment ['*', '/']) gap rest
  | .between, gap, c :: rest =>
    if Lexeme.isLineBreak c then read .between gap.addBreak rest
    else if Lexeme.isSpace c then read .between gap rest
    else some (gap, c :: rest)
  | .between, gap, [] => some (gap, [])
  | .lineComment reversed, gap, c :: rest =>
    if Lexeme.isLineBreak c then read .between (gap.addComment reversed).addBreak rest
    else if Lexeme.isLineEnd c then read .between (gap.addComment reversed) rest
    else read (.lineComment (c :: reversed)) gap rest
  | .lineComment reversed, gap, [] => some (gap.addComment reversed, [])
  | .blockComment reversed, gap, '*' :: '/' :: rest =>
    read .between (gap.addComment ('/' :: '*' :: reversed)) rest
  | .blockComment reversed, gap, c :: rest => read (.blockComment (c :: reversed)) gap rest
  | .blockComment _, _, [] => none

end Gap

/-- The characters still to be read and what is known of the tokens before them. -/
structure Scanner where
  rest : List Char
  previous : TokenKind × String := (.terminator, "")
  /-- Whether the last token closes the head of an `if`, `for` or `while`. -/
  closedHead : Bool := false
  /-- For each open parenthesis, innermost first, whether it opens such a head. -/
  heads : List Bool := []
deriving Repr

namespace Scanner

/-- The keywords behind which a line break ends the statement. -/
def isRestricted (previous : TokenKind × String) : Bool :=
  previous.1 == .keyword && ["break", "continue", "return", "throw"].contains previous.2

def opensHead (previous : TokenKind × String) : Bool :=
  previous.1 == .keyword && ["if", "for", "while"].contains previous.2

/-- Whether a slash behind the last token divides. -/
def divides (scanner : Scanner) : Bool :=
  match scanner.previous with
  | (.name, _) | (.number, _) | (.string, _) | (.regex, _) => true
  | (.keyword, text) => ["true", "false", "null", "this"].contains text
  | (.punctuator, text) =>
    ["++", "--", "\x7d", "]"].contains text || text == ")" && !scanner.closedHead
  | _ => false

def pass (scanner : Scanner) (token : Token) (rest : List Char) : Scanner :=
  let previous := (token.kind, token.text)
  if token.isMark "(" then
    { rest, previous, heads := opensHead scanner.previous :: scanner.heads }
  else if token.isMark ")" then
    { rest, previous, closedHead := scanner.heads.head?.getD false, heads := scanner.heads.tail }
  else { rest, previous, heads := scanner.heads }

/-- Whether the characters behind `get` or `set` make it introduce an accessor: one blank and the
start of an identifier. -/
def introducesAccessor (word : List Char) (rest : List Char) : Bool :=
  (word == ['g', 'e', 't'] || word == ['s', 'e', 't']) &&
    match rest with
    | blank :: c :: _ => Text.isBlank blank && startsIdentifier c
    | _ => false

def wordKind (word : List Char) (rest : List Char) : TokenKind :=
  if introducesAccessor word rest then .accessor
  else if Lexeme.keywords.contains (String.ofList word) then .keyword
  else .name

def lexeme (scanner : Scanner) : List Char → Option (TokenKind × Lexeme)
  | [] => some (.ending, [], [])
  | c :: cs =>
    if startsIdentifier c then
      let word := Lexeme.word (c :: cs)
      some (wordKind word.1 word.2, word)
    else if c = '"' ∨ c = '\x27' then (Lexeme.string (c :: cs)).map (TokenKind.string, ·)
    else if c = '/' then
      if scanner.divides then
        match cs with
        | '=' :: rest => some (.punctuator, ['/', '='], rest)
        | _ => some (.punctuator, ['/'], cs)
      else (Lexeme.regex (c :: cs)).map (TokenKind.regex, ·)
    else
      match Lexeme.number (c :: cs) with
      | some number => some (.number, number)
      | none => (Lexeme.punctuator (c :: cs)).map (TokenKind.punctuator, ·)

def directBreak? (scanner : Scanner) : Option (List Char) :=
  match scanner.rest.dropWhile Lexeme.isSpace with
  | c :: rest => if Lexeme.isLineBreak c then some rest else none
  | [] => none

/-- The next token. Also returned is the scanner at the token, from which it can be read again, and
the one behind it. -/
def next (scanner : Scanner) : Option (Token × Scanner × Scanner) :=
  match if isRestricted scanner.previous then scanner.directBreak? else none with
  | some rest =>
    let token : Token := { kind := .terminator, text := ";" }
    some (token, scanner, scanner.pass token rest)
  | none => do
    let (gap, start) ← Gap.read .between {} scanner.rest
    let (kind, text, rest) ← scanner.lexeme start
    let token : Token :=
      { kind, text := String.ofList text, comments := gap.comments, afterBreak := gap.endsInBreak }
    pure (token, { scanner with rest := start }, scanner.pass token rest)

/-- Reads the slash at the scanner as the start of a regular expression, if the last token is one
that also ends statements or stands in front of operands. -/
def rereadSlash? (scanner : Scanner) (slash : Token) : Option (Token × Scanner) :=
  if scanner.previous.1 = .punctuator ∧ ["\x7d", "++", "--"].contains scanner.previous.2 then do
    let (text, rest) ← Lexeme.regex scanner.rest
    let token := { slash with kind := .regex, text := String.ofList text }
    pure (token, scanner.pass token rest)
  else none

end Scanner

end ScriptModules.Tree
