import ScriptModules.Text.Blank
import ScriptModules.Text.Parts
import ScriptModules.Tree.Letters

namespace ScriptModules.Tree

inductive TokenKind where
  | name
  | keyword
  | punctuator
  | number
  | string
  | regex
  | accessor
  /-- A semicolon that a line break stands for. -/
  | terminator
  | ending
deriving DecidableEq, Repr

structure Token where
  kind : TokenKind
  text : String
  comments : List String := []
  afterBreak : Bool := false
deriving DecidableEq, Repr

namespace Token

def isMark (token : Token) (text : String) : Bool :=
  token.kind == .punctuator && token.text == text

def isKeyword (token : Token) (text : String) : Bool :=
  token.kind == .keyword && token.text == text

end Token

abbrev Lexeme := List Char × List Char

namespace Lexeme

def keywords : List String :=
  ["break", "case", "catch", "continue", "debugger", "default", "delete", "do", "else", "finally",
   "for", "function", "if", "in", "instanceof", "new", "return", "switch", "this", "throw", "try",
   "typeof", "var", "void", "while", "with", "null", "true", "false", "class", "const", "enum",
   "export", "extends", "import", "super"]

/-- The punctuators, each in front of the ones that it begins with. The slash is none of them: what
it starts depends on the token before it. -/
def punctuators : List String :=
  [">>>=", "===", "!==", "<<=", ">>=", ">>>", "<=", ">=", "==", "!=", "++", "--", "<<", ">>", "&&",
   "||", "+=", "-=", "*=", "%=", "&=", "|=", "^=", "\x7b", "\x7d", "(", ")", "[", "]", ".", ";",
   ",", "<", ">", "+", "-", "*", "%", "&", "|", "^", "!", "~", "?", ":", "="]

def isLineBreak (c : Char) : Bool :=
  c == '\n' || c == '\x0d'

def isLineEnd (c : Char) : Bool :=
  isLineBreak c || c == '\u2028' || c == '\u2029'

def isSpace (c : Char) : Bool :=
  c == ' ' || c == '\t' || c == '\x0b' || c == '\x0c' || c == '\u2028' || c == '\u2029'
    || c == '\ufeff' || 0x80 ≤ c.toNat && c != '\u0085' && Text.isBlank c

def span (p : Char → Bool) (cs : List Char) : Lexeme :=
  (cs.takeWhile p, cs.dropWhile p)

def word (cs : List Char) : Lexeme :=
  let start := span startsIdentifier cs
  let tail := span continuesIdentifier start.2
  (start.1 ++ tail.1, tail.2)

def isOctal (c : Char) : Bool :=
  '0' ≤ c && c ≤ '7'

def isHex (c : Char) : Bool :=
  c.isDigit || 'a' ≤ c && c ≤ 'f' || 'A' ≤ c && c ≤ 'F'

def exponent (cs : List Char) : Lexeme :=
  match cs with
  | e :: rest =>
    if e = 'e' ∨ e = 'E' then
      match rest with
      | sign :: digits =>
        if sign = '+' ∨ sign = '-' then
          match span Char.isDigit digits with
          | ([], _) => ([], cs)
          | (ds, left) => (e :: sign :: ds, left)
        else
          match span Char.isDigit rest with
          | ([], _) => ([], cs)
          | (ds, left) => (e :: ds, left)
      | [] => ([], cs)
    else ([], cs)
  | [] => ([], [])

def fraction (whole cs : List Char) : Lexeme :=
  match cs with
  | '.' :: rest =>
    let digits := span Char.isDigit rest
    let power := exponent digits.2
    (whole ++ '.' :: digits.1 ++ power.1, power.2)
  | _ =>
    let power := exponent cs
    (whole ++ power.1, power.2)

/-- A decimal number that starts with a digit; behind a leading zero there is no other digit. -/
def decimal (cs : List Char) : Option Lexeme :=
  match cs with
  | '0' :: rest => some (fraction ['0'] rest)
  | _ =>
    match span Char.isDigit cs with
    | ([], _) => none
    | (digits, rest) => some (fraction digits rest)

def number (cs : List Char) : Option Lexeme :=
  match cs with
  | '0' :: x :: rest =>
    if x = 'x' ∨ x = 'X' then
      match span isHex rest with
      | ([], _) => some (['0'], x :: rest)
      | (digits, left) => some ('0' :: x :: digits, left)
    else
      match span isOctal (x :: rest) with
      | ([], _) => decimal cs
      | (digits, left) => some ('0' :: digits, left)
  | '.' :: rest =>
    match span Char.isDigit rest with
    | ([], _) => none
    | (digits, left) =>
      let power := exponent left
      some ('.' :: digits ++ power.1, power.2)
  | _ => decimal cs

def isSingleEscape (c : Char) : Bool :=
  c.isAlpha && c != 'u' && c != 'x' && c != 'U' && c != 'X'
    || 0x21 ≤ c.toNat && c.toNat ≤ 0x7e && !c.isAlphanum

def stringTail (quote : Char) : List Char → Option Lexeme
  | '\\' :: 'x' :: a :: b :: rest =>
    if isHex a && isHex b then
      (stringTail quote rest).map fun tail => ('\\' :: 'x' :: a :: b :: tail.1, tail.2)
    else none
  | '\\' :: 'u' :: a :: b :: c :: d :: rest =>
    if isHex a && isHex b && isHex c && isHex d then
      (stringTail quote rest).map fun tail =>
        ('\\' :: 'u' :: a :: b :: c :: d :: tail.1, tail.2)
    else none
  | '\\' :: '\x0d' :: '\n' :: rest =>
    (stringTail quote rest).map fun tail => ('\\' :: '\x0d' :: '\n' :: tail.1, tail.2)
  | '\\' :: c :: rest =>
    if isLineEnd c || isOctal c || isSingleEscape c then
      (stringTail quote rest).map fun tail => ('\\' :: c :: tail.1, tail.2)
    else none
  | c :: rest =>
    if c = quote then some ([c], rest)
    else if c = '\\' || isLineEnd c then none
    else (stringTail quote rest).map fun tail => (c :: tail.1, tail.2)
  | [] => none

def string : List Char → Option Lexeme
  | quote :: rest =>
    if quote = '"' ∨ quote = '\x27' then
      (stringTail quote rest).map fun tail => (quote :: tail.1, tail.2)
    else none
  | [] => none

def regexTail (inClass : Bool) : List Char → Option Lexeme
  | '\\' :: c :: rest =>
    if isLineEnd c then none
    else (regexTail inClass rest).map fun tail => ('\\' :: c :: tail.1, tail.2)
  | c :: rest =>
    if c = '\\' || isLineEnd c then none
    else if c = '/' && !inClass then some ([c], rest)
    else
      let inside := c = '[' || inClass && c != ']'
      (regexTail inside rest).map fun tail => (c :: tail.1, tail.2)
  | [] => none

/-- A regular expression literal as written: a body that does not start like a comment, and
flags. -/
def regex : List Char → Option Lexeme
  | '/' :: rest =>
    match rest with
    | '/' :: _ => none
    | '*' :: _ => none
    | _ =>
      (regexTail false rest).map fun body =>
        let flags := span Char.isAlphanum body.2
        ('/' :: body.1 ++ flags.1, flags.2)
  | _ => none

def punctuator (cs : List Char) : Option Lexeme :=
  (punctuators.find? fun mark => mark.toList.isPrefixOf cs).map fun mark =>
    (mark.toList, cs.drop mark.toList.length)

end Lexeme

end ScriptModules.Tree
