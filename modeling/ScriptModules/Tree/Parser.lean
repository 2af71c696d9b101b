import ScriptModules.Tree.Node
import ScriptModules.Tree.Scanner

/-!
# Parsing

`Node.parse?` reads a program. A comment belongs to the token behind it; a node takes the comments
of the one token that stands for it, its first word or its operator, and other comments are
dropped. Where a statement may end, a semicolon may be left out in front of a closing brace, at the
end of the program and behind a line break.

Every reader takes a number of levels that it may descend. A level is spent on each step of the
grammar, so a fixed number per character is enough (`levels`).
-/

namespace ScriptModules.Tree

/-- The token that is read next, the scanner at it and the scanner behind it. -/
structure Cursor where
  token : Token
  here : Scanner
  after : Scanner

abbrev Parser (α : Type) := StateT Cursor Option α

namespace Parser

def start (scanner : Scanner) : Option Cursor := do
  let (token, here, after) ← scanner.next
  pure { token, here, after }

def peek : Parser Token := do
  return (← get).token

def advance : Parser Token := fun cursor => do
  pure (cursor.token, ← start cursor.after)

def mark (text : String) : Parser Token := do
  if (← peek).isMark text then advance else failure

def keyword (text : String) : Parser Token := do
  if (← peek).isKeyword text then advance else failure

def leaf (token : Token) (form : Form) : Node :=
  .mk form token.comments []

def identifier : Parser Node := do
  let token ← peek
  if token.kind = .name then return leaf (← advance) (.identifier token.text) else failure

def propertyName : Parser Node := do
  let token ← peek
  if token.kind = .name ∨ token.kind = .keyword then
    let _ ← advance
    return .of (.propertyName token.text) []
  else failure

/-- Ends a statement: with a semicolon, or where one may be left out. -/
def terminator : Parser Unit := do
  let token ← peek
  if token.isMark ";" ∨ token.kind = .terminator then
    let _ ← advance
  else if token.isMark "\x7d" ∨ token.kind = .ending ∨ token.afterBreak then
    pure ()
  else failure

def startsExpression (token : Token) : Bool :=
  match token.kind with
  | .name | .number | .string | .regex => true
  | .punctuator => ["(", "[", "\x7b", "+", "-", "!", "~", "++", "--"].contains token.text
  | .keyword =>
    ["function", "new", "delete", "void", "typeof", "this", "null", "true", "false"].contains
      token.text
  | _ => false

def statementPunctuators : List String :=
  ["(", ")", "[", "]", "\x7b", "\x7d", ";", ":", "+", "-", "!", "~", "++", "--"]

/-- Whether a token continues the expression behind a function and cannot start a statement. -/
def continuesFunction (token : Token) : Bool :=
  match token.kind with
  | .punctuator => !(statementPunctuators.contains token.text)
  | .keyword => token.text == "in" || token.text == "instanceof"
  | _ => false

def isAssignment (token : Token) : Bool :=
  token.kind == .punctuator &&
    ["=", "*=", "/=", "%=", "+=", "-=", "<<=", ">>=", ">>>=", "&=", "^=", "|="].contains token.text

def isUnary (token : Token) : Bool :=
  match token.kind with
  | .punctuator => ["++", "--", "+", "-", "~", "!"].contains token.text
  | .keyword => ["delete", "void", "typeof"].contains token.text
  | _ => false

/-- How tightly an operator between operands binds. Where `in` belongs to a loop head it is no
operator. -/
def strength? (allowIn : Bool) (token : Token) : Option Nat :=
  match token.kind with
  | .punctuator =>
    if token.text = "||" then some 1
    else if token.text = "&&" then some 2
    else if token.text = "|" then some 3
    else if token.text = "^" then some 4
    else if token.text = "&" then some 5
    else if ["==", "!=", "===", "!=="].contains token.text then some 6
    else if ["<", ">", "<=", ">="].contains token.text then some 7
    else if ["<<", ">>", ">>>"].contains token.text then some 8
    else if ["+", "-"].contains token.text then some 9
    else if ["*", "/", "%"].contains token.text then some 10
    else none
  | .keyword =>
    if token.text = "instanceof" || token.text = "in" && allowIn then some 7 else none
  | _ => none

def endsStatements (token : Token) : Bool :=
  token.kind == .ending || token.isMark "\x7d" || token.isKeyword "case"
    || token.isKeyword "default"

def propertyKey (token : Token) : Parser Node :=
  match token.kind with
  | .string => do return leaf (← advance) (.string token.text)
  | .number => do return leaf (← advance) (.number token.text)
  | _ => propertyName

def functionName : Parser (List Node) := do
  if (← peek).kind = .name then return [← identifier] else return []

def jump (form : Form) : Parser Node := do
  let token ← advance
  if (← peek).kind = .name then
    let label ← identifier
    terminator
    return .mk form token.comments [label]
  else
    terminator
    return .mk form token.comments []

mutual

def primary : Nat → Parser Node
  | 0 => failure
  | n + 1 => do
    let token ← peek
    match token.kind with
    | .name => return leaf (← advance) (.identifier token.text)
    | .number => return leaf (← advance) (.number token.text)
    | .string => return leaf (← advance) (.string token.text)
    | .regex => return leaf (← advance) (.regex token.text)
    | .keyword =>
      if token.text = "this" then return leaf (← advance) .thisValue
      else if token.text = "null" then return leaf (← advance) .nullValue
      else if token.text = "true" ∨ token.text = "false" then
        return leaf (← advance) (.boolean token.text)
      else if token.text = "function" then function n false
      else failure
    | .punctuator =>
      if token.text = "(" then
        let _ ← advance
        let inner ← expression n true
        let _ ← mark ")"
        -- parentheses around parentheses are dropped
        if inner.form = .group then return inner
        else return .mk .group token.comments [inner]
      else if token.text = "[" then
        let _ ← advance
        let items ← arrayItems n
        return .mk .array token.comments items
      else if token.text = "\x7b" then
        let _ ← advance
        let properties ← properties n
        return .mk .object token.comments properties
      else if token.text = "/" ∨ token.text = "/=" then
        let cursor ← get
        match cursor.here.rereadSlash? token with
        | some (regex, after) =>
          match start after with
          | some next =>
            set next
            return leaf regex (.regex regex.text)
          | none => failure
        | none => failure
      else failure
    | _ => failure

def arrayItems : Nat → Parser (List Node)
  | 0 => failure
  | n + 1 => do
    let token ← peek
    if token.isMark "]" then
      let _ ← advance
      return []
    else if token.isMark "," then
      let count ← commas n
      let items ← arrayItems n
      return .mk (.holes count) token.comments [] :: items
    else
      let item ← assignment n true
      if (← peek).isMark "]" then
        let _ ← advance
        return [item]
      else
        let _ ← mark ","
        let items ← arrayItems n
        return item :: items

def commas : Nat → Parser Nat
  | 0 => failure
  | n + 1 => do
    if (← peek).isMark "," then
      let _ ← advance
      let count ← commas n
      return count + 1
    else return 0

def properties : Nat → Parser (List Node)
  | 0 => failure
  | n + 1 => do
    if (← peek).isMark "\x7d" then
      let _ ← advance
      return []
    else
      let property ← property n
      if (← peek).isMark "\x7d" then
        let _ ← advance
        return [property]
      else
        let _ ← mark ","
        let rest ← properties n
        return property :: rest

def property : Nat → Parser Node
  | 0 => failure
  | n + 1 => do
    let token ← peek
    if token.kind = .accessor then
      let _ ← advance
      let name ← propertyName
      let _ ← mark "("
      if token.text = "get" then
        let _ ← mark ")"
        let body ← body n
        return .mk .getter token.comments (name :: body)
      else
        let parameter ← identifier
        let _ ← mark ")"
        let body ← body n
        return .mk .setter token.comments (name :: parameter :: body)
    else
      let key ← propertyKey token
      let colon ← mark ":"
      let value ← assignment n true
      return .mk .property colon.comments [key, value]

def body : Nat → Parser (List Node)
  | 0 => failure
  | n + 1 => do
    let _ ← mark "\x7b"
    let statements ← statements n
    let _ ← mark "\x7d"
    return statements

def function : Nat → Bool → Parser Node
  | 0, _ => failure
  | n + 1, declared => do
    let token ← keyword "function"
    let names ← functionName
    let _ ← mark "("
    let parameters ← parameters n
    let body ← body n
    return .mk (.function declared (!names.isEmpty) parameters.length) token.comments
      (names ++ parameters ++ body)

def parameters : Nat → Parser (List Node)
  | 0 => failure
  | n + 1 => do
    if (← peek).isMark ")" then
      let _ ← advance
      return []
    else
      let parameter ← identifier
      if (← peek).isMark "," then
        let _ ← advance
        let rest ← moreParameters n
        return parameter :: rest
      else
        let _ ← mark ")"
        return [parameter]

def moreParameters : Nat → Parser (List Node)
  | 0 => failure
  | n + 1 => do
    if (← peek).kind = .name then parameters n else failure

def arguments : Nat → Parser Node
  | 0 => failure
  | n + 1 => do
    let token ← mark "("
    if (← peek).isMark ")" then
      let _ ← advance
      return .mk .arguments token.comments []
    else
      let items ← argumentItems n
      return .mk .arguments token.comments items

def argumentItems : Nat → Parser (List Node)
  | 0 => failure
  | n + 1 => do
    let item ← assignment n true
    if (← peek).isMark "," then
      let _ ← advance
      let items ← argumentItems n
      return item :: items
    else
      let _ ← mark ")"
      return [item]

def operandStart : Nat → Parser Node
  | 0 => failure
  | n + 1 => do
    if (← peek).isKeyword "new" then
      let token ← advance
      let base ← operandStart n
      let callee ← operandTail n false base
      if (← peek).isMark "(" then
        let arguments ← arguments n
        return .mk .construct token.comments [callee, arguments]
      else return .mk .construct token.comments [callee]
    else primary n

def operandTail : Nat → Bool → Node → Parser Node
  | 0, _, _ => failure
  | n + 1, allowCalls, base => do
    let token ← peek
    if token.isMark "." then
      let _ ← advance
      let name ← propertyName
      operandTail n allowCalls (.mk .member token.comments [base, name])
    else if token.isMark "[" then
      let _ ← advance
      let index ← expression n true
      let _ ← mark "]"
      operandTail n allowCalls (.mk .element token.comments [base, index])
    else if allowCalls ∧ token.isMark "(" then
      let arguments ← arguments n
      operandTail n allowCalls (.of .call [base, arguments])
    else return base

def unary : Nat → Parser Node
  | 0 => failure
  | n + 1 => do
    let token ← peek
    if isUnary token then
      let _ ← advance
      let operand ← unary n
      return .mk (.unary token.text) token.comments [operand]
    else
      let base ← operandStart n
      let operand ← operandTail n true base
      let next ← peek
      if next.isMark "++" ∨ next.isMark "--" then
        let _ ← advance
        return .mk (.update next.text) next.comments [operand]
      else return operand

def binary : Nat → Bool → Nat → Parser Node
  | 0, _, _ => failure
  | n + 1, allowIn, weakest => do
    let left ← unary n
    binaryTail n allowIn weakest left

def binaryTail : Nat → Bool → Nat → Node → Parser Node
  | 0, _, _, _ => failure
  | n + 1, allowIn, weakest, left => do
    let token ← peek
    match strength? allowIn token with
    | some strength =>
      if weakest ≤ strength then
        let _ ← advance
        -- operators of the same strength associate to the left
        let right ← binary n allowIn (strength + 1)
        binaryTail n allowIn weakest (.mk (.binary token.text) token.comments [left, right])
      else return left
    | none => return left

def assignment : Nat → Bool → Parser Node
  | 0, _ => failure
  | n + 1, allowIn => do
    let left ← binary n allowIn 1
    let token ← peek
    if token.isMark "?" then
      let _ ← advance
      let consequent ← assignment n allowIn
      let _ ← mark ":"
      let alternative ← assignment n allowIn
      return .mk .choice token.comments [left, consequent, alternative]
    else if isAssignment token ∧ left.form.isLeftHandSide then
      let _ ← advance
      let right ← assignment n allowIn
      return .of (.assign token.text) [left, right]
    else return left

def expression : Nat → Bool → Parser Node
  | 0, _ => failure
  | n + 1, allowIn => do
    let first ← assignment n allowIn
    sequenceTail n allowIn first

def sequenceTail : Nat → Bool → Node → Parser Node
  | 0, _, _ => failure
  | n + 1, allowIn, left => do
    let token ← peek
    if token.isMark "," then
      let _ ← advance
      let right ← assignment n allowIn
      sequenceTail n allowIn (.mk .sequence token.comments [left, right])
    else return left

def statements : Nat → Parser (List Node)
  | 0 => failure
  | n + 1 => do
    if endsStatements (← peek) then return []
    else
      let statement ← statement n
      let rest ← statements n
      return statement :: rest

def statement : Nat → Parser Node
  | 0 => failure
  | n + 1 => do
    let token ← peek
    match token.kind with
    | .punctuator =>
      if token.text = "\x7b" then block n
      else if token.text = ";" then return leaf (← advance) .empty
      else expressionStatement n
    | .keyword =>
      if token.text = "var" then
        let _ ← advance
        let declarators ← declarators n true
        terminator
        return .mk .declarations token.comments declarators
      else if token.text = "if" then ifElse n
      else if token.text = "for" then forStatement n
      else if token.text = "while" then
        let _ ← advance
        let condition ← condition n
        let loop ← statement n
        return .mk .whileLoop token.comments [condition, loop]
      else if token.text = "do" then
        let _ ← advance
        let loop ← statement n
        let _ ← keyword "while"
        let condition ← condition n
        terminator
        return .mk .doLoop token.comments [condition, loop]
      else if token.text = "continue" then jump .continueTo
      else if token.text = "break" then jump .breakTo
      else if token.text = "return" then
        let _ ← advance
        let next ← peek
        if startsExpression next then
          let value ← expression n true
          terminator
          return .mk .returnWith token.comments [value]
        else
          terminator
          return .mk .returnWith token.comments []
      else if token.text = "throw" then
        let _ ← advance
        let value ← expression n true
        terminator
        return .mk .throwValue token.comments [value]
      else if token.text = "debugger" then
        let _ ← advance
        terminator
        return .mk .debuggerStop token.comments []
      else if token.text = "with" then
        let _ ← advance
        let object ← condition n
        let scope ← statement n
        return .mk .withScope token.comments [object, scope]
      else if token.text = "switch" then
        let _ ← advance
        let value ← condition n
        let _ ← mark "\x7b"
        let clauses ← clauses n true
        return .mk .switchOn token.comments [value, .of .clauses clauses]
      else if token.text = "try" then tryStatement n
      else if token.text = "function" then
        let cursor ← get
        let declared ← function n true
        -- without a name, or in front of an operator, the function is an expression and read again
        match declared.form with
        | .function _ true _ =>
          if continuesFunction (← peek) then
            set cursor
            expressionStatement n
          else return declared
        | _ =>
          set cursor
          expressionStatement n
      else expressionStatement n
    | .name =>
      let cursor ← get
      let label ← identifier
      let colon ← peek
      if colon.isMark ":" then
        let _ ← advance
        let labelled ← statement n
        return .mk .labelled colon.comments [label, labelled]
      else
        set cursor
        expressionStatement n
    | _ => expressionStatement n

def expressionStatement : Nat → Parser Node
  | 0 => failure
  | n + 1 => do
    let value ← expression n true
    match value.form with
    | .function .. => failure
    | _ =>
      terminator
      return .of .expression [value]

def block : Nat → Parser Node
  | 0 => failure
  | n + 1 => do
    let token ← mark "\x7b"
    let statements ← statements n
    let _ ← mark "\x7d"
    return .mk .block token.comments statements

def condition : Nat → Parser Node
  | 0 => failure
  | n + 1 => do
    let _ ← mark "("
    let value ← expression n true
    let _ ← mark ")"
    return value

def declarators : Nat → Bool → Parser (List Node)
  | 0, _ => failure
  | n + 1, allowIn => do
    let name ← identifier
    let value ← initializer n allowIn
    let declarator := Node.of .declarator (name :: value)
    moreDeclarators n allowIn declarator

def moreDeclarators : Nat → Bool → Node → Parser (List Node)
  | 0, _, _ => failure
  | n + 1, allowIn, declarator => do
    if (← peek).isMark "," then
      let _ ← advance
      let rest ← declarators n allowIn
      return declarator :: rest
    else return [declarator]

def initializer : Nat → Bool → Parser (List Node)
  | 0, _ => failure
  | n + 1, allowIn => do
    if (← peek).isMark "=" then
      let _ ← advance
      let value ← assignment n allowIn
      return [value]
    else return []

def ifElse : Nat → Parser Node
  | 0 => failure
  | n + 1 => do
    let token ← keyword "if"
    let condition ← condition n
    let consequent ← statement n
    if (← peek).isKeyword "else" then
      let _ ← advance
      let alternative ← statement n
      return .mk .ifElse token.comments [condition, consequent, alternative]
    else return .mk .ifElse token.comments [condition, consequent]

def forStatement : Nat → Parser Node
  | 0 => failure
  | n + 1 => do
    let token ← keyword "for"
    let opening ← mark "("
    let first ← peek
    if first.isMark ";" then
      -- a missing part stands where the token before it stands
      forRest n token (leaf opening .empty)
    else if first.isKeyword "var" then
      let _ ← advance
      let name ← identifier
      let value ← initializer n false
      if (← peek).isKeyword "in" then
        forInRest n token (.mk .headDeclarator first.comments (name :: value))
      else
        let declarators ← moreDeclarators n false (.of .declarator (name :: value))
        forRest n token (.mk .declarations first.comments declarators)
    else
      let value ← expression n false
      if (← peek).isKeyword "in" ∧ value.form.isLeftHandSide then forInRest n token value
      else forRest n token (.of .expression [value])

def forInRest : Nat → Token → Node → Parser Node
  | 0, _, _ => failure
  | n + 1, token, target => do
    let _ ← keyword "in"
    let object ← expression n true
    let _ ← mark ")"
    let loop ← statement n
    return .mk .forIn token.comments [target, object, loop]

def forRest : Nat → Token → Node → Parser Node
  | 0, _, _ => failure
  | n + 1, token, first => do
    let semicolon ← mark ";"
    let second ← forCondition n semicolon
    let _ ← mark ";"
    let third ← forCount n
    let _ ← mark ")"
    let loop ← statement n
    return .mk .forLoop token.comments (first :: second :: third ++ [loop])

def forCondition : Nat → Token → Parser Node
  | 0, _ => failure
  | n + 1, semicolon => do
    if (← peek).isMark ";" then return leaf semicolon .empty
    else
      let value ← expression n true
      return .of .expression [value]

def forCount : Nat → Parser (List Node)
  | 0 => failure
  | n + 1 => do
    if (← peek).isMark ")" then return []
    else
      let value ← expression n true
      return [value]

def clauses : Nat → Bool → Parser (List Node)
  | 0, _ => failure
  | n + 1, allowDefault => do
    let token ← peek
    if token.isMark "\x7d" then
      let _ ← advance
      return []
    else if token.isKeyword "case" then
      let _ ← advance
      let value ← expression n true
      let _ ← mark ":"
      let statements ← statements n
      let rest ← clauses n allowDefault
      return .mk .caseOf token.comments (value :: statements) :: rest
    else if allowDefault ∧ token.isKeyword "default" then
      let _ ← advance
      let _ ← mark ":"
      let statements ← statements n
      let rest ← clauses n false
      return .mk .defaultCase token.comments statements :: rest
    else failure

def tryStatement : Nat → Parser Node
  | 0 => failure
  | n + 1 => do
    let token ← keyword "try"
    let block ← block n
    let handler ← catchClause n
    let cleanup ← finallyClause n
    if handler.isEmpty ∧ cleanup.isEmpty then failure
    else return .mk .tryBlock token.comments (block :: handler ++ cleanup)

def catchClause : Nat → Parser (List Node)
  | 0 => failure
  | n + 1 => do
    if (← peek).isKeyword "catch" then
      let token ← advance
      let _ ← mark "("
      let binding ← identifier
      let _ ← mark ")"
      let block ← block n
      return [.mk .catchClause token.comments [binding, block]]
    else return []

def finallyClause : Nat → Parser (List Node)
  | 0 => failure
  | n + 1 => do
    if (← peek).isKeyword "finally" then
      let token ← advance
      let block ← block n
      return [.mk .finallyClause token.comments [block]]
    else return []

end

/-- The levels that are enough for a program of the given length: no step of the grammar descends
sixteen levels without taking a token. -/
def levels (length : Nat) : Nat :=
  16 * (length + 2)

def program (n : Nat) : Parser Node := do
  let statements ← statements n
  if (← peek).kind = .ending then return .program statements else failure

end Parser

namespace Node

def parse? (text : String) : Option Node := do
  let characters := text.toList
  let cursor ← Parser.start { rest := characters }
  let (node, _) ← (Parser.program (Parser.levels characters.length)).run cursor
  pure node

end Node

end ScriptModules.Tree
