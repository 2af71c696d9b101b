import ScriptModules.Tree.Layout
import ScriptModules.Tree.Node

namespace ScriptModules.Tree

namespace Piece

def separate (separator : List Piece) : List (List Piece) → List Piece
  | [] => []
  | [part] => part
  | part :: parts => part ++ separator ++ separate separator parts

def lines (parts : List (List Piece)) : List Piece :=
  separate [mark .newline] parts

def listed (parts : List (List Piece)) : List Piece :=
  separate [text ",", mark .space] parts

def braced (statements : List (List Piece)) : List Piece :=
  [mark .openBrace, mark .indent, mark .newline] ++ lines statements
    ++ [mark .dedent, mark .optionalNewline, mark .closeBrace]

def indented (statements : List (List Piece)) : List Piece :=
  [mark .indent, mark .newline] ++ lines statements ++ [mark .dedent]

def parenthesised (pieces : List Piece) : List Piece :=
  text "(" :: pieces ++ [text ")"]

def simple (word : String) (gap : Mark) (parts : List (List Piece)) : List Piece :=
  text word :: parts.flatMap (mark gap :: ·) ++ [mark .semicolon]

end Piece

structure Part where
  form : Form
  pieces : List Piece

namespace Part

def items : List Part → List Piece
  | [] => []
  | [part] => part.pieces
  | part :: next :: parts =>
    part.pieces ++ (if part.form matches .holes _ then [] else [.text ","])
      ++ (if next.form matches .holes _ then [] else [.mark .space]) ++ items (next :: parts)

end Part

open Piece in
def Form.arrange (form : Form) (parts : List Part) : List Piece :=
  let pieces := parts.map Part.pieces
  match form, pieces with
  | .program, statements => lines statements ++ [mark .optionalNewline]
  | .block, statements => braced statements
  | .clauses, cases => braced cases
  | .declarations, declarators =>
    [text "var", mark .space] ++ listed declarators ++ [mark .semicolon]
  | .declarator, name :: value =>
    name ++ value.flatMap ([mark .space, text "=", mark .space] ++ ·)
  | .headDeclarator, name :: value =>
    text "var " :: name ++ value.flatMap ([mark .space, text "=", mark .space] ++ ·)
  | .expression, value => value.flatten ++ [mark .semicolon]
  | .empty, _ => [mark .semicolon]
  | .ifElse, condition :: consequent :: alternative =>
    [text "if", mark .space] ++ parenthesised condition ++ mark .space :: consequent
      ++ alternative.flatMap ([mark .newline, text "else", mark .space] ++ ·)
  | .doLoop, [condition, body] =>
    [text "do", mark .space] ++ body ++ [mark .space, text "while", mark .space]
      ++ parenthesised condition ++ [mark .semicolon]
  | .whileLoop, [condition, body] =>
    [text "while", mark .space] ++ parenthesised condition ++ mark .headSpace :: body
  | .forLoop, [first, second, body] =>
    [text "for", mark .space]
      ++ parenthesised (first ++ mark .headSpace :: second ++ [mark .headSpace])
      ++ mark .space :: body
  | .forLoop, first :: second :: third :: body =>
    [text "for", mark .space]
      ++ parenthesised (first ++ mark .headSpace :: second ++ mark .headSpace :: third)
      ++ mark .space :: body.flatten
  | .forIn, [target, source, body] =>
    [text "for", mark .space]
      ++ parenthesised (target ++ [mark .space, text "in", mark .space] ++ source)
      ++ mark .space :: body
  | .continueTo, label => simple "continue" .space label
  | .breakTo, label => simple "break" .space label
  | .returnWith, value => simple "return" .space value
  | .throwValue, value => simple "throw" .space value
  | .debuggerStop, _ => [text "debugger", mark .semicolon]
  | .withScope, [scope, body] =>
    [text "with", mark .space] ++ parenthesised scope ++ mark .space :: body
  | .labelled, [label, body] => label ++ [text ":", mark .space] ++ body
  | .switchOn, [value, cases] =>
    [text "switch", mark .space] ++ parenthesised value ++ mark .space :: cases
  | .caseOf, value :: statements =>
    [text "case", mark .space] ++ value ++ text ":" :: indented statements
  | .defaultCase, statements => [text "default", text ":"] ++ indented statements
  | .tryBlock, tried :: handlers =>
    [text "try", mark .space] ++ tried ++ handlers.flatMap (mark .newline :: ·)
  | .catchClause, [binding, body] =>
    [text "catch", mark .space] ++ parenthesised binding ++ mark .space :: body
  | .finallyClause, body => [text "finally", mark .space] ++ body.flatten
  | .function _ named parameters, parts =>
    let names := if named then parts.take 1 else []
    let rest := if named then parts.drop 1 else parts
    text "function" :: names.flatMap (mark .space :: ·)
      ++ parenthesised (listed (rest.take parameters))
      ++ mark .space :: braced (rest.drop parameters)
  | .identifier name, _ => [text name]
  | .propertyName name, _ => [text name]
  | .string value, _ => [text value]
  | .number value, _ => [text value]
  | .boolean value, _ => [text value]
  | .nullValue, _ => [text "null"]
  | .regex value, _ => [text value]
  | .thisValue, _ => [text "this"]
  | .array, _ => text "[" :: Part.items parts ++ [text "]"]
  | .holes count, _ => [text (Text.copies count ",")]
  | .object, [] => [text "\x7b", text "\x7d"]
  | .object, properties =>
    [text "\x7b", mark .indent, mark .newline]
      ++ separate [text ",", mark .newline] properties
      ++ [mark .dedent, mark .newline, text "\x7d"]
  | .property, [key, value] => key ++ [mark .optionalSpace, text ":", mark .space] ++ value
  | .getter, name :: statements =>
    [text "get", mark .space] ++ name ++ parenthesised [] ++ mark .space :: braced statements
  | .setter, name :: parameter :: statements =>
    [text "set", mark .space] ++ name ++ parenthesised parameter
      ++ mark .space :: braced statements
  | .construct, callee => [text "new", mark .space] ++ callee.flatten
  | .call, parts => parts.flatten
  | .arguments, items => parenthesised (listed items)
  | .member, [base, name] => base ++ text "." :: name
  | .element, [base, index] => base ++ text "[" :: index ++ [text "]"]
  | .assign operator, [left, right] =>
    left ++ [mark .optionalSpace, text operator, mark .space] ++ right
  | .unary operator, [operand] => [text operator, mark .optionalSpace] ++ operand
  | .update operator, [operand] => operand ++ [text operator]
  | .binary operator, [left, right] =>
    left ++ [mark .space, text operator, mark .space] ++ right
  | .choice, [condition, consequent, alternative] =>
    condition ++ [mark .space, text "?", mark .space] ++ consequent
      ++ [mark .space, text ":", mark .space] ++ alternative
  | .sequence, [left, right] => left ++ [text ",", mark .space] ++ right
  | .group, inner => parenthesised inner.flatten
  | _, pieces => pieces.flatten

/-- The forms that never show the comments they carry. -/
def Form.hidesComments : Form → Bool
  | .program | .clauses => true
  | _ => false

namespace Node

mutual

def pieces : Node → List Piece
  | mk form comments children =>
    (if form.hidesComments then []
      else comments.flatMap fun comment => [.text comment, .mark .newline])
      ++ form.arrange (parts children)

def parts : List Node → List Part
  | [] => []
  | child :: children => ⟨child.form, pieces child⟩ :: parts children

end

def render (node : Node) (indent : String) : String :=
  Layout.render indent node.pieces

end Node

end ScriptModules.Tree
