namespace ScriptModules.Tree

/-- What a node is. The form fixes what the children stand for, but any node may stand in any place;
parts that vary in number are told apart by the form or by the number of children. -/
inductive Form where
  | program
  | block
  | clauses
  | declarations
  | declarator
  /-- The binding of a `for`-`in` head that starts with `var`, and its value if given. -/
  | headDeclarator
  | expression
  | empty
  | ifElse
  /-- The condition and the body of a `do` loop, in this order. -/
  | doLoop
  | whileLoop
  /-- The two first parts of a loop head, the third part if given, and the body. -/
  | forLoop
  | forIn
  | continueTo
  | breakTo
  | returnWith
  | throwValue
  | debuggerStop
  | withScope
  | labelled
  | switchOn
  | caseOf
  | defaultCase
  /-- `try`: a block, then the `catch` and `finally` clauses that are given. -/
  | tryBlock
  | catchClause
  | finallyClause
  /-- A function, declared or as an expression: its name if it has one, as many parameters as
  stated, and the statements. -/
  | function (declared named : Bool) (parameters : Nat)
  | identifier (name : String)
  | propertyName (name : String)
  | string (text : String)
  | number (text : String)
  | boolean (text : String)
  | nullValue
  | regex (text : String)
  | thisValue
  | array
  /-- Consecutive commas of an array literal that stand for missing items. -/
  | holes (count : Nat)
  | object
  | property
  | getter
  | setter
  | construct
  | call
  | arguments
  | member
  | element
  | assign (operator : String)
  | unary (operator : String)
  | update (operator : String)
  | binary (operator : String)
  | choice
  | sequence
  | group
deriving DecidableEq, Repr

inductive Node where
  | mk (form : Form) (comments : List String) (children : List Node)
deriving Repr

namespace Node

def form : Node → Form
  | mk form _ _ => form

def comments : Node → List String
  | mk _ comments _ => comments

def children : Node → List Node
  | mk _ _ children => children

def of (form : Form) (children : List Node) : Node :=
  mk form [] children

def withComments : Node → List String → Node
  | mk form _ children, comments => mk form comments children

@[simp] theorem form_mk (f : Form) (cs : List String) (ns : List Node) : (mk f cs ns).form = f :=
  rfl

@[simp] theorem comments_mk (f : Form) (cs : List String) (ns : List Node) :
    (mk f cs ns).comments = cs := rfl

@[simp] theorem children_mk (f : Form) (cs : List String) (ns : List Node) :
    (mk f cs ns).children = ns := rfl

mutual

def size : Node → Nat
  | mk _ _ children => sizes children + 1

def sizes : List Node → Nat
  | [] => 0
  | node :: nodes => size node + sizes nodes

end

mutual

def bare : Node → Node
  | mk form _ children => mk form [] (bares children)

def bares : List Node → List Node
  | [] => []
  | node :: nodes => bare node :: bares nodes

end

theorem bares_eq_map (nodes : List Node) : bares nodes = nodes.map bare := by
  induction nodes with
  | nil => rfl
  | cons node nodes ih => simp [bares, ih]

mutual

def decideEq : (a b : Node) → Decidable (a = b)
  | mk f c as, mk f' c' bs =>
    if h : f = f' ∧ c = c' then
      match decideEqs as bs with
      | isTrue h' => isTrue (by rw [h.1, h.2, h'])
      | isFalse h' => isFalse (by intro e; injection e; contradiction)
    else isFalse (by intro e; injection e with e₁ e₂; exact h ⟨e₁, e₂⟩)

def decideEqs : (as bs : List Node) → Decidable (as = bs)
  | [], [] => isTrue rfl
  | [], _ :: _ => isFalse (by simp)
  | _ :: _, [] => isFalse (by simp)
  | a :: as, b :: bs =>
    match decideEq a b, decideEqs as bs with
    | isTrue h, isTrue h' => isTrue (by rw [h, h'])
    | isFalse h, _ => isFalse (by simp [h])
    | _, isFalse h => isFalse (by simp [h])

end

instance : DecidableEq Node := decideEq

def identifier (name : String) : Node :=
  of (.identifier name) []

def program (statements : List Node) : Node :=
  of .program statements

end Node

namespace Form

def typeName : Form → String
  | program => "ES5Program"
  | block => "Block"
  | clauses => "CaseBlock"
  | declarations => "VarStatement"
  | declarator => "VarDecl"
  | headDeclarator => "VarDeclNoIn"
  | expression => "ExprStatement"
  | empty => "EmptyStatement"
  | ifElse => "If"
  | doLoop => "DoWhile"
  | whileLoop => "While"
  | forLoop => "For"
  | forIn => "ForIn"
  | continueTo => "Continue"
  | breakTo => "Break"
  | returnWith => "Return"
  | throwValue => "Throw"
  | debuggerStop => "Debugger"
  | withScope => "With"
  | labelled => "Label"
  | switchOn => "Switch"
  | caseOf => "Case"
  | defaultCase => "Default"
  | tryBlock => "Try"
  | catchClause => "Catch"
  | finallyClause => "Finally"
  | function declared _ _ => if declared then "FuncDecl" else "FuncExpr"
  | identifier _ => "Identifier"
  | propertyName _ => "PropIdentifier"
  | string _ => "String"
  | number _ => "Number"
  | boolean _ => "Boolean"
  | nullValue => "Null"
  | regex _ => "Regex"
  | thisValue => "This"
  | array => "Array"
  | holes _ => "Elision"
  | object => "Object"
  | property => "Assign"
  | getter => "GetPropAssign"
  | setter => "SetPropAssign"
  | construct => "NewExpr"
  | call => "FunctionCall"
  | arguments => "Arguments"
  | member => "DotAccessor"
  | element => "BracketAccessor"
  | assign _ => "Assign"
  | unary _ => "UnaryExpr"
  | update _ => "PostfixExpr"
  | binary _ => "BinOp"
  | choice => "Conditional"
  | sequence => "Comma"
  | group => "GroupingOp"

/-- The text that a form carries: an operator, a name, or a literal as written. -/
inductive Detail where
  | none
  | text (value : String)
  | count (value : Nat)
deriving DecidableEq, Repr

def detail : Form → Detail
  | empty => .text ";"
  | debuggerStop => .text "debugger"
  | identifier name => .text name
  | propertyName name => .text name
  | string text => .text text
  | number text => .text text
  | boolean text => .text text
  | nullValue => .text "null"
  | regex text => .text text
  | holes count => .count count
  | property => .text ":"
  | assign operator => .text operator
  | unary operator => .text operator
  | update operator => .text operator
  | binary operator => .text operator
  | _ => .none

/-- The forms that may stand on the left of an assignment: everything that needs no parentheses
there, calls and literals included. -/
def isLeftHandSide : Form → Bool
  | identifier _ | string _ | number _ | boolean _ | nullValue | regex _ | thisValue | array
  | object | construct | call | member | element | group => true
  | function declared _ _ => !declared
  | _ => false

end Form

def Form.name? : Form → Option String
  | .identifier name => some name
  | .propertyName name => some name
  | _ => none

end ScriptModules.Tree
