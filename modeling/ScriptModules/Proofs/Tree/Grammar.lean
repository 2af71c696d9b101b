import ScriptModules.Proofs.Tree.Names

/-!
# Grammatical trees

A tree is grammatical if the children of every node stand in the places of a production of its form
(`Node.Conforms`). No parentheses are implied: the productions say how tightly each operand is joined,
what is assigned to, what a statement may start with and where no `in` may stand outside brackets.

What a node is to the node around it is its phrase. The productions speak of phrases alone, so a node
can be replaced without a look at what is below it.

A declared function counts as a statement anywhere.
-/

namespace ScriptModules.Tree

/-! ## Phrases -/

abbrev Level := Nat

namespace Level

def sequence : Level := 0

def assignment : Level := 1

def choice : Level := 2

def binary (strength : Nat) : Level := 3 + strength

def unary : Level := 13

def update : Level := 14

/-- The level of what can be assigned to; at this level itself is `new` without arguments. -/
def leftHandSide : Level := 15

def call : Level := 16

/-- The level of all that needs no parentheses anywhere: accesses, `new` with arguments, and single
tokens or brackets. -/
def member : Level := 17

end Level

def binaryOperators : List (List String) :=
  [["||"], ["&&"], ["|"], ["^"], ["&"], ["==", "!=", "===", "!=="],
   ["<", ">", "<=", ">=", "instanceof", "in"], ["<<", ">>", ">>>"], ["+", "-"], ["*", "/", "%"]]

def assignmentOperators : List String :=
  ["=", "*=", "/=", "%=", "+=", "-=", "<<=", ">>=", ">>>=", "&=", "^=", "|="]

def binaryStrength? (operator : String) : Option Nat :=
  binaryOperators.findIdx? fun operators => operators.contains operator

/-- What a node is: an expression at a level, or a part of another kind. A name and a literal that can
be a key are parts, since there are places for them alone. -/
inductive Role where
  | operand (level : Level)
  | part (form : Form)
deriving DecidableEq, Repr

namespace Role

def level? : Role → Option Level
  | operand level => some level
  | part (.identifier _) | part (.string _) | part (.number _) => some Level.member
  | part _ => none

def isAtLeast (role : Role) (weakest : Level) : Bool :=
  role.level?.any fun level => weakest ≤ level

theorem isAtLeast_mono {role : Role} {weaker weakest : Level} (le : weaker ≤ weakest)
    (tight : role.isAtLeast weakest = true) : role.isAtLeast weaker = true := by
  obtain ⟨level, known, bound⟩ := (Option.any_eq_true _ _).mp tight
  exact (Option.any_eq_true _ _).mpr ⟨level, known,
    decide_eq_true (Nat.le_trans le (of_decide_eq_true bound))⟩

end Role

/-- A node as seen from the node around it. -/
structure Phrase where
  role : Role
  opens : Bool
  exposesIn : Bool
deriving DecidableEq, Repr

namespace Form

def isStatement : Form → Bool
  | block | declarations | expression | empty | ifElse | doLoop | whileLoop | forLoop | forIn
  | continueTo | breakTo | returnWith | throwValue | debuggerStop | withScope | labelled | switchOn
  | tryBlock => true
  | function declared _ _ => declared
  | _ => false

/-- The level of an access. An access to what a call returns is no callee of `new`. -/
def accessLevel (parts : List Phrase) : Level :=
  if parts.head?.any fun base => base.role = .operand Level.call then Level.call else Level.member

def role (form : Form) (parts : List Phrase) : Role :=
  match form with
  | sequence => .operand Level.sequence
  | assign _ => .operand Level.assignment
  | choice => .operand Level.choice
  | binary operator => .operand (Level.binary ((binaryStrength? operator).getD 0))
  | unary _ => .operand Level.unary
  | update _ => .operand Level.update
  | construct => .operand (if parts.length = 1 then Level.leftHandSide else Level.member)
  | call => .operand Level.call
  | member | element => .operand (accessLevel parts)
  | boolean _ | nullValue | regex _ | thisValue | array | object | group | function false _ _ =>
    .operand Level.member
  | _ => .part form

theorem accessLevel_le (parts : List Phrase) : accessLevel parts ≤ Level.member := by
  unfold accessLevel
  split <;> decide

theorem role_access {form : Form} (access : form = .member ∨ form = .element)
    (parts : List Phrase) : form.role parts = .operand (accessLevel parts) := by
  rcases access with rfl | rfl <;> rfl

def opens (form : Form) (parts : List Phrase) : Bool :=
  match form with
  | object | function false _ _ => true
  | sequence | assign _ | choice | binary _ | update _ | call | member | element | expression =>
    parts.head?.any Phrase.opens
  | _ => false

def exposesIn (form : Form) (parts : List Phrase) : Bool :=
  match form with
  | binary operator => operator == "in" || parts.any Phrase.exposesIn
  | sequence | assign _ | choice | unary _ | update _ | construct | call | member
  | expression | declarations | declarator | headDeclarator => parts.any Phrase.exposesIn
  | element => parts.head?.any Phrase.exposesIn
  | _ => false

def phrase (form : Form) (parts : List Phrase) : Phrase where
  role := form.role parts
  opens := form.opens parts
  exposesIn := form.exposesIn parts

end Form

/-! ## Productions -/

inductive Place where
  | operand (weakest : Level)
  | callee
  | beginning
  | condition
  | target
  | statement
  | name
  | key
  | entryKey
  | item
  | entry
  | part (form : Form)
deriving DecidableEq, Repr

def Place.admits : Place → Phrase → Bool
  | operand weakest, phrase => phrase.role.isAtLeast weakest
  | callee, phrase =>
    phrase.role.level? = some Level.member || phrase.role.level? = some Level.leftHandSide
  | beginning, phrase =>
    [.part .expression, .part .declarations, .part .empty].contains phrase.role && !phrase.exposesIn
  | condition, phrase => [.part .expression, .part .empty].contains phrase.role
  | target, phrase =>
    (phrase.role.isAtLeast Level.leftHandSide || phrase.role = .part .headDeclarator)
      && !phrase.exposesIn
  | statement, phrase =>
    (match phrase.role with
      | .part form => form.isStatement
      | _ => false) && !phrase.opens
  | name, phrase => (phrase.role matches .part (.identifier _))
  | key, phrase => (phrase.role matches .part (.propertyName _))
  | entryKey, phrase =>
    (phrase.role matches .part (.propertyName _) | .part (.string _) | .part (.number _))
  | item, phrase =>
    phrase.role.isAtLeast Level.assignment || (phrase.role matches .part (.holes _))
  | entry, phrase => [.part .property, .part .getter, .part .setter].contains phrase.role
  | part form, phrase => phrase.role = .part form

def Place.admitsAll : List Place → List Phrase → Bool
  | [], [] => true
  | place :: places, phrase :: phrases => place.admits phrase && admitsAll places phrases
  | _, _ => false

theorem Place.admitsAll_replicate (place : Place) (phrases : List Phrase) :
    admitsAll (List.replicate phrases.length place) phrases = phrases.all place.admits := by
  induction phrases with
  | nil => rfl
  | cons phrase phrases ih => rw [List.length_cons, List.replicate_succ, admitsAll, ih, List.all_cons]

namespace Form

open Place (operand statement name key part)

/-- The places for the children of a node with a form: the alternatives, given the number of
children. -/
def productions (form : Form) (count : Nat) : List (List Place) :=
  let all (place : Place) : List Place := List.replicate count place
  let value : Place := operand Level.sequence
  match form with
  | program | block => [all statement]
  | clauses =>
    all (part caseOf) :: (List.range count).map fun index =>
      (all (part caseOf)).set index (part defaultCase)
  | declarations => if count = 0 then [] else [all (part declarator)]
  | declarator | headDeclarator => [[name], [name, operand Level.assignment]]
  | expression | throwValue | group => [[value]]
  | empty | debuggerStop | identifier _ | propertyName _ | string _ | number _ | boolean _
  | nullValue | regex _ | thisValue | holes _ => [[]]
  | ifElse => [[value, statement], [value, statement, statement]]
  | doLoop | whileLoop | withScope => [[value, statement]]
  | forLoop => [[.beginning, .condition, statement], [.beginning, .condition, value, statement]]
  | forIn => [[.target, value, statement]]
  | continueTo | breakTo => [[], [name]]
  | returnWith => [[], [value]]
  | labelled => [[name, statement]]
  | switchOn => [[value, part clauses]]
  | caseOf => [value :: List.replicate (count - 1) statement]
  | defaultCase => [all statement]
  | tryBlock =>
    [[part block, part catchClause], [part block, part finallyClause],
      [part block, part catchClause, part finallyClause]]
  | catchClause => [[name, part block]]
  | finallyClause => [[part block]]
  | function declared named parameters =>
    if declared && !named then []
    else
      let names := List.replicate (named.toNat + parameters) name
      [names ++ List.replicate (count - names.length) statement]
  | array => [all .item]
  | object => [all .entry]
  | property => [[.entryKey, operand Level.assignment]]
  | getter => [.entryKey :: List.replicate (count - 1) statement]
  | setter => [.entryKey :: name :: List.replicate (count - 2) statement]
  | construct => [[.callee], [operand Level.member, part arguments]]
  | call => [[operand Level.call, part arguments]]
  | arguments => [all (operand Level.assignment)]
  | member => [[operand Level.call, key]]
  | element => [[operand Level.call, value]]
  | assign operator =>
    if assignmentOperators.contains operator then
      [[operand Level.leftHandSide, operand Level.assignment]]
    else []
  | unary operator =>
    if ["++", "--"].contains operator then [[operand Level.leftHandSide]]
    else if ["+", "-", "~", "!", "delete", "void", "typeof"].contains operator then
      [[operand Level.unary]]
    else []
  | update operator => if ["++", "--"].contains operator then [[operand Level.leftHandSide]] else []
  | binary operator =>
    (binaryStrength? operator).toList.map fun strength =>
      [operand (Level.binary strength), operand (Level.binary strength + 1)]
  | choice => [[operand (Level.binary 0), operand Level.assignment, operand Level.assignment]]
  | sequence => [[value, operand Level.assignment]]

def accepts (form : Form) (parts : List Phrase) : Bool :=
  (form.productions parts.length).any fun places => Place.admitsAll places parts

end Form

namespace Node

mutual

def phrase : Node → Phrase
  | mk form _ children => form.phrase (phrases children)

def phrases : List Node → List Phrase
  | [] => []
  | node :: nodes => phrase node :: phrases nodes

end

mutual

def conforms : Node → Bool
  | mk form _ children => form.accepts (phrases children) && conformAll children

def conformAll : List Node → Bool
  | [] => true
  | node :: nodes => conforms node && conformAll nodes

end

def Conforms (node : Node) : Prop :=
  node.conforms = true

theorem phrases_eq_map (nodes : List Node) : phrases nodes = nodes.map phrase := by
  induction nodes with
  | nil => rfl
  | cons node nodes ih => simp [phrases, ih]

theorem conformAll_iff (nodes : List Node) :
    conformAll nodes = true ↔ ∀ node ∈ nodes, node.Conforms := by
  induction nodes with
  | nil => simp [conformAll]
  | cons node nodes ih => simp [conformAll, ih, Conforms]

theorem conforms_mk_iff {form : Form} {comments : List String} {children : List Node} :
    (mk form comments children).Conforms ↔
      form.accepts (children.map phrase) = true ∧ ∀ child ∈ children, child.Conforms := by
  rw [Conforms, conforms, Bool.and_eq_true, conformAll_iff, phrases_eq_map]

theorem phrase_mk (form : Form) (comments : List String) (children : List Node) :
    (mk form comments children).phrase = form.phrase (children.map phrase) := by
  rw [phrase, phrases_eq_map]

theorem role_phrase (node : Node) :
    node.phrase.role = node.form.role (node.children.map phrase) := by
  obtain ⟨form, comments, children⟩ := node
  rw [phrase_mk]
  rfl

theorem Conforms.at? {root node : Node} {p : Position} (conforms : root.Conforms)
    (here : root.at? p = some node) : node.Conforms := by
  induction p generalizing root with
  | nil =>
      rw [at?_nil] at here
      cases here
      exact conforms
  | cons index p ih =>
      obtain ⟨form, comments, children⟩ := root
      rw [at?_cons] at here
      obtain ⟨child, inside, here⟩ := Option.bind_eq_some_iff.mp here
      exact ih ((conforms_mk_iff.mp conforms).2 child (List.mem_of_getElem? inside)) here

theorem accepts_replicate {form : Form} {place : Place}
    (only : ∀ count, form.productions count = [List.replicate count place]) (nodes : List Node) :
    form.accepts (nodes.map phrase) = true ↔ ∀ node ∈ nodes, place.admits node.phrase = true := by
  rw [Form.accepts, only, List.any_cons, List.any_nil, Bool.or_false, Place.admitsAll_replicate,
    List.all_map, List.all_eq_true]
  rfl

/-! ## Comments -/

mutual

theorem phrase_bare : ∀ node : Node, node.bare.phrase = node.phrase
  | mk form comments children => by
    rw [bare, phrase, phrase, phrases_bares children]

theorem phrases_bares : ∀ nodes : List Node, phrases (bares nodes) = phrases nodes
  | [] => rfl
  | node :: nodes => by
    rw [bares, phrases, phrases, phrase_bare node, phrases_bares nodes]

end

mutual

theorem conforms_bare : ∀ node : Node, node.bare.conforms = node.conforms
  | mk form comments children => by
    rw [bare, conforms, conforms, phrases_bares, conformAll_bares children]

theorem conformAll_bares : ∀ nodes : List Node, conformAll (bares nodes) = conformAll nodes
  | [] => rfl
  | node :: nodes => by
    rw [bares, conformAll, conformAll, conforms_bare node, conformAll_bares nodes]

end

end Node

end ScriptModules.Tree
