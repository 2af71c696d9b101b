import Mathlib.Data.List.Forall2
import ScriptModules.Tree.Parser

/-!
# Parsing of tokens that are spelled differently

A parser looks at the kinds of tokens and at the texts of marks and reserved words, never at the
text of a name or of a string. So a program that differs from another in such texts only has the
same tree up to these texts (`program_simulates`). The relation between the texts is left open:
with the equality of good texts it says what names a tree can hold, with a table of names it gives
the tree of a text from the tree of an example.

The two parsers may descend different numbers of levels; the second has to have at least as many.
-/

namespace ScriptModules.Tree

/-- How the texts of tokens of a kind correspond. -/
abbrev Spelling := TokenKind → String → String → Prop

def Spelling.Plain (spelled : Spelling) : Prop :=
  ∀ kind text other, spelled kind text other → kind ≠ .name → kind ≠ .string → other = text

structure Token.Alike (spelled : Spelling) (token other : Token) : Prop where
  kind : other.kind = token.kind
  text : spelled token.kind token.text other.text
  comments : other.comments = token.comments
  afterBreak : other.afterBreak = token.afterBreak

inductive Form.Alike (spelled : Spelling) : Form → Form → Prop
  | identifier {name other : String} (same : spelled .name name other) :
      Alike spelled (.identifier name) (.identifier other)
  | propertyName {kind : TokenKind} {name other : String} (word : kind = .name ∨ kind = .keyword)
      (same : spelled kind name other) : Alike spelled (.propertyName name) (.propertyName other)
  | string {text other : String} (same : spelled .string text other) :
      Alike spelled (.string text) (.string other)
  | plain {form : Form} (unnamed : form.name? = none) (unquoted : ∀ text, form ≠ .string text) :
      Alike spelled form form

/-- The children that a form comes with: names have none, an access has an object and a name or an
expression, an assignment has two sides. -/
def Form.Fits : Form → List Node → Prop
  | .identifier _, children => children = []
  | .propertyName _, children => children = []
  | .member, children =>
    ∃ base key name, children = [base, key] ∧ key.form = .propertyName name
  | .element, children => ∃ base key, children = [base, key]
  | .assign _, children => ∃ left right, children = [left, right]
  | _, _ => True

inductive Node.Alike (spelled : Spelling) : Node → Node → Prop
  | mk {form other : Form} {comments : List String} {children others : List Node}
      (forms : form.Alike spelled other) (fits : form.Fits children)
      (below : List.Forall₂ (Node.Alike spelled) children others) :
      Alike spelled (.mk form comments children) (.mk other comments others)

namespace Node.Alike

variable {spelled : Spelling} {node other : Node}

theorem form (alike : node.Alike spelled other) : node.form.Alike spelled other.form := by
  cases alike
  assumption

theorem isLeftHandSide (alike : node.Alike spelled other) :
    other.form.isLeftHandSide = node.form.isLeftHandSide := by
  obtain ⟨forms, -, -⟩ := alike
  cases forms <;> rfl

theorem plain {form : Form} {comments : List String} {children others : List Node}
    (unnamed : form.name? = none) (unquoted : ∀ text, form ≠ .string text)
    (fits : form.Fits children) (below : List.Forall₂ (Node.Alike spelled) children others) :
    Alike spelled (.mk form comments children) (.mk form comments others) :=
  .mk (.plain unnamed unquoted) fits below

end Node.Alike

namespace Token.Alike

variable {spelled : Spelling} {token other : Token}

theorem isMark (plain : spelled.Plain) (alike : token.Alike spelled other) (text : String) :
    other.isMark text = token.isMark text := by
  unfold Token.isMark
  rw [alike.kind]
  by_cases mark : token.kind = .punctuator
  · rw [plain _ _ _ alike.text (by simp [mark]) (by simp [mark])]
  · rw [beq_false_of_ne mark, Bool.false_and, Bool.false_and]

theorem isKeyword (plain : spelled.Plain) (alike : token.Alike spelled other) (text : String) :
    other.isKeyword text = token.isKeyword text := by
  unfold Token.isKeyword
  rw [alike.kind]
  by_cases word : token.kind = .keyword
  · rw [plain _ _ _ alike.text (by simp [word]) (by simp [word])]
  · rw [beq_false_of_ne word, Bool.false_and, Bool.false_and]

end Token.Alike

namespace Parser

theorem bind_eq_some {α β : Type} {p : Parser α} {f : α → Parser β} {c : Cursor}
    {result : β × Cursor} : (p >>= f) c = some result ↔
      ∃ a d, p c = some (a, d) ∧ f a d = some result := by
  constructor
  · intro run
    obtain ⟨⟨a, d⟩, first, second⟩ := Option.bind_eq_some_iff.mp run
    exact ⟨a, d, first, second⟩
  · rintro ⟨a, d, first, second⟩
    exact Option.bind_eq_some_iff.mpr ⟨(a, d), first, second⟩

/-- A relation between cursors that the parser cannot leave. -/
structure Simulation (spelled : Spelling) (related : Cursor → Cursor → Prop) : Prop where
  plain : spelled.Plain
  token {c d : Cursor} : related c d → c.token.Alike spelled d.token
  next {c d c' : Cursor} : related c d → start c.after = some c' →
    ∃ d', start d.after = some d' ∧ related c' d'
  slash {c d c' : Cursor} {regex : Token} {after : Scanner} : related c d →
    c.token.text = "/" ∨ c.token.text = "/=" →
    c.here.rereadSlash? c.token = some (regex, after) → start after = some c' →
    ∃ regex' after' d', d.here.rereadSlash? d.token = some (regex', after') ∧
      start after' = some d' ∧ regex' = regex ∧ related c' d'

def SimulatesAt {α β : Type} (related : Cursor → Cursor → Prop) (result : α → β → Prop)
    (c d : Cursor) (p : Parser α) (q : Parser β) : Prop :=
  ∀ a c', p c = some (a, c') → ∃ b d', q d = some (b, d') ∧ result a b ∧ related c' d'

theorem SimulatesAt.peek_bind {α β : Type} {related : Cursor → Cursor → Prop}
    {result : α → β → Prop} {c d : Cursor} {f : Token → Parser α} {g : Token → Parser β}
    (next : SimulatesAt related result c d (f c.token) (g d.token)) :
    SimulatesAt related result c d (peek >>= f) (peek >>= g) :=
  next

theorem SimulatesAt.get_bind {α β : Type} {related : Cursor → Cursor → Prop}
    {result : α → β → Prop} {c d : Cursor} {f : Cursor → Parser α} {g : Cursor → Parser β}
    (next : SimulatesAt related result c d (f c) (g d)) :
    SimulatesAt related result c d (get >>= f) (get >>= g) :=
  next

def Simulates {α β : Type} (related : Cursor → Cursor → Prop) (result : α → β → Prop)
    (p : Parser α) (q : Parser β) : Prop :=
  ∀ c d, related c d → SimulatesAt related result c d p q

theorem SimulatesAt.ite {α β : Type} {related : Cursor → Cursor → Prop} {result : α → β → Prop}
    {c d : Cursor} {p p' : Parser α} {q q' : Parser β} {C D : Prop} [Decidable C] [Decidable D]
    (same : D ↔ C) (yes : C → SimulatesAt related result c d p q)
    (no : ¬C → SimulatesAt related result c d p' q') :
    SimulatesAt related result c d (if C then p else p') (if D then q else q') := by
  by_cases holds : C
  · rw [if_pos holds, if_pos (same.mpr holds)]
    exact yes holds
  · rw [if_neg holds, if_neg fun d => holds (same.mp d)]
    exact no holds

namespace Simulates

variable {α β γ δ : Type} {related : Cursor → Cursor → Prop}

theorem failure {result : α → β → Prop} {q : Parser β} :
    Simulates related result Alternative.failure q := by
  intro c d _ a c' run
  cases run

theorem pure {result : α → β → Prop} {a : α} {b : β} (same : result a b) :
    Simulates related result (Pure.pure a) (Pure.pure b) := by
  intro c d between a' c' run
  cases run
  exact ⟨b, d, rfl, same, between⟩

theorem bind {first : α → β → Prop} {second : γ → δ → Prop} {p : Parser α} {q : Parser β}
    {f : α → Parser γ} {g : β → Parser δ} (start : Simulates related first p q)
    (next : ∀ a b, first a b → Simulates related second (f a) (g b)) :
    Simulates related second (p >>= f) (q >>= g) := by
  intro c d between a c' run
  obtain ⟨⟨a', middle⟩, run, rest⟩ := Option.bind_eq_some_iff.mp run
  obtain ⟨b', middle', run', same, between⟩ := start c d between a' middle run
  obtain ⟨b, d', rest', result, between⟩ := next a' b' same middle middle' between a c' rest
  exact ⟨b, d', Option.bind_eq_some_iff.mpr ⟨(b', middle'), run', rest'⟩, result, between⟩

theorem ite {result : α → β → Prop} {p p' : Parser α} {q q' : Parser β} {C D : Prop}
    [Decidable C] [Decidable D] (same : D ↔ C) (yes : C → Simulates related result p q)
    (no : ¬C → Simulates related result p' q') :
    Simulates related result (if C then p else p') (if D then q else q') :=
  fun c d between => .ite same (fun holds => yes holds c d between) fun fails =>
    no fails c d between

theorem mono {result weaker : α → β → Prop} {p : Parser α} {q : Parser β}
    (run : Simulates related result p q) (weaken : ∀ a b, result a b → weaker a b) :
    Simulates related weaker p q := by
  intro c d between a c' done
  obtain ⟨b, d', done', same, between⟩ := run c d between a c' done
  exact ⟨b, d', done', weaken a b same, between⟩

end Simulates

section
variable {spelled : Spelling} {related : Cursor → Cursor → Prop}
variable (sim : Simulation spelled related)
include sim

/-! ## Tokens and names -/

omit sim in
theorem set_simulates {c d : Cursor} (between : related c d) :
    Simulates related (fun _ _ => True) (set c) (set d) := by
  intro _ _ _ a c' run
  cases run
  exact ⟨_, _, rfl, trivial, between⟩

theorem peek_simulates : Simulates related (Token.Alike spelled) peek peek := by
  intro c d between a c' run
  cases run
  exact ⟨d.token, d, rfl, sim.token between, between⟩

theorem advance_simulates : Simulates related (Token.Alike spelled) advance advance := by
  intro c d between a c' run
  obtain ⟨middle, run, done⟩ := Option.bind_eq_some_iff.mp run
  cases done
  obtain ⟨d', run', between'⟩ := sim.next between run
  exact ⟨d.token, d', Option.bind_eq_some_iff.mpr ⟨d', run', rfl⟩, sim.token between, between'⟩

theorem mark_simulates (text : String) :
    Simulates related (Token.Alike spelled) (mark text) (mark text) := by
  refine (peek_simulates sim).bind fun t u alike => ?_
  exact .ite (by rw [alike.isMark sim.plain]) (fun _ => advance_simulates sim) fun _ => .failure

theorem keyword_simulates (text : String) :
    Simulates related (Token.Alike spelled) (keyword text) (keyword text) := by
  refine (peek_simulates sim).bind fun t u alike => ?_
  exact .ite (by rw [alike.isKeyword sim.plain]) (fun _ => advance_simulates sim) fun _ => .failure

theorem identifier_simulates :
    Simulates related (Node.Alike spelled) identifier identifier := by
  refine (peek_simulates sim).bind fun t u alike => ?_
  refine .ite (by rw [alike.kind]) (fun word => ?_) fun _ => .failure
  refine (advance_simulates sim).bind fun v w alike' => .pure ?_
  rw [leaf, leaf, alike'.comments]
  exact .mk (.identifier (word ▸ alike.text)) rfl .nil

def AlikeKeys (spelled : Spelling) (node other : Node) : Prop :=
  node.Alike spelled other ∧ ∃ name, node.form = .propertyName name

theorem propertyName_simulates :
    Simulates related (AlikeKeys spelled) propertyName propertyName := by
  refine (peek_simulates sim).bind fun t u alike => ?_
  refine .ite (by rw [alike.kind]) (fun word => ?_) fun _ => .failure
  refine (advance_simulates sim).bind fun _ _ _ => .pure ⟨?_, t.text, rfl⟩
  exact .mk (.propertyName word alike.text) rfl .nil

theorem terminator_simulates : Simulates related (fun _ _ => True) terminator terminator := by
  refine (peek_simulates sim).bind fun t u alike => ?_
  refine .ite (by rw [alike.isMark sim.plain, alike.kind]) (fun _ => ?_) fun _ => ?_
  · exact (advance_simulates sim).bind fun _ _ _ => .pure trivial
  · refine .ite (by rw [alike.isMark sim.plain, alike.kind, alike.afterBreak]) (fun _ => ?_) ?_
    · exact .pure trivial
    · exact fun _ => .failure

theorem propertyKey_simulates {t u : Token} (alike : t.Alike spelled u) :
    Simulates related (Node.Alike spelled) (propertyKey t) (propertyKey u) := by
  unfold propertyKey
  rw [alike.kind]
  split
  · rename_i string
    refine (advance_simulates sim).bind fun v w alike' => .pure ?_
    rw [leaf, leaf, alike'.comments]
    exact .mk (.string (string ▸ alike.text)) trivial .nil
  · rename_i number
    rw [sim.plain _ _ _ alike.text (by simp [number]) (by simp [number])]
    refine (advance_simulates sim).bind fun v w alike' => .pure ?_
    rw [leaf, leaf, alike'.comments]
    exact .plain rfl (by simp) trivial .nil
  · exact (propertyName_simulates sim).mono fun _ _ key => key.1

theorem functionName_simulates :
    Simulates related (List.Forall₂ (Node.Alike spelled)) functionName functionName := by
  refine (peek_simulates sim).bind fun t u alike => ?_
  refine .ite (by rw [alike.kind]) (fun _ => ?_) fun _ => .pure .nil
  exact (identifier_simulates sim).bind fun _ _ name => .pure (.cons name .nil)

theorem jump_simulates {form : Form} (unnamed : form.name? = none)
    (unquoted : ∀ text, form ≠ .string text) (fits : ∀ children, form.Fits children) :
    Simulates related (Node.Alike spelled) (jump form) (jump form) := by
  refine (advance_simulates sim).bind fun t u alike => ?_
  rw [alike.comments]
  refine (peek_simulates sim).bind fun v w next => ?_
  refine .ite (by rw [next.kind]) (fun _ => ?_) fun _ => ?_
  · refine (identifier_simulates sim).bind fun _ _ label => ?_
    exact (terminator_simulates sim).bind fun _ _ _ =>
      .pure (.plain unnamed unquoted (fits _) (.cons label .nil))
  · exact (terminator_simulates sim).bind fun _ _ _ =>
      .pure (.plain unnamed unquoted (fits _) .nil)

/-! ## The steps of the grammar -/

structure Levels (spelled : Spelling) (related : Cursor → Cursor → Prop) (n m : Nat) : Prop where
  primary : Simulates related (Node.Alike spelled) (primary n) (primary m)
  arrayItems : Simulates related (List.Forall₂ (Node.Alike spelled)) (arrayItems n) (arrayItems m)
  commas : Simulates related Eq (commas n) (commas m)
  properties : Simulates related (List.Forall₂ (Node.Alike spelled)) (properties n) (properties m)
  property : Simulates related (Node.Alike spelled) (property n) (property m)
  body : Simulates related (List.Forall₂ (Node.Alike spelled)) (body n) (body m)
  function : ∀ declared,
    Simulates related (Node.Alike spelled) (function n declared) (function m declared)
  parameters : Simulates related (List.Forall₂ (Node.Alike spelled)) (parameters n) (parameters m)
  moreParameters :
    Simulates related (List.Forall₂ (Node.Alike spelled)) (moreParameters n) (moreParameters m)
  arguments : Simulates related (Node.Alike spelled) (arguments n) (arguments m)
  argumentItems :
    Simulates related (List.Forall₂ (Node.Alike spelled)) (argumentItems n) (argumentItems m)
  operandStart : Simulates related (Node.Alike spelled) (operandStart n) (operandStart m)
  operandTail : ∀ allowCalls base other, base.Alike spelled other →
    Simulates related (Node.Alike spelled) (operandTail n allowCalls base)
      (operandTail m allowCalls other)
  unary : Simulates related (Node.Alike spelled) (unary n) (unary m)
  binary : ∀ allowIn weakest,
    Simulates related (Node.Alike spelled) (binary n allowIn weakest) (binary m allowIn weakest)
  binaryTail : ∀ allowIn weakest left other, left.Alike spelled other →
    Simulates related (Node.Alike spelled) (binaryTail n allowIn weakest left)
      (binaryTail m allowIn weakest other)
  assignment : ∀ allowIn,
    Simulates related (Node.Alike spelled) (assignment n allowIn) (assignment m allowIn)
  expression : ∀ allowIn,
    Simulates related (Node.Alike spelled) (expression n allowIn) (expression m allowIn)
  sequenceTail : ∀ allowIn left other, left.Alike spelled other →
    Simulates related (Node.Alike spelled) (sequenceTail n allowIn left)
      (sequenceTail m allowIn other)
  statements : Simulates related (List.Forall₂ (Node.Alike spelled)) (statements n) (statements m)
  statement : Simulates related (Node.Alike spelled) (statement n) (statement m)
  expressionStatement :
    Simulates related (Node.Alike spelled) (expressionStatement n) (expressionStatement m)
  block : Simulates related (Node.Alike spelled) (block n) (block m)
  condition : Simulates related (Node.Alike spelled) (condition n) (condition m)
  declarators : ∀ allowIn, Simulates related (List.Forall₂ (Node.Alike spelled))
    (declarators n allowIn) (declarators m allowIn)
  moreDeclarators : ∀ allowIn first other, first.Alike spelled other →
    Simulates related (List.Forall₂ (Node.Alike spelled)) (moreDeclarators n allowIn first)
      (moreDeclarators m allowIn other)
  initializer : ∀ allowIn, Simulates related (List.Forall₂ (Node.Alike spelled))
    (initializer n allowIn) (initializer m allowIn)
  ifElse : Simulates related (Node.Alike spelled) (ifElse n) (ifElse m)
  forStatement : Simulates related (Node.Alike spelled) (forStatement n) (forStatement m)
  forInRest : ∀ t u target other, Token.Alike spelled t u → target.Alike spelled other →
    Simulates related (Node.Alike spelled) (forInRest n t target) (forInRest m u other)
  forRest : ∀ t u first other, Token.Alike spelled t u → first.Alike spelled other →
    Simulates related (Node.Alike spelled) (forRest n t first) (forRest m u other)
  forCondition : ∀ t u, Token.Alike spelled t u →
    Simulates related (Node.Alike spelled) (forCondition n t) (forCondition m u)
  forCount : Simulates related (List.Forall₂ (Node.Alike spelled)) (forCount n) (forCount m)
  clauses : ∀ allowDefault, Simulates related (List.Forall₂ (Node.Alike spelled))
    (clauses n allowDefault) (clauses m allowDefault)
  tryStatement : Simulates related (Node.Alike spelled) (tryStatement n) (tryStatement m)
  catchClause :
    Simulates related (List.Forall₂ (Node.Alike spelled)) (catchClause n) (catchClause m)
  finallyClause :
    Simulates related (List.Forall₂ (Node.Alike spelled)) (finallyClause n) (finallyClause m)

variable {n m : Nat} (ih : Levels spelled related n m)
include ih

theorem arrayItems_simulates : Simulates related (List.Forall₂ (Node.Alike spelled))
    (arrayItems (n + 1)) (arrayItems (m + 1)) := by
  rw [arrayItems, arrayItems]
  refine (peek_simulates sim).bind fun t u alike => ?_
  refine .ite (by rw [alike.isMark sim.plain]) (fun _ => ?_) fun _ => ?_
  · exact (advance_simulates sim).bind fun _ _ _ => .pure .nil
  refine .ite (by rw [alike.isMark sim.plain]) (fun _ => ?_) fun _ => ?_
  · rw [alike.comments]
    refine ih.commas.bind fun count _ same => ?_
    subst same
    exact ih.arrayItems.bind fun _ _ items =>
      .pure (.cons (.plain rfl (by simp) trivial .nil) items)
  · refine (ih.assignment true).bind fun _ _ item => ?_
    refine (peek_simulates sim).bind fun v w next => ?_
    refine .ite (by rw [next.isMark sim.plain]) (fun _ => ?_) fun _ => ?_
    · exact (advance_simulates sim).bind fun _ _ _ => .pure (.cons item .nil)
    · refine (mark_simulates sim ",").bind fun _ _ _ => ?_
      exact ih.arrayItems.bind fun _ _ items => .pure (.cons item items)

theorem commas_simulates : Simulates related Eq (commas (n + 1)) (commas (m + 1)) := by
  rw [commas, commas]
  refine (peek_simulates sim).bind fun t u alike => ?_
  refine .ite (by rw [alike.isMark sim.plain]) (fun _ => ?_) fun _ => .pure rfl
  refine (advance_simulates sim).bind fun _ _ _ => ?_
  exact ih.commas.bind fun _ _ same => .pure (congrArg (· + 1) same)

theorem properties_simulates : Simulates related (List.Forall₂ (Node.Alike spelled))
    (properties (n + 1)) (properties (m + 1)) := by
  rw [properties, properties]
  refine (peek_simulates sim).bind fun t u alike => ?_
  refine .ite (by rw [alike.isMark sim.plain]) (fun _ => ?_) fun _ => ?_
  · exact (advance_simulates sim).bind fun _ _ _ => .pure .nil
  · refine ih.property.bind fun _ _ property => ?_
    refine (peek_simulates sim).bind fun v w next => ?_
    refine .ite (by rw [next.isMark sim.plain]) (fun _ => ?_) fun _ => ?_
    · exact (advance_simulates sim).bind fun _ _ _ => .pure (.cons property .nil)
    · refine (mark_simulates sim ",").bind fun _ _ _ => ?_
      exact ih.properties.bind fun _ _ rest => .pure (.cons property rest)

theorem property_simulates :
    Simulates related (Node.Alike spelled) (property (n + 1)) (property (m + 1)) := by
  rw [property, property]
  refine (peek_simulates sim).bind fun t u alike => ?_
  refine .ite (by rw [alike.kind]) (fun accessor => ?_) fun _ => ?_
  · rw [sim.plain _ _ _ alike.text (by simp [accessor]) (by simp [accessor]), alike.comments]
    refine (advance_simulates sim).bind fun _ _ _ => ?_
    refine (propertyName_simulates sim).bind fun _ _ name => ?_
    refine (mark_simulates sim "(").bind fun _ _ _ => ?_
    refine .ite Iff.rfl (fun _ => ?_) fun _ => ?_
    · refine (mark_simulates sim ")").bind fun _ _ _ => ?_
      exact ih.body.bind fun _ _ body => .pure (.plain rfl (by simp) trivial (.cons name.1 body))
    · refine (identifier_simulates sim).bind fun _ _ parameter => ?_
      refine (mark_simulates sim ")").bind fun _ _ _ => ?_
      exact ih.body.bind fun _ _ body =>
        .pure (.plain rfl (by simp) trivial (.cons name.1 (.cons parameter body)))
  · refine (propertyKey_simulates sim alike).bind fun _ _ key => ?_
    refine (mark_simulates sim ":").bind fun v w colon => ?_
    rw [colon.comments]
    exact (ih.assignment true).bind fun _ _ value =>
      .pure (.plain rfl (by simp) trivial (.cons key (.cons value .nil)))

theorem body_simulates : Simulates related (List.Forall₂ (Node.Alike spelled))
    (body (n + 1)) (body (m + 1)) := by
  rw [body, body]
  refine (mark_simulates sim "\x7b").bind fun _ _ _ => ?_
  refine ih.statements.bind fun _ _ statements => ?_
  exact (mark_simulates sim "\x7d").bind fun _ _ _ => .pure statements

theorem function_simulates (declared : Bool) : Simulates related (Node.Alike spelled)
    (function (n + 1) declared) (function (m + 1) declared) := by
  rw [function, function]
  refine (keyword_simulates sim "function").bind fun t u alike => ?_
  rw [alike.comments]
  refine (functionName_simulates sim).bind fun names others named => ?_
  refine (mark_simulates sim "(").bind fun _ _ _ => ?_
  refine ih.parameters.bind fun parameters _ paired => ?_
  refine ih.body.bind fun _ _ body => .pure ?_
  have sameName : others.isEmpty = names.isEmpty := by cases named <;> rfl
  rw [sameName, ← paired.length_eq]
  refine .plain rfl (by simp) trivial ?_
  exact List.rel_append (List.rel_append named paired) body

theorem parameters_simulates : Simulates related (List.Forall₂ (Node.Alike spelled))
    (parameters (n + 1)) (parameters (m + 1)) := by
  rw [parameters, parameters]
  refine (peek_simulates sim).bind fun t u alike => ?_
  refine .ite (by rw [alike.isMark sim.plain]) (fun _ => ?_) fun _ => ?_
  · exact (advance_simulates sim).bind fun _ _ _ => .pure .nil
  · refine (identifier_simulates sim).bind fun _ _ parameter => ?_
    refine (peek_simulates sim).bind fun v w next => ?_
    refine .ite (by rw [next.isMark sim.plain]) (fun _ => ?_) fun _ => ?_
    · refine (advance_simulates sim).bind fun _ _ _ => ?_
      exact ih.moreParameters.bind fun _ _ rest => .pure (.cons parameter rest)
    · exact (mark_simulates sim ")").bind fun _ _ _ => .pure (.cons parameter .nil)

theorem moreParameters_simulates : Simulates related (List.Forall₂ (Node.Alike spelled))
    (moreParameters (n + 1)) (moreParameters (m + 1)) := by
  rw [moreParameters, moreParameters]
  refine (peek_simulates sim).bind fun t u alike => ?_
  exact .ite (by rw [alike.kind]) (fun _ => ih.parameters) fun _ => .failure

theorem arguments_simulates :
    Simulates related (Node.Alike spelled) (arguments (n + 1)) (arguments (m + 1)) := by
  rw [arguments, arguments]
  refine (mark_simulates sim "(").bind fun t u alike => ?_
  rw [alike.comments]
  refine (peek_simulates sim).bind fun v w next => ?_
  refine .ite (by rw [next.isMark sim.plain]) (fun _ => ?_) fun _ => ?_
  · exact (advance_simulates sim).bind fun _ _ _ =>
      .pure (.plain rfl (by simp) trivial .nil)
  · exact ih.argumentItems.bind fun _ _ items => .pure (.plain rfl (by simp) trivial items)

theorem argumentItems_simulates : Simulates related (List.Forall₂ (Node.Alike spelled))
    (argumentItems (n + 1)) (argumentItems (m + 1)) := by
  rw [argumentItems, argumentItems]
  refine (ih.assignment true).bind fun _ _ item => ?_
  refine (peek_simulates sim).bind fun v w next => ?_
  refine .ite (by rw [next.isMark sim.plain]) (fun _ => ?_) fun _ => ?_
  · refine (advance_simulates sim).bind fun _ _ _ => ?_
    exact ih.argumentItems.bind fun _ _ items => .pure (.cons item items)
  · exact (mark_simulates sim ")").bind fun _ _ _ => .pure (.cons item .nil)

omit ih in
theorem leaf_simulates {form other : Form} (forms : form.Alike spelled other)
    (fits : form.Fits []) :
    Simulates related (Node.Alike spelled) (do return leaf (← advance) form)
      (do return leaf (← advance) other) := by
  refine (advance_simulates sim).bind fun t u alike => .pure ?_
  rw [leaf, leaf, alike.comments]
  exact .mk forms fits .nil

theorem primary_simulates :
    Simulates related (Node.Alike spelled) (primary (n + 1)) (primary (m + 1)) := by
  intro c d between
  rw [primary, primary]
  have alike := sim.token between
  have fixed (kind : c.token.kind ≠ .name) (quoted : c.token.kind ≠ .string) :
      d.token.text = c.token.text := sim.plain _ _ _ alike.text kind quoted
  have takes {form other : Form} (forms : form.Alike spelled other) (fits : form.Fits []) :=
    leaf_simulates sim forms fits c d between
  refine .peek_bind ?_
  rw [alike.kind]
  split
  · rename_i kind
    exact takes (.identifier (kind ▸ alike.text)) rfl
  · rename_i kind
    rw [fixed (by simp [kind]) (by simp [kind])]
    exact takes (.plain rfl (by simp)) trivial
  · rename_i kind
    exact takes (.string (kind ▸ alike.text)) trivial
  · rename_i kind
    rw [fixed (by simp [kind]) (by simp [kind])]
    exact takes (.plain rfl (by simp)) trivial
  · rename_i kind
    rw [fixed (by simp [kind]) (by simp [kind])]
    refine .ite Iff.rfl (fun _ => takes (.plain rfl (by simp)) trivial) fun _ => ?_
    refine .ite Iff.rfl (fun _ => takes (.plain rfl (by simp)) trivial) fun _ => ?_
    refine .ite Iff.rfl (fun _ => takes (.plain rfl (by simp)) trivial) fun _ => ?_
    exact .ite Iff.rfl (fun _ => ih.function false c d between) fun _ => Simulates.failure c d between
  · rename_i kind
    have text := fixed (by simp [kind]) (by simp [kind])
    rw [text, alike.comments]
    refine .ite Iff.rfl (fun _ => ?_) fun _ => ?_
    · refine ((advance_simulates sim).bind fun _ _ _ => ?_) c d between
      refine (ih.expression true).bind fun inner inner' same => ?_
      refine (mark_simulates sim ")").bind fun _ _ _ => ?_
      have group : inner'.form = .group ↔ inner.form = .group := by
        obtain ⟨forms, -, -⟩ := same
        cases forms <;> simp
      exact .ite group (fun _ => .pure same) fun _ =>
        .pure (.plain rfl (by simp) trivial (.cons same .nil))
    refine .ite Iff.rfl (fun _ => ?_) fun _ => ?_
    · refine ((advance_simulates sim).bind fun _ _ _ => ?_) c d between
      exact ih.arrayItems.bind fun _ _ items => .pure (.plain rfl (by simp) trivial items)
    refine .ite Iff.rfl (fun _ => ?_) fun _ => ?_
    · refine ((advance_simulates sim).bind fun _ _ _ => ?_) c d between
      exact ih.properties.bind fun _ _ properties =>
        .pure (.plain rfl (by simp) trivial properties)
    refine .ite Iff.rfl (fun slash => ?_) fun _ => Simulates.failure c d between
    refine .get_bind ?_
    intro a c' run
    cases reread : c.here.rereadSlash? c.token with
    | none =>
        simp only [reread] at run
        cases run
    | some result =>
        obtain ⟨regex, after⟩ := result
        simp only [reread] at run
        cases started : Parser.start after with
        | none =>
            simp only [started] at run
            cases run
        | some next =>
            simp only [started] at run
            cases run
            obtain ⟨_, after', d', reread', started', rfl, between'⟩ :=
              sim.slash between slash reread started
            refine ⟨_, d', ?_, .plain rfl (by simp) trivial .nil, between'⟩
            simp only [reread', started']
            rfl
  · exact Simulates.failure c d between

theorem operandStart_simulates :
    Simulates related (Node.Alike spelled) (operandStart (n + 1)) (operandStart (m + 1)) := by
  rw [operandStart, operandStart]
  refine (peek_simulates sim).bind fun t u alike => ?_
  refine .ite (by rw [alike.isKeyword sim.plain]) (fun _ => ?_) fun _ => ih.primary
  refine (advance_simulates sim).bind fun v w new => ?_
  rw [new.comments]
  refine ih.operandStart.bind fun _ _ base => ?_
  refine (ih.operandTail false _ _ base).bind fun _ _ callee => ?_
  refine (peek_simulates sim).bind fun x y next => ?_
  refine .ite (by rw [next.isMark sim.plain]) (fun _ => ?_) fun _ => ?_
  · exact ih.arguments.bind fun _ _ arguments =>
      .pure (.plain rfl (by simp) trivial (.cons callee (.cons arguments .nil)))
  · exact .pure (.plain rfl (by simp) trivial (.cons callee .nil))

theorem operandTail_simulates (allowCalls : Bool) {base other : Node}
    (same : base.Alike spelled other) : Simulates related (Node.Alike spelled)
      (operandTail (n + 1) allowCalls base) (operandTail (m + 1) allowCalls other) := by
  rw [operandTail, operandTail]
  refine (peek_simulates sim).bind fun t u alike => ?_
  rw [alike.comments]
  refine .ite (by rw [alike.isMark sim.plain]) (fun _ => ?_) fun _ => ?_
  · refine (advance_simulates sim).bind fun _ _ _ => ?_
    refine (propertyName_simulates sim).bind fun key _ paired => ?_
    obtain ⟨paired, name, named⟩ := paired
    exact ih.operandTail allowCalls _ _ (.plain rfl (by simp) ⟨base, key, name, rfl, named⟩
      (.cons same (.cons paired .nil)))
  refine .ite (by rw [alike.isMark sim.plain]) (fun _ => ?_) fun _ => ?_
  · refine (advance_simulates sim).bind fun _ _ _ => ?_
    refine (ih.expression true).bind fun index _ paired => ?_
    refine (mark_simulates sim "]").bind fun _ _ _ => ?_
    exact ih.operandTail allowCalls _ _ (.plain rfl (by simp) ⟨base, index, rfl⟩
      (.cons same (.cons paired .nil)))
  refine .ite (by rw [alike.isMark sim.plain]) (fun _ => ?_) fun _ => .pure same
  refine ih.arguments.bind fun _ _ arguments => ?_
  exact ih.operandTail allowCalls _ _ (.plain rfl (by simp) trivial
    (.cons same (.cons arguments .nil)))

omit ih in
theorem isUnary_alike {t u : Token} (alike : t.Alike spelled u) : isUnary u = isUnary t := by
  unfold isUnary
  rw [alike.kind]
  split
  · rename_i kind
    rw [sim.plain _ _ _ alike.text (by simp [kind]) (by simp [kind])]
  · rename_i kind
    rw [sim.plain _ _ _ alike.text (by simp [kind]) (by simp [kind])]
  · rfl

theorem unary_simulates :
    Simulates related (Node.Alike spelled) (unary (n + 1)) (unary (m + 1)) := by
  rw [unary, unary]
  refine (peek_simulates sim).bind fun t u alike => ?_
  refine .ite (by rw [isUnary_alike sim alike]) (fun operator => ?_) fun _ => ?_
  · have same : u.text = t.text := by
      refine sim.plain _ _ _ alike.text ?_ ?_ <;> intro kind <;> simp [isUnary, kind] at operator
    rw [same, alike.comments]
    refine (advance_simulates sim).bind fun _ _ _ => ?_
    exact ih.unary.bind fun _ _ operand =>
      .pure (.plain rfl (by simp) trivial (.cons operand .nil))
  · refine ih.operandStart.bind fun _ _ base => ?_
    refine (ih.operandTail true _ _ base).bind fun _ _ operand => ?_
    refine (peek_simulates sim).bind fun v w next => ?_
    refine .ite (by rw [next.isMark sim.plain, next.isMark sim.plain]) (fun mark => ?_) fun _ => ?_
    · have same : w.text = v.text := by
        refine sim.plain _ _ _ next.text ?_ ?_ <;> intro kind <;>
          simp [Token.isMark, kind] at mark
      rw [same, next.comments]
      exact (advance_simulates sim).bind fun _ _ _ =>
        .pure (.plain rfl (by simp) trivial (.cons operand .nil))
    · exact .pure operand

omit sim in
theorem binary_simulates (allowIn : Bool) (weakest : Nat) : Simulates related (Node.Alike spelled)
    (binary (n + 1) allowIn weakest) (binary (m + 1) allowIn weakest) := by
  rw [binary, binary]
  exact ih.unary.bind fun _ _ left => ih.binaryTail allowIn weakest _ _ left

omit ih in
theorem strength?_alike (allowIn : Bool) {t u : Token} (alike : t.Alike spelled u) :
    strength? allowIn u = strength? allowIn t := by
  unfold strength?
  rw [alike.kind]
  split
  · rename_i kind
    rw [sim.plain _ _ _ alike.text (by simp [kind]) (by simp [kind])]
  · rename_i kind
    rw [sim.plain _ _ _ alike.text (by simp [kind]) (by simp [kind])]
  · rfl

theorem binaryTail_simulates (allowIn : Bool) (weakest : Nat) {left other : Node}
    (same : left.Alike spelled other) : Simulates related (Node.Alike spelled)
      (binaryTail (n + 1) allowIn weakest left) (binaryTail (m + 1) allowIn weakest other) := by
  rw [binaryTail, binaryTail]
  refine (peek_simulates sim).bind fun t u alike => ?_
  rw [strength?_alike sim allowIn alike]
  split
  · rename_i strength operator
    have text : u.text = t.text := by
      refine sim.plain _ _ _ alike.text ?_ ?_ <;> intro kind <;> simp [strength?, kind] at operator
    rw [text, alike.comments]
    refine .ite Iff.rfl (fun _ => ?_) fun _ => .pure same
    refine (advance_simulates sim).bind fun _ _ _ => ?_
    refine (ih.binary allowIn (strength + 1)).bind fun _ _ right => ?_
    exact ih.binaryTail allowIn weakest _ _
      (.plain rfl (by simp) trivial (.cons same (.cons right .nil)))
  · exact .pure same

omit ih in
theorem isAssignment_alike {t u : Token} (alike : t.Alike spelled u) :
    isAssignment u = isAssignment t := by
  unfold isAssignment
  rw [alike.kind]
  by_cases kind : t.kind = .punctuator
  · rw [sim.plain _ _ _ alike.text (by simp [kind]) (by simp [kind])]
  · rw [beq_false_of_ne kind, Bool.false_and, Bool.false_and]

theorem assignment_simulates (allowIn : Bool) : Simulates related (Node.Alike spelled)
    (assignment (n + 1) allowIn) (assignment (m + 1) allowIn) := by
  rw [assignment, assignment]
  refine (ih.binary allowIn 1).bind fun left _ same => ?_
  refine (peek_simulates sim).bind fun t u alike => ?_
  rw [alike.comments]
  refine .ite (by rw [alike.isMark sim.plain]) (fun _ => ?_) fun _ => ?_
  · refine (advance_simulates sim).bind fun _ _ _ => ?_
    refine (ih.assignment allowIn).bind fun _ _ consequent => ?_
    refine (mark_simulates sim ":").bind fun _ _ _ => ?_
    exact (ih.assignment allowIn).bind fun _ _ alternative =>
      .pure (.plain rfl (by simp) trivial (.cons same (.cons consequent (.cons alternative .nil))))
  refine .ite (by rw [isAssignment_alike sim alike, same.isLeftHandSide]) (fun operator => ?_)
    fun _ => .pure same
  have text : u.text = t.text := by
    refine sim.plain _ _ _ alike.text ?_ ?_ <;> intro kind <;>
      simp [isAssignment, kind] at operator
  rw [text]
  refine (advance_simulates sim).bind fun _ _ _ => ?_
  exact (ih.assignment allowIn).bind fun right _ paired =>
    .pure (.plain rfl (by simp) ⟨left, right, rfl⟩ (.cons same (.cons paired .nil)))

omit sim in
theorem expression_simulates (allowIn : Bool) : Simulates related (Node.Alike spelled)
    (expression (n + 1) allowIn) (expression (m + 1) allowIn) := by
  rw [expression, expression]
  exact (ih.assignment allowIn).bind fun _ _ first => ih.sequenceTail allowIn _ _ first

theorem sequenceTail_simulates (allowIn : Bool) {left other : Node}
    (same : left.Alike spelled other) : Simulates related (Node.Alike spelled)
      (sequenceTail (n + 1) allowIn left) (sequenceTail (m + 1) allowIn other) := by
  rw [sequenceTail, sequenceTail]
  refine (peek_simulates sim).bind fun t u alike => ?_
  rw [alike.comments]
  refine .ite (by rw [alike.isMark sim.plain]) (fun _ => ?_) fun _ => .pure same
  refine (advance_simulates sim).bind fun _ _ _ => ?_
  refine (ih.assignment allowIn).bind fun _ _ right => ?_
  exact ih.sequenceTail allowIn _ _
    (.plain rfl (by simp) trivial (.cons same (.cons right .nil)))

/-! ## Statements -/

omit ih in
theorem endsStatements_alike {t u : Token} (alike : t.Alike spelled u) :
    endsStatements u = endsStatements t := by
  unfold endsStatements
  rw [alike.kind, alike.isMark sim.plain, alike.isKeyword sim.plain, alike.isKeyword sim.plain]

theorem statements_simulates : Simulates related (List.Forall₂ (Node.Alike spelled))
    (statements (n + 1)) (statements (m + 1)) := by
  rw [statements, statements]
  refine (peek_simulates sim).bind fun t u alike => ?_
  refine .ite (by rw [endsStatements_alike sim alike]) (fun _ => .pure .nil) fun _ => ?_
  refine ih.statement.bind fun _ _ statement => ?_
  exact ih.statements.bind fun _ _ rest => .pure (.cons statement rest)

theorem expressionStatement_simulates : Simulates related (Node.Alike spelled)
    (expressionStatement (n + 1)) (expressionStatement (m + 1)) := by
  rw [expressionStatement, expressionStatement]
  refine (ih.expression true).bind fun value other same => ?_
  have ends : Simulates related (Node.Alike spelled)
      (do terminator; return .of .expression [value])
      (do terminator; return .of .expression [other]) :=
    (terminator_simulates sim).bind fun _ _ _ =>
      .pure (.plain rfl (by simp) trivial (.cons same .nil))
  cases same with
  | mk forms _ _ =>
      cases forms with
      | plain _ _ =>
          simp only [Node.form_mk]
          split
          · exact .failure
          · exact ends
      | _ => exact ends

theorem block_simulates :
    Simulates related (Node.Alike spelled) (block (n + 1)) (block (m + 1)) := by
  rw [block, block]
  refine (mark_simulates sim "\x7b").bind fun t u alike => ?_
  rw [alike.comments]
  refine ih.statements.bind fun _ _ statements => ?_
  exact (mark_simulates sim "\x7d").bind fun _ _ _ =>
    .pure (.plain rfl (by simp) trivial statements)

theorem condition_simulates :
    Simulates related (Node.Alike spelled) (condition (n + 1)) (condition (m + 1)) := by
  rw [condition, condition]
  refine (mark_simulates sim "(").bind fun _ _ _ => ?_
  refine (ih.expression true).bind fun _ _ value => ?_
  exact (mark_simulates sim ")").bind fun _ _ _ => .pure value

theorem declarators_simulates (allowIn : Bool) : Simulates related
    (List.Forall₂ (Node.Alike spelled)) (declarators (n + 1) allowIn)
      (declarators (m + 1) allowIn) := by
  rw [declarators, declarators]
  refine (identifier_simulates sim).bind fun _ _ name => ?_
  refine (ih.initializer allowIn).bind fun _ _ value => ?_
  exact ih.moreDeclarators allowIn _ _ (.plain rfl (by simp) trivial (.cons name value))

theorem moreDeclarators_simulates (allowIn : Bool) {first other : Node}
    (same : first.Alike spelled other) : Simulates related (List.Forall₂ (Node.Alike spelled))
      (moreDeclarators (n + 1) allowIn first) (moreDeclarators (m + 1) allowIn other) := by
  rw [moreDeclarators, moreDeclarators]
  refine (peek_simulates sim).bind fun t u alike => ?_
  refine .ite (by rw [alike.isMark sim.plain]) (fun _ => ?_) fun _ => .pure (.cons same .nil)
  refine (advance_simulates sim).bind fun _ _ _ => ?_
  exact (ih.declarators allowIn).bind fun _ _ rest => .pure (.cons same rest)

theorem initializer_simulates (allowIn : Bool) : Simulates related
    (List.Forall₂ (Node.Alike spelled)) (initializer (n + 1) allowIn)
      (initializer (m + 1) allowIn) := by
  rw [initializer, initializer]
  refine (peek_simulates sim).bind fun t u alike => ?_
  refine .ite (by rw [alike.isMark sim.plain]) (fun _ => ?_) fun _ => .pure .nil
  refine (advance_simulates sim).bind fun _ _ _ => ?_
  exact (ih.assignment allowIn).bind fun _ _ value => .pure (.cons value .nil)

theorem ifElse_simulates :
    Simulates related (Node.Alike spelled) (ifElse (n + 1)) (ifElse (m + 1)) := by
  rw [ifElse, ifElse]
  refine (keyword_simulates sim "if").bind fun t u alike => ?_
  rw [alike.comments]
  refine ih.condition.bind fun _ _ condition => ?_
  refine ih.statement.bind fun _ _ consequent => ?_
  refine (peek_simulates sim).bind fun v w next => ?_
  refine .ite (by rw [next.isKeyword sim.plain]) (fun _ => ?_) fun _ => ?_
  · refine (advance_simulates sim).bind fun _ _ _ => ?_
    exact ih.statement.bind fun _ _ alternative => .pure
      (.plain rfl (by simp) trivial (.cons condition (.cons consequent (.cons alternative .nil))))
  · exact .pure (.plain rfl (by simp) trivial (.cons condition (.cons consequent .nil)))

theorem forStatement_simulates :
    Simulates related (Node.Alike spelled) (forStatement (n + 1)) (forStatement (m + 1)) := by
  rw [forStatement, forStatement]
  refine (keyword_simulates sim "for").bind fun t u alike => ?_
  refine (mark_simulates sim "(").bind fun opening opening' opened => ?_
  refine (peek_simulates sim).bind fun first first' starts => ?_
  rw [starts.comments]
  refine .ite (by rw [starts.isMark sim.plain]) (fun _ => ?_) fun _ => ?_
  · refine ih.forRest _ _ _ _ alike ?_
    rw [leaf, leaf, opened.comments]
    exact .plain rfl (by simp) trivial .nil
  refine .ite (by rw [starts.isKeyword sim.plain]) (fun _ => ?_) fun _ => ?_
  · refine (advance_simulates sim).bind fun _ _ _ => ?_
    refine (identifier_simulates sim).bind fun a b name => ?_
    refine (ih.initializer false).bind fun as bs value => ?_
    have declarator : Node.Alike spelled (.of .declarator (a :: as)) (.of .declarator (b :: bs)) :=
      .plain rfl (by simp) trivial (.cons name value)
    refine (peek_simulates sim).bind fun v w next => ?_
    refine .ite (by rw [next.isKeyword sim.plain]) (fun _ => ?_) fun _ => ?_
    · exact ih.forInRest _ _ _ _ alike (.plain rfl (by simp) trivial (.cons name value))
    · refine (ih.moreDeclarators false _ _ declarator).bind fun _ _ declarators => ?_
      exact ih.forRest _ _ _ _ alike (.plain rfl (by simp) trivial declarators)
  · refine (ih.expression false).bind fun _ _ value => ?_
    refine (peek_simulates sim).bind fun v w next => ?_
    refine .ite (by rw [next.isKeyword sim.plain, value.isLeftHandSide]) (fun _ => ?_) fun _ => ?_
    · exact ih.forInRest _ _ _ _ alike value
    · exact ih.forRest _ _ _ _ alike (.plain rfl (by simp) trivial (.cons value .nil))

theorem forInRest_simulates {t u : Token} {target other : Node} (alike : t.Alike spelled u)
    (same : target.Alike spelled other) : Simulates related (Node.Alike spelled)
      (forInRest (n + 1) t target) (forInRest (m + 1) u other) := by
  rw [forInRest, forInRest, alike.comments]
  refine (keyword_simulates sim "in").bind fun _ _ _ => ?_
  refine (ih.expression true).bind fun _ _ object => ?_
  refine (mark_simulates sim ")").bind fun _ _ _ => ?_
  exact ih.statement.bind fun _ _ loop =>
    .pure (.plain rfl (by simp) trivial (.cons same (.cons object (.cons loop .nil))))

theorem forRest_simulates {t u : Token} {first other : Node} (alike : t.Alike spelled u)
    (same : first.Alike spelled other) : Simulates related (Node.Alike spelled)
      (forRest (n + 1) t first) (forRest (m + 1) u other) := by
  rw [forRest, forRest, alike.comments]
  refine (mark_simulates sim ";").bind fun _ _ semicolon => ?_
  refine (ih.forCondition _ _ semicolon).bind fun _ _ second => ?_
  refine (mark_simulates sim ";").bind fun _ _ _ => ?_
  refine ih.forCount.bind fun _ _ third => ?_
  refine (mark_simulates sim ")").bind fun _ _ _ => ?_
  exact ih.statement.bind fun _ _ loop => .pure (.plain rfl (by simp) trivial
    (.cons same (.cons second (List.rel_append third (.cons loop .nil)))))

theorem forCondition_simulates {t u : Token} (alike : t.Alike spelled u) :
    Simulates related (Node.Alike spelled) (forCondition (n + 1) t) (forCondition (m + 1) u) := by
  rw [forCondition, forCondition]
  refine (peek_simulates sim).bind fun v w next => ?_
  refine .ite (by rw [next.isMark sim.plain]) (fun _ => .pure ?_) fun _ => ?_
  · rw [leaf, leaf, alike.comments]
    exact .plain rfl (by simp) trivial .nil
  · exact (ih.expression true).bind fun _ _ value =>
      .pure (.plain rfl (by simp) trivial (.cons value .nil))

theorem forCount_simulates : Simulates related (List.Forall₂ (Node.Alike spelled))
    (forCount (n + 1)) (forCount (m + 1)) := by
  rw [forCount, forCount]
  refine (peek_simulates sim).bind fun t u alike => ?_
  refine .ite (by rw [alike.isMark sim.plain]) (fun _ => .pure .nil) fun _ => ?_
  exact (ih.expression true).bind fun _ _ value => .pure (.cons value .nil)

theorem clauses_simulates (allowDefault : Bool) : Simulates related
    (List.Forall₂ (Node.Alike spelled)) (clauses (n + 1) allowDefault)
      (clauses (m + 1) allowDefault) := by
  rw [clauses, clauses]
  refine (peek_simulates sim).bind fun t u alike => ?_
  rw [alike.comments]
  refine .ite (by rw [alike.isMark sim.plain]) (fun _ => ?_) fun _ => ?_
  · exact (advance_simulates sim).bind fun _ _ _ => .pure .nil
  refine .ite (by rw [alike.isKeyword sim.plain]) (fun _ => ?_) fun _ => ?_
  · refine (advance_simulates sim).bind fun _ _ _ => ?_
    refine (ih.expression true).bind fun _ _ value => ?_
    refine (mark_simulates sim ":").bind fun _ _ _ => ?_
    refine ih.statements.bind fun _ _ statements => ?_
    exact (ih.clauses allowDefault).bind fun _ _ rest =>
      .pure (.cons (.plain rfl (by simp) trivial (.cons value statements)) rest)
  refine .ite (by rw [alike.isKeyword sim.plain]) (fun _ => ?_) fun _ => .failure
  refine (advance_simulates sim).bind fun _ _ _ => ?_
  refine (mark_simulates sim ":").bind fun _ _ _ => ?_
  refine ih.statements.bind fun _ _ statements => ?_
  exact (ih.clauses false).bind fun _ _ rest =>
    .pure (.cons (.plain rfl (by simp) trivial statements) rest)

theorem tryStatement_simulates :
    Simulates related (Node.Alike spelled) (tryStatement (n + 1)) (tryStatement (m + 1)) := by
  rw [tryStatement, tryStatement]
  refine (keyword_simulates sim "try").bind fun t u alike => ?_
  rw [alike.comments]
  refine ih.block.bind fun _ _ block => ?_
  refine ih.catchClause.bind fun handler other handled => ?_
  refine ih.finallyClause.bind fun cleanup other' cleaned => ?_
  have sameHandler : other.isEmpty = handler.isEmpty := by cases handled <;> rfl
  have sameCleanup : other'.isEmpty = cleanup.isEmpty := by cases cleaned <;> rfl
  refine .ite (by rw [sameHandler, sameCleanup]) (fun _ => .failure) fun _ => .pure ?_
  exact .plain rfl (by simp) trivial (.cons block (List.rel_append handled cleaned))

theorem catchClause_simulates : Simulates related (List.Forall₂ (Node.Alike spelled))
    (catchClause (n + 1)) (catchClause (m + 1)) := by
  rw [catchClause, catchClause]
  refine (peek_simulates sim).bind fun t u alike => ?_
  refine .ite (by rw [alike.isKeyword sim.plain]) (fun _ => ?_) fun _ => .pure .nil
  refine (advance_simulates sim).bind fun v w word => ?_
  rw [word.comments]
  refine (mark_simulates sim "(").bind fun _ _ _ => ?_
  refine (identifier_simulates sim).bind fun _ _ binding => ?_
  refine (mark_simulates sim ")").bind fun _ _ _ => ?_
  exact ih.block.bind fun _ _ block =>
    .pure (.cons (.plain rfl (by simp) trivial (.cons binding (.cons block .nil))) .nil)

theorem finallyClause_simulates : Simulates related (List.Forall₂ (Node.Alike spelled))
    (finallyClause (n + 1)) (finallyClause (m + 1)) := by
  rw [finallyClause, finallyClause]
  refine (peek_simulates sim).bind fun t u alike => ?_
  refine .ite (by rw [alike.isKeyword sim.plain]) (fun _ => ?_) fun _ => .pure .nil
  refine (advance_simulates sim).bind fun v w word => ?_
  rw [word.comments]
  exact ih.block.bind fun _ _ block =>
    .pure (.cons (.plain rfl (by simp) trivial (.cons block .nil)) .nil)

omit ih in
theorem startsExpression_alike {t u : Token} (alike : t.Alike spelled u) :
    startsExpression u = startsExpression t := by
  unfold startsExpression
  rw [alike.kind]
  split
  · rfl
  · rfl
  · rfl
  · rfl
  · rename_i kind
    rw [sim.plain _ _ _ alike.text (by simp [kind]) (by simp [kind])]
  · rename_i kind
    rw [sim.plain _ _ _ alike.text (by simp [kind]) (by simp [kind])]
  · rfl

omit ih in
theorem continuesFunction_alike {t u : Token} (alike : t.Alike spelled u) :
    continuesFunction u = continuesFunction t := by
  unfold continuesFunction
  rw [alike.kind]
  split
  · rename_i kind
    rw [sim.plain _ _ _ alike.text (by simp [kind]) (by simp [kind])]
  · rename_i kind
    rw [sim.plain _ _ _ alike.text (by simp [kind]) (by simp [kind])]
  · rfl

theorem statement_simulates :
    Simulates related (Node.Alike spelled) (statement (n + 1)) (statement (m + 1)) := by
  intro c d between
  rw [statement, statement]
  have alike := sim.token between
  have expression := ih.expressionStatement c d between
  have advances {p q : Parser Node} (next : Simulates related (Node.Alike spelled) p q) :
      SimulatesAt related (Node.Alike spelled) c d (do let _ ← advance; p)
        (do let _ ← advance; q) :=
    ((advance_simulates sim).bind fun _ _ _ => next) c d between
  have rereads : Simulates related (Node.Alike spelled) (do set c; expressionStatement n)
      (do set d; expressionStatement m) :=
    (set_simulates between).bind fun _ _ _ => ih.expressionStatement
  refine .peek_bind ?_
  rw [alike.kind]
  split
  · rename_i kind
    rw [sim.plain _ _ _ alike.text (by simp [kind]) (by simp [kind])]
    refine .ite Iff.rfl (fun _ => ih.block c d between) fun _ => ?_
    refine .ite Iff.rfl (fun _ => ?_) fun _ => expression
    exact leaf_simulates sim (.plain rfl (by simp)) (by trivial) c d between
  · rename_i kind
    rw [sim.plain _ _ _ alike.text (by simp [kind]) (by simp [kind]), alike.comments]
    refine .ite Iff.rfl (fun _ => advances ?_) fun _ => ?_
    · refine (ih.declarators true).bind fun _ _ declarators => ?_
      exact (terminator_simulates sim).bind fun _ _ _ =>
        .pure (.plain rfl (by simp) trivial declarators)
    refine .ite Iff.rfl (fun _ => ih.ifElse c d between) fun _ => ?_
    refine .ite Iff.rfl (fun _ => ih.forStatement c d between) fun _ => ?_
    refine .ite Iff.rfl (fun _ => advances ?_) fun _ => ?_
    · refine ih.condition.bind fun _ _ condition => ?_
      exact ih.statement.bind fun _ _ loop =>
        .pure (.plain rfl (by simp) trivial (.cons condition (.cons loop .nil)))
    refine .ite Iff.rfl (fun _ => advances ?_) fun _ => ?_
    · refine ih.statement.bind fun _ _ loop => ?_
      refine (keyword_simulates sim "while").bind fun _ _ _ => ?_
      refine ih.condition.bind fun _ _ condition => ?_
      exact (terminator_simulates sim).bind fun _ _ _ =>
        .pure (.plain rfl (by simp) trivial (.cons condition (.cons loop .nil)))
    refine .ite Iff.rfl (fun _ => ?_) fun _ => ?_
    · exact jump_simulates sim rfl (by simp) (fun _ => by trivial) c d between
    refine .ite Iff.rfl (fun _ => ?_) fun _ => ?_
    · exact jump_simulates sim rfl (by simp) (fun _ => by trivial) c d between
    refine .ite Iff.rfl (fun _ => advances ?_) fun _ => ?_
    · refine (peek_simulates sim).bind fun t u next => ?_
      refine .ite (by rw [startsExpression_alike sim next]) (fun _ => ?_) fun _ => ?_
      · refine (ih.expression true).bind fun _ _ value => ?_
        exact (terminator_simulates sim).bind fun _ _ _ =>
          .pure (.plain rfl (by simp) trivial (.cons value .nil))
      · exact (terminator_simulates sim).bind fun _ _ _ =>
          .pure (.plain rfl (by simp) trivial .nil)
    refine .ite Iff.rfl (fun _ => advances ?_) fun _ => ?_
    · refine (ih.expression true).bind fun _ _ value => ?_
      exact (terminator_simulates sim).bind fun _ _ _ =>
        .pure (.plain rfl (by simp) trivial (.cons value .nil))
    refine .ite Iff.rfl (fun _ => advances ?_) fun _ => ?_
    · exact (terminator_simulates sim).bind fun _ _ _ =>
        .pure (.plain rfl (by simp) trivial .nil)
    refine .ite Iff.rfl (fun _ => advances ?_) fun _ => ?_
    · refine ih.condition.bind fun _ _ object => ?_
      exact ih.statement.bind fun _ _ scope =>
        .pure (.plain rfl (by simp) trivial (.cons object (.cons scope .nil)))
    refine .ite Iff.rfl (fun _ => advances ?_) fun _ => ?_
    · refine ih.condition.bind fun _ _ value => ?_
      refine (mark_simulates sim "\x7b").bind fun _ _ _ => ?_
      exact (ih.clauses true).bind fun _ _ clauses => .pure (.plain rfl (by simp) trivial
        (.cons value (.cons (.plain rfl (by simp) trivial clauses) .nil)))
    refine .ite Iff.rfl (fun _ => ih.tryStatement c d between) fun _ => ?_
    refine .ite Iff.rfl (fun _ => ?_) fun _ => expression
    -- both readers go back to where the function starts, or neither does
    refine .get_bind ?_
    refine ((ih.function true).bind fun declared declared' same => ?_) c d between
    cases same with
    | mk forms fits below =>
        cases forms with
        | plain unnamed unquoted =>
            simp only [Node.form_mk]
            split
            · refine (peek_simulates sim).bind fun t u next => ?_
              refine .ite (by rw [continuesFunction_alike sim next]) (fun _ => rereads) fun _ => ?_
              exact .pure (.plain unnamed unquoted fits below)
            · exact rereads
        | _ => exact rereads
  · refine .get_bind ?_
    refine ((identifier_simulates sim).bind fun _ _ label => ?_) c d between
    refine (peek_simulates sim).bind fun t u colon => ?_
    rw [colon.comments]
    refine .ite (by rw [colon.isMark sim.plain]) (fun _ => ?_) fun _ => rereads
    refine (advance_simulates sim).bind fun _ _ _ => ?_
    exact ih.statement.bind fun _ _ labelled =>
      .pure (.plain rfl (by simp) trivial (.cons label (.cons labelled .nil)))
  · exact expression

end

/-! ## Programs -/

section
variable {spelled : Spelling} {related : Cursor → Cursor → Prop}
variable (sim : Simulation spelled related)
include sim

theorem levels_simulate {n m : Nat} (enough : n ≤ m) : Levels spelled related n m := by
  induction n generalizing m with
  | zero => constructor <;> intros <;> exact .failure
  | succ n ih =>
      obtain ⟨m, rfl⟩ : ∃ more, m = more + 1 := ⟨m - 1, by omega⟩
      have below : Levels spelled related n m := ih (by omega)
      exact {
        primary := primary_simulates sim below
        arrayItems := arrayItems_simulates sim below
        commas := commas_simulates sim below
        properties := properties_simulates sim below
        property := property_simulates sim below
        body := body_simulates sim below
        function := function_simulates sim below
        parameters := parameters_simulates sim below
        moreParameters := moreParameters_simulates sim below
        arguments := arguments_simulates sim below
        argumentItems := argumentItems_simulates sim below
        operandStart := operandStart_simulates sim below
        operandTail := fun allowCalls _ _ => operandTail_simulates sim below allowCalls
        unary := unary_simulates sim below
        binary := binary_simulates below
        binaryTail := fun allowIn weakest _ _ => binaryTail_simulates sim below allowIn weakest
        assignment := assignment_simulates sim below
        expression := expression_simulates below
        sequenceTail := fun allowIn _ _ => sequenceTail_simulates sim below allowIn
        statements := statements_simulates sim below
        statement := statement_simulates sim below
        expressionStatement := expressionStatement_simulates sim below
        block := block_simulates sim below
        condition := condition_simulates sim below
        declarators := declarators_simulates sim below
        moreDeclarators := fun allowIn _ _ => moreDeclarators_simulates sim below allowIn
        initializer := initializer_simulates sim below
        ifElse := ifElse_simulates sim below
        forStatement := forStatement_simulates sim below
        forInRest := fun _ _ _ _ => forInRest_simulates sim below
        forRest := fun _ _ _ _ => forRest_simulates sim below
        forCondition := fun _ _ => forCondition_simulates sim below
        forCount := forCount_simulates sim below
        clauses := clauses_simulates sim below
        tryStatement := tryStatement_simulates sim below
        catchClause := catchClause_simulates sim below
        finallyClause := finallyClause_simulates sim below }

theorem program_simulates {n m : Nat} (enough : n ≤ m) :
    Simulates related (Node.Alike spelled) (program n) (program m) := by
  refine (levels_simulate sim enough).statements.bind fun _ _ statements => ?_
  refine (peek_simulates sim).bind fun t u alike => ?_
  refine .ite (by rw [alike.kind]) (fun _ => ?_) fun _ => .failure
  exact .pure (.plain rfl (by simp) trivial statements)

end

end Parser
end ScriptModules.Tree
