import ScriptModules.Proofs.Tree.Scanning
import ScriptModules.Proofs.Tree.Simulation
import ScriptModules.Tree.Template

/-!
# Texts read after the example of others

The tree of a text whose names are variable is found by reading one example: another text of the
same fragments has the tree of the example with the names and strings exchanged (`parse?_respell`).
The example may be read with fewer levels than the text; it is evaluated, the text is not.
-/

namespace ScriptModules.Tree

def Form.respell (table : String → String) : Form → Form
  | .identifier name => .identifier (table name)
  | .propertyName name => .propertyName (table name)
  | .string text => .string (table text)
  | form => form

mutual

def Node.respell (table : String → String) : Node → Node
  | .mk form comments children => .mk (form.respell table) comments (Node.respells table children)

def Node.respells (table : String → String) : List Node → List Node
  | [] => []
  | node :: nodes => node.respell table :: Node.respells table nodes

end

def Spelling.byTable (table : String → String) : Spelling := fun kind text other =>
  (kind ≠ .ending → other = table text) ∧ (kind ≠ .name → kind ≠ .string → other = text)

theorem Spelling.byTable_plain (table : String → String) : (Spelling.byTable table).Plain :=
  fun _ _ _ spelled notName notString => spelled.2 notName notString

theorem Form.Alike.eq_respell {table : String → String} {form other : Form}
    (alike : form.Alike (Spelling.byTable table) other) : other = form.respell table := by
  cases alike with
  | identifier same => exact congrArg Form.identifier (same.1 (by simp))
  | propertyName word same =>
      exact congrArg Form.propertyName (same.1 (by rcases word with rfl | rfl <;> simp))
  | string same => exact congrArg Form.string (same.1 (by simp))
  | plain unnamed unquoted =>
      cases form with
      | identifier name => cases unnamed
      | propertyName name => cases unnamed
      | string text => exact absurd rfl (unquoted text)
      | _ => rfl

mutual

theorem Node.Alike.eq_respell {table : String → String} : ∀ {node other : Node},
    node.Alike (Spelling.byTable table) other → other = node.respell table
  | .mk form comments children, _, .mk forms _ below => by
      rw [Node.respell, forms.eq_respell, Node.Alike.eq_respells below]

theorem Node.Alike.eq_respells {table : String → String} : ∀ {nodes others : List Node},
    List.Forall₂ (Node.Alike (Spelling.byTable table)) nodes others →
      others = Node.respells table nodes
  | [], _, .nil => rfl
  | _ :: _, _, .cons first rest => by
      rw [Node.respells, first.eq_respell, Node.Alike.eq_respells rest]

end

mutual

theorem Node.bare_respell (table : String → String) : ∀ node : Node,
    (node.respell table).bare = node.bare.respell table
  | .mk form comments children => by
      rw [Node.respell, Node.bare, Node.bare, Node.respell, Node.bares_respells]

theorem Node.bares_respells (table : String → String) : ∀ nodes : List Node,
    Node.bares (Node.respells table nodes) = Node.respells table (Node.bares nodes)
  | [] => rfl
  | node :: nodes => by
      rw [Node.respells, Node.bares, Node.bares, Node.respells, Node.bare_respell,
        Node.bares_respells]

end

/-! ## Cursors at tokens -/

def Cursor.Holds (cursor : Cursor) : List Token → Prop
  | [] => cursor.token = { kind := .ending, text := "" } ∧ cursor.after.rest = []
  | token :: tokens => cursor.token = token ∧ Feeds cursor.after.rest tokens

theorem start_holds {scanner : Scanner} {tokens : List Token} (feeds : Feeds scanner.rest tokens) :
    ∃ cursor, Parser.start scanner = some cursor ∧ cursor.Holds tokens := by
  generalize chars : scanner.rest = rest at feeds
  cases feeds with
  | ending =>
      obtain ⟨here, after, next, left⟩ := reads_ending scanner chars
      refine ⟨⟨_, here, after⟩, ?_, rfl, left⟩
      simp [Parser.start, next]
  | next reads feeds =>
      obtain ⟨here, after, next, left⟩ := reads scanner chars
      refine ⟨⟨_, here, after⟩, ?_, rfl, left ▸ feeds⟩
      simp [Parser.start, next]

theorem Cursor.Holds.next {cursor : Cursor} {tokens : List Token} (holds : cursor.Holds tokens) :
    ∃ next, Parser.start cursor.after = some next ∧ next.Holds tokens.tail := by
  cases tokens with
  | nil => exact start_holds (holds.2 ▸ Feeds.ending)
  | cons token tokens => exact start_holds holds.2

def AtAlike (spelled : Spelling) (c d : Cursor) : Prop :=
  ∃ tokens others, List.Forall₂ (Token.Alike spelled) tokens others ∧
    (∀ token ∈ tokens, token.text ≠ "/" ∧ token.text ≠ "/=") ∧ c.Holds tokens ∧ d.Holds others

theorem atAlike_simulation {spelled : Spelling} (plain : spelled.Plain)
    (ending : spelled .ending "" "") : Parser.Simulation spelled (AtAlike spelled) where
  plain := plain
  token := by
    rintro c d ⟨tokens, others, alike, -, holds, holds'⟩
    cases alike with
    | nil =>
        rw [holds.1, holds'.1]
        exact ⟨rfl, ending, rfl, rfl⟩
    | cons first rest =>
        rw [holds.1, holds'.1]
        exact first
  next := by
    rintro c d c' ⟨tokens, others, alike, unslashed, holds, holds'⟩ next
    obtain ⟨after, next', holds⟩ := holds.next
    obtain ⟨after', next'', holds'⟩ := holds'.next
    cases next.symm.trans next'
    refine ⟨after', next'', tokens.tail, others.tail, ?_, ?_, holds, holds'⟩
    · cases alike with
      | nil => exact .nil
      | cons first rest => exact rest
    · exact fun token member => unslashed token (List.mem_of_mem_tail member)
  slash := by
    rintro c d c' regex after ⟨tokens, others, alike, unslashed, holds, -⟩ slash - -
    cases tokens with
    | nil =>
        rw [holds.1] at slash
        simp at slash
    | cons token tokens =>
        rw [holds.1] at slash
        have other := unslashed token List.mem_cons_self
        rcases slash with slash | slash
        · exact absurd slash other.1
        · exact absurd slash other.2

/-! ## Texts of the same fragments -/

def Fragment.respell (table : String → String) (fragment : Fragment) : Fragment :=
  { fragment with text := table fragment.text }

theorem Fragment.Valid.head_ne_slash {fragment : Fragment} (valid : fragment.Valid) :
    fragment.text.toList.head? ≠ some '/' := by
  obtain ⟨c, cs, parts, begins⟩ := valid.begins
  rw [parts, List.head?_cons]
  rintro ⟨⟩
  obtain ⟨kind, text, gap⟩ := fragment
  have letter : startsIdentifier '/' = false := by decide
  cases kind with
  | name => exact absurd begins (by simp [Fragment.Begins, letter])
  | keyword => exact absurd begins (by simp [Fragment.Begins, letter])
  | punctuator =>
      have heads : ∀ mark ∈ Lexeme.punctuators, mark.toList.head? ≠ some '/' := by decide
      exact heads text valid (by simp [parts])
  | number => exact absurd begins (by simp [Fragment.Begins])
  | string => exact absurd begins (by simp [Fragment.Begins])
  | _ => exact valid.elim

def Fragment.Fixed (table : String → String) (fragment : Fragment) : Prop :=
  fragment.kind ≠ .name → fragment.kind ≠ .string → table fragment.text = fragment.text

theorem Fragment.Apart.respell {table : String → String} {first second : Fragment}
    (apart : first.Apart second) (fixed : first.Fixed table) (fixed' : second.Fixed table) :
    (first.respell table).Apart (second.respell table) := by
  obtain ⟨kind, text, gap⟩ := first
  obtain ⟨nextKind, nextText, nextGap⟩ := second
  cases kind <;> cases nextKind <;> try exact apart
  all_goals
    simp only [Fragment.Apart, Fragment.respell, Fragment.Fixed] at *
    simp only [fixed (by simp) (by simp), fixed' (by simp) (by simp)]
    exact apart

theorem token_respell_alike {table : String → String} {fragment : Fragment}
    (fixed : fragment.Fixed table) :
    fragment.token.Alike (Spelling.byTable table) (fragment.respell table).token :=
  ⟨rfl, ⟨fun _ => rfl, fixed⟩, rfl, rfl⟩

def parseWithin (n : Nat) (chars : List Char) : Option Node := do
  let cursor ← Parser.start { rest := chars }
  let (node, _) ← (Parser.program n).run cursor
  pure node

/-- A text of the fragments of an example has the tree of the example, with the names and strings
exchanged. -/
theorem parse?_respell (table : String → String) {fragments others : List Fragment} {n : Nat}
    {node : Node} (parsed : parseWithin n (spell fragments) = some node)
    (apart : fragments.IsChain Fragment.Apart)
    (valid : ∀ fragment ∈ fragments, fragment.Valid) (valid' : ∀ other ∈ others, other.Valid)
    (fixed : ∀ fragment ∈ fragments, fragment.Fixed table)
    (mapped : fragments.map (Fragment.respell table) = others)
    {text : String} (same : text.toList = spell others)
    (enough : n ≤ Parser.levels text.toList.length) :
    Node.parse? text = some (node.respell table) := by
  have feeds := feeds_spell valid apart
  have feeds' : Feeds text.toList ((fragments.map (Fragment.respell table)).map Fragment.token) := by
    rw [same, mapped]
    refine feeds_spell valid' (mapped ▸ (List.isChain_map _).mpr ?_)
    exact apart.imp_of_mem_imp fun first second member member' apart =>
      apart.respell (fixed first member) (fixed second member')
  obtain ⟨c, start, holds⟩ := @start_holds { rest := spell fragments } _ feeds
  obtain ⟨d, start', holds'⟩ := @start_holds { rest := text.toList } _ feeds'
  have alike : AtAlike (Spelling.byTable table) c d := by
    refine ⟨_, _, ?_, ?_, holds, holds'⟩
    · rw [List.map_map, List.forall₂_map_left_iff, List.forall₂_map_right_iff, List.forall₂_same]
      exact fun fragment member => token_respell_alike (fixed fragment member)
    · refine List.forall_mem_map.mpr fun fragment member => ?_
      have head := (valid fragment member).head_ne_slash
      exact ⟨fun same => head (by simp [show fragment.text = "/" from same]),
        fun same => head (by simp [show fragment.text = "/=" from same])⟩
  have run : ∃ c', Parser.program n c = some (node, c') := by
    rw [parseWithin, start] at parsed
    obtain ⟨cursor, same, parsed⟩ := Option.bind_eq_some_iff.mp parsed
    cases same
    obtain ⟨⟨result, c'⟩, run, done⟩ := Option.bind_eq_some_iff.mp parsed
    cases done
    exact ⟨c', run⟩
  obtain ⟨c', run⟩ := run
  have sim : Parser.Simulation (Spelling.byTable table) (AtAlike (Spelling.byTable table)) :=
    atAlike_simulation (Spelling.byTable_plain table) ⟨fun no => absurd rfl no, fun _ _ => rfl⟩
  obtain ⟨other, d', run', related, -⟩ :=
    Parser.program_simulates sim enough c d alike node c' run
  rw [← related.eq_respell]
  refine Option.bind_eq_some_iff.mpr ⟨d, start', ?_⟩
  exact Option.bind_eq_some_iff.mpr ⟨(other, d'), run', rfl⟩

theorem statement_respell (table : String → String) {fragments others : List Fragment} {n : Nat}
    {node : Node} (parsed : parseWithin n (spell fragments) = some (.program [node]))
    (plain : node.bare = node) (apart : fragments.IsChain Fragment.Apart)
    (valid : ∀ fragment ∈ fragments, fragment.Valid) (valid' : ∀ other ∈ others, other.Valid)
    (fixed : ∀ fragment ∈ fragments, fragment.Fixed table)
    (mapped : fragments.map (Fragment.respell table) = others)
    {text : String} (same : text.toList = spell others)
    (enough : n ≤ Parser.levels text.toList.length) :
    Template.statement text [] = .ok (node.respell table) := by
  have read := parse?_respell table parsed apart valid valid' fixed mapped same enough
  have bare : (Node.respell table node).bare = Node.respell table node := by
    rw [Node.bare_respell, plain]
  rw [Template.statement, read]
  simp [Node.program, Node.of, Node.respell, Node.respells, Node.bare, Node.bares, bare]

end ScriptModules.Tree
