import ScriptModules.Proofs.Tree.Position
import ScriptModules.Proofs.Tree.Scanning
import ScriptModules.Proofs.Tree.Simulation

namespace ScriptModules.Tree

namespace Node

inductive Sound : Node → Prop
  | mk {form : Form} {comments : List String} {children : List Node} (fits : form.Fits children)
      (word : ∀ name, form.name? = some name → IsWord name)
      (below : ∀ child ∈ children, Sound child) : Sound (.mk form comments children)

namespace Sound

variable {node : Node}

theorem fits (sound : node.Sound) : node.form.Fits node.children := by
  cases sound
  assumption

theorem word (sound : node.Sound) {name : String} (named : node.form.name? = some name) :
    IsWord name := by
  cases sound with
  | mk _ word _ => exact word name named

theorem child (sound : node.Sound) {child : Node} (member : child ∈ node.children) :
    child.Sound := by
  cases sound with
  | mk _ _ below => exact below child member

theorem leaf (sound : node.Sound) {name : String} (named : node.form.name? = some name) :
    node.children = [] := by
  obtain ⟨fits, -, -⟩ := sound
  rename_i form comments children
  cases form with
  | identifier name => exact fits
  | propertyName name => exact fits
  | _ => cases named

theorem at? (sound : node.Sound) {p : Position} {below : Node} (here : node.at? p = some below) :
    below.Sound := by
  induction p generalizing node with
  | nil =>
      rw [at?_nil] at here
      cases here
      exact sound
  | cons i p ih =>
      rw [at?_cons] at here
      obtain ⟨child, member, here⟩ := Option.bind_eq_some_iff.mp here
      exact ih (sound.child (List.mem_of_getElem? member)) here

end Sound

def KeyLike (new old : Node) : Prop :=
  ∀ name, old.form = .propertyName name → ∃ name, new.form = .propertyName name

theorem keyLike_modifyAt {change : Node → Node} {root : Node} {p : Position}
    (like : ∀ old, root.at? p = some old → KeyLike (change old) old) :
    KeyLike (root.modifyAt change p) root := by
  cases p with
  | nil =>
      have like := like root (at?_nil root)
      cases root
      exact like
  | cons i p =>
      intro name key
      exact ⟨name, by rw [← key]; cases root; rfl⟩

theorem fits_modify {form : Form} {children : List Node} {index : Nat} {change : Node → Node}
    (fits : form.Fits children)
    (like : ∀ old, children[index]? = some old → KeyLike (change old) old) :
    form.Fits (children.modify index change) := by
  cases form with
  | identifier name =>
      rw [show children = [] from fits]
      simp [Form.Fits]
  | propertyName name =>
      rw [show children = [] from fits]
      simp [Form.Fits]
  | member =>
      obtain ⟨base, key, name, rfl, named⟩ := fits
      match index with
      | 0 => exact ⟨change base, key, name, rfl, named⟩
      | 1 =>
          obtain ⟨name', named'⟩ := like key rfl name named
          exact ⟨base, change key, name', rfl, named'⟩
      | _ + 2 => exact ⟨base, key, name, List.modify_eq_self (by simp), named⟩
  | element =>
      obtain ⟨base, key, rfl⟩ := fits
      match index with
      | 0 => exact ⟨change base, key, rfl⟩
      | 1 => exact ⟨base, change key, rfl⟩
      | _ + 2 => exact ⟨base, key, List.modify_eq_self (by simp)⟩
  | assign operator =>
      obtain ⟨left, right, rfl⟩ := fits
      match index with
      | 0 => exact ⟨change left, right, rfl⟩
      | 1 => exact ⟨left, change right, rfl⟩
      | _ + 2 => exact ⟨left, right, List.modify_eq_self (by simp)⟩
  | _ => trivial

theorem Sound.modifyAt {change : Node → Node} {root : Node} {p : Position} (sound : root.Sound)
    (new : ∀ old, root.at? p = some old → (change old).Sound ∧ KeyLike (change old) old) :
    (root.modifyAt change p).Sound := by
  induction p generalizing root with
  | nil =>
      have new := (new root (at?_nil root)).1
      cases root
      exact new
  | cons i p ih =>
      obtain ⟨form, comments, children⟩ := root
      obtain ⟨fits, word, below⟩ := sound
      have at?_eq {old : Node} (place : children[i]? = some old) (q : Position) :
          (Node.mk form comments children).at? (i :: q) = old.at? q := by
        rw [at?_cons, children_mk, place, Option.bind_some]
      rw [Node.modifyAt]
      refine .mk (fits_modify fits fun old place => ?_) word ?_
      · exact keyLike_modifyAt fun below here => (new below (by rw [at?_eq place]; exact here)).2
      · intro child member
        obtain ⟨j, here⟩ := List.mem_iff_getElem?.mp member
        by_cases same : i = j
        · subst same
          rw [List.getElem?_modify_eq] at here
          obtain ⟨old, place, rfl⟩ := Option.map_eq_some_iff.mp here
          exact ih (below old (List.mem_of_getElem? place)) fun lower found =>
            new lower (by rw [at?_eq place]; exact found)
        · rw [List.getElem?_modify_ne _ _ same] at here
          exact below child (List.mem_of_getElem? here)

theorem Sound.withComments {node : Node} (sound : node.Sound) (comments : List String) :
    (node.withComments comments).Sound := by
  cases sound with
  | mk fits word below => exact .mk fits word below

theorem Sound.inPlaceOf {new : Node} (sound : new.Sound) (old : Node) :
    (new.inPlaceOf old).Sound := by
  unfold Node.inPlaceOf
  split
  · exact sound.withComments _
  · exact sound

theorem sound_mk_iff {form : Form} {comments : List String} {children : List Node} :
    (mk form comments children).Sound ↔ form.Fits children ∧
      (∀ name, form.name? = some name → IsWord name) ∧ ∀ child ∈ children, child.Sound :=
  ⟨fun sound => ⟨sound.fits, fun _ => sound.word, fun _ => sound.child⟩,
    fun ⟨fits, word, below⟩ => .mk fits word below⟩

theorem fits_dropLeadingComments {form : Form} {child : Node} {children : List Node}
    (fits : form.Fits (child :: children)) :
    form.Fits (child.dropLeadingComments :: children) := by
  cases form with
  | identifier name => cases fits
  | propertyName name => cases fits
  | member =>
      obtain ⟨base, key, name, same, named⟩ := fits
      cases same
      exact ⟨_, key, name, rfl, named⟩
  | element =>
      obtain ⟨base, key, same⟩ := fits
      cases same
      exact ⟨_, key, rfl⟩
  | assign operator =>
      obtain ⟨left, right, same⟩ := fits
      cases same
      exact ⟨_, right, rfl⟩
  | _ => trivial

theorem Sound.dropLeadingComments {node : Node} (sound : node.Sound) :
    node.dropLeadingComments.Sound := by
  induction node using Node.dropLeadingComments.induct with
  | case1 form comment comments children => exact sound.withComments []
  | case2 form => exact sound
  | case3 form child children ih =>
      obtain ⟨fits, word, below⟩ := sound_mk_iff.mp sound
      obtain ⟨first, rest⟩ := List.forall_mem_cons.mp below
      rw [Node.dropLeadingComments]
      exact .mk (fits_dropLeadingComments fits) word (List.forall_mem_cons.mpr ⟨ih first, rest⟩)

end Node

/-! ## Trees of programs -/

def Spelling.words : Spelling := fun kind text other =>
  other = text ∧ (kind = .name ∨ kind = .keyword → IsWord text)

mutual

theorem Node.Alike.sound : ∀ {node other : Node},
    node.Alike Spelling.words other → node.Sound
  | .mk form comments children, _, .mk forms fits below => by
      refine .mk fits ?_ (Node.Alike.sounds below)
      intro name named
      cases forms with
      | identifier same =>
          cases named
          exact same.2 (.inl rfl)
      | propertyName word same =>
          cases named
          exact same.2 word
      | string => cases named
      | plain unnamed =>
          rw [unnamed] at named
          cases named

theorem Node.Alike.sounds : ∀ {nodes others : List Node},
    List.Forall₂ (Node.Alike Spelling.words) nodes others → ∀ node ∈ nodes, node.Sound
  | [], _, .nil => by simp
  | node :: nodes, _, .cons first rest =>
      List.forall_mem_cons.mpr ⟨first.sound, Node.Alike.sounds rest⟩

end

theorem isWord_word {c : Char} {cs : List Char} (starts : startsIdentifier c = true) :
    IsWord (String.ofList (Lexeme.word (c :: cs)).1) := by
  refine ⟨(Lexeme.span startsIdentifier (c :: cs)).1,
    (Lexeme.span continuesIdentifier (Lexeme.span startsIdentifier (c :: cs)).2).1,
    String.toList_ofList, ?_, ?_, ?_⟩
  · simp [Lexeme.span, starts]
  · exact fun d member => List.mem_takeWhile_imp member
  · exact fun d member => List.mem_takeWhile_imp member

theorem isWord_of_lexeme {scanner : Scanner} {chars text rest : List Char} {kind : TokenKind}
    (read : scanner.lexeme chars = some (kind, text, rest)) (word : kind = .name ∨ kind = .keyword) :
    IsWord (String.ofList text) := by
  cases chars with
  | nil =>
      cases read
      rcases word with word | word <;> cases word
  | cons c cs =>
      rw [Scanner.lexeme.eq_def] at read
      dsimp only at read
      split at read
      · rename_i starts
        cases read
        exact isWord_word starts
      · suffices other : kind = .string ∨ kind = .punctuator ∨ kind = .regex ∨ kind = .number by
          rcases word with rfl | rfl <;> simp at other
        have of_map {result : Option Lexeme} {other : TokenKind}
            (read : result.map (other, ·) = some (kind, text, rest)) : kind = other := by
          obtain ⟨lexeme, -, same⟩ := Option.map_eq_some_iff.mp read
          cases same
          rfl
        split at read
        · exact .inl (of_map read)
        · split at read
          · split at read
            · split at read <;> cases read <;> simp
            · exact .inr (.inr (.inl (of_map read)))
          · split at read
            · cases read
              simp
            · exact .inr (.inl (of_map read))

/-! ## Reading -/

def Cursor.Sound (cursor : Cursor) : Prop :=
  cursor.token.kind = .name ∨ cursor.token.kind = .keyword → IsWord cursor.token.text

theorem start_sound {scanner : Scanner} {cursor : Cursor}
    (start : Parser.start scanner = some cursor) : cursor.Sound := by
  obtain ⟨⟨token, here, after⟩, next, same⟩ := Option.bind_eq_some_iff.mp start
  cases same
  rw [Scanner.next] at next
  split at next
  · cases next
    rintro (word | word) <;> cases word
  · obtain ⟨⟨gap, start⟩, -, next⟩ := Option.bind_eq_some_iff.mp next
    obtain ⟨⟨kind, text, rest⟩, read, next⟩ := Option.bind_eq_some_iff.mp next
    cases next
    exact isWord_of_lexeme read

theorem sound_simulation :
    Parser.Simulation Spelling.words fun c d => c = d ∧ c.Sound where
  plain := fun _ _ _ same _ _ => same.1
  token := by
    rintro c d ⟨rfl, sound⟩
    exact ⟨rfl, ⟨rfl, sound⟩, rfl, rfl⟩
  next := by
    rintro c d c' ⟨rfl, -⟩ start
    exact ⟨c', start, rfl, start_sound start⟩
  slash := by
    rintro c d c' regex after ⟨rfl, -⟩ - read start
    exact ⟨regex, after, c', read, start, rfl, rfl, start_sound start⟩

theorem parse?_sound {text : String} {node : Node} (parsed : Node.parse? text = some node) :
    node.Sound := by
  obtain ⟨cursor, start, parsed⟩ := Option.bind_eq_some_iff.mp parsed
  obtain ⟨⟨result, last⟩, run, same⟩ := Option.bind_eq_some_iff.mp parsed
  cases same
  obtain ⟨other, -, -, alike, -⟩ := Parser.program_simulates sound_simulation (Nat.le_refl _)
    cursor cursor ⟨rfl, start_sound start⟩ node last run
  exact alike.sound

theorem parse?_eq_program {text : String} {node : Node} (parsed : Node.parse? text = some node) :
    node = .program node.children := by
  obtain ⟨cursor, -, parsed⟩ := Option.bind_eq_some_iff.mp parsed
  obtain ⟨⟨result, last⟩, run, same⟩ := Option.bind_eq_some_iff.mp parsed
  cases same
  obtain ⟨statements, between, -, run⟩ := Parser.bind_eq_some.mp run
  obtain ⟨token, next, peeked, run⟩ := Parser.bind_eq_some.mp run
  split at run
  · cases run
    rfl
  · cases run

theorem parse?_program {text : String} {node : Node} (parsed : Node.parse? text = some node) :
    node.form = .program := by
  rw [parse?_eq_program parsed]
  rfl

end ScriptModules.Tree
