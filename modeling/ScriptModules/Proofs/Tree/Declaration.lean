import ScriptModules.Proofs.Tree.Scanning
import ScriptModules.Proofs.Tree.Simulation
import ScriptModules.Text.Alphanumeric

namespace ScriptModules.Tree

namespace Parser

theorem advance_eq_some {c d : Cursor} {token : Token} (run : advance c = some (token, d)) :
    start c.after = some d := by
  obtain ⟨next, here, same⟩ := Option.bind_eq_some_iff.mp run
  cases same
  exact here

def EndsName (token : Token) : Prop :=
  token.kind = .punctuator ∨ token.kind = .terminator ∨ token.kind = .ending ∨
    token.afterBreak = true

theorem endsName_of_isMark {token : Token} {text : String} (mark : token.isMark text = true) :
    EndsName token := by
  simp only [Token.isMark, Bool.and_eq_true, beq_iff_eq] at mark
  exact .inl mark.1

theorem peek_bind {β : Type} (f : Token → Parser β) (c : Cursor) :
    (peek >>= f) c = f c.token c :=
  rfl

theorem endsName_of_terminator {c d : Cursor} {value : Unit}
    (run : terminator c = some (value, d)) : EndsName c.token := by
  rw [terminator, peek_bind] at run
  split at run
  · rename_i ends
    exact ends.elim endsName_of_isMark fun kind => .inr (.inl kind)
  · split at run
    · rename_i ends
      rcases ends with mark | kind | line
      · exact endsName_of_isMark mark
      · exact .inr (.inr (.inl kind))
      · exact .inr (.inr (.inr line))
    · cases run

theorem initializer_eq_some {n : Nat} {allowIn : Bool} {c d : Cursor} {value : List Node}
    (run : initializer n allowIn c = some (value, d)) : EndsName c.token ∨ d = c := by
  cases n with
  | zero => cases run
  | succ n =>
      rw [initializer, peek_bind] at run
      split at run
      · rename_i mark
        exact .inl (endsName_of_isMark mark)
      · cases run
        exact .inr rfl

theorem moreDeclarators_eq_some {n : Nat} {allowIn : Bool} {declarator : Node} {c d : Cursor}
    {declarators : List Node}
    (run : moreDeclarators n allowIn declarator c = some (declarators, d)) :
    EndsName c.token ∨ d = c := by
  cases n with
  | zero => cases run
  | succ n =>
      rw [moreDeclarators, peek_bind] at run
      split at run
      · rename_i mark
        exact .inl (endsName_of_isMark mark)
      · cases run
        exact .inr rfl

theorem identifier_eq_some {c d : Cursor} {node : Node} (run : identifier c = some (node, d)) :
    c.token.kind = .name ∧ start c.after = some d := by
  rw [identifier, peek_bind] at run
  split at run
  · rename_i name
    obtain ⟨token, between, taken, run⟩ := bind_eq_some.mp run
    cases run
    exact ⟨name, advance_eq_some taken⟩
  · cases run

theorem declarators_eq_some {n : Nat} {allowIn : Bool} {c d : Cursor} {declarators : List Node}
    (run : Parser.declarators n allowIn c = some (declarators, d)) :
    c.token.kind = .name ∧ ∃ next, start c.after = some next ∧ (EndsName next.token ∨ d = next) := by
  cases n with
  | zero => cases run
  | succ n =>
      rw [Parser.declarators] at run
      obtain ⟨name, next, read, run⟩ := bind_eq_some.mp run
      obtain ⟨kind, start⟩ := identifier_eq_some read
      obtain ⟨value, later, initial, more⟩ := bind_eq_some.mp run
      refine ⟨kind, next, start, ?_⟩
      rcases initializer_eq_some initial with ends | rfl
      · exact .inl ends
      · exact moreDeclarators_eq_some more

theorem name_of_program {n : Nat} {cursor last : Cursor} {node : Node}
    (var : cursor.token.isKeyword "var" = true) (run : program n cursor = some (node, last)) :
    ∃ second third, start cursor.after = some second ∧ second.token.kind = .name ∧
      start second.after = some third ∧ EndsName third.token := by
  obtain ⟨nodes, end', run, -⟩ := bind_eq_some.mp run
  simp only [Token.isKeyword, Bool.and_eq_true, beq_iff_eq] at var
  cases n with
  | zero => cases run
  | succ n =>
      rw [statements, peek_bind, if_neg (by simp [endsStatements, Token.isMark, Token.isKeyword,
        var])] at run
      obtain ⟨node, between, run, -⟩ := bind_eq_some.mp run
      cases n with
      | zero => cases run
      | succ n =>
          rw [statement, peek_bind, var.1] at run
          dsimp only at run
          rw [if_pos var.2] at run
          obtain ⟨token, second, taken, run⟩ := bind_eq_some.mp run
          obtain ⟨declared, later, read, run⟩ := bind_eq_some.mp run
          obtain ⟨kind, third, start, ends⟩ := declarators_eq_some read
          obtain ⟨⟨⟩, after, terminated, -⟩ := bind_eq_some.mp run
          refine ⟨second, third, advance_eq_some taken, kind, start, ?_⟩
          rcases ends with ends | rfl
          · exact ends
          · exact endsName_of_terminator terminated

end Parser

/-! ## Words -/

def IsLettered (c : Char) : Prop :=
  Text.isAlphanumeric c = true ∨ c = '_' ∨ c = '$'

instance : DecidablePred IsLettered := fun c =>
  inferInstanceAs (Decidable (Text.isAlphanumeric c = true ∨ c = '_' ∨ c = '$'))

theorem not_isAlphanumeric_of_isBlank {c : Char} (blank : Text.isBlank c = true) :
    Text.isAlphanumeric c = false := by
  have apart : ∀ blank ∈ Text.blankRuns, ∀ letters ∈ Text.alphanumericRuns,
      blank.2 < letters.1 ∨ letters.2 < blank.1 := by
    decide +kernel
  have low : ∀ n < 0x80, Text.isBlank (Char.ofNat n) = true →
      Text.isAlphanumeric (Char.ofNat n) = false := by
    decide
  obtain ⟨run, member, above, below⟩ := (inRuns_iff _ _).mp blank
  rw [Bool.eq_false_iff]
  intro letter
  by_cases ascii : c.toNat < 0x80
  · have no := of_ascii low ascii blank
    rw [letter] at no
    cases no
  · rw [Text.isAlphanumeric, if_neg ascii] at letter
    obtain ⟨letters, member', above', below'⟩ := (inRuns_iff _ _).mp letter
    rcases apart run member letters member' with before | before <;> omega

theorem IsLettered.inner {c : Char} (lettered : IsLettered c) :
    Lexeme.isSpace c = false ∧ Lexeme.isLineBreak c = false ∧ c ≠ '/' ∧ c ≠ '"' ∧ c ≠ '\x27' := by
  have other (d : Char) (no : ¬IsLettered d) : c ≠ d := by
    rintro rfl
    exact no lettered
  have blank : Text.isBlank c = false := by
    rw [Bool.eq_false_iff]
    intro blank
    rcases lettered with letter | rfl | rfl
    · rw [not_isAlphanumeric_of_isBlank blank] at letter
      cases letter
    · revert blank
      decide
    · revert blank
      decide
  have spaces : ∀ d ∈ [' ', '\t', '\x0b', '\x0c', '\u2028', '\u2029', '\ufeff', '\n', '\x0d', '/',
      '"', '\x27'], ¬IsLettered d := by
    decide +kernel
  simp only [List.forall_mem_cons, List.not_mem_nil, false_imp_iff, implies_true, and_true]
    at spaces
  obtain ⟨s1, s2, s3, s4, s5, s6, s7, s8, s9, s10, s11, s12⟩ := spaces
  refine ⟨?_, ?_, other _ s10, other _ s11, other _ s12⟩
  · simp [Lexeme.isSpace, blank, other _ s1, other _ s2, other _ s3, other _ s4, other _ s5,
      other _ s6, other _ s7]
  · simp [Lexeme.isLineBreak, other _ s8, other _ s9]

theorem lexeme_eq_none {c : Char} (lettered : IsLettered c) (starts : startsIdentifier c = false)
    (digit : c.isDigit = false) (scanner : Scanner) (cs : List Char) :
    scanner.lexeme (c :: cs) = none := by
  obtain ⟨-, -, slash, double, single⟩ := lettered.inner
  have heads : ∀ mark ∈ Lexeme.punctuators, ∃ d ∈ mark.toList.head?, ¬IsLettered d := by
    decide +kernel
  have punctuator : Lexeme.punctuator (c :: cs) = none := by
    rw [Lexeme.punctuator, Option.map_eq_none_iff, List.find?_eq_none]
    intro mark member here
    obtain ⟨d, head, no⟩ := heads mark member
    obtain ⟨ds, parts⟩ := List.head?_eq_some_iff.mp head
    rw [parts, List.isPrefixOf, Bool.and_eq_true, beq_iff_eq] at here
    exact no (here.1 ▸ lettered)
  have number : Lexeme.number (c :: cs) = none := by
    have zero : c ≠ '0' := by
      rintro rfl
      cases digit
    have point : c ≠ '.' := by
      rintro rfl
      exact absurd lettered (by decide)
    simp [Lexeme.number, Lexeme.decimal, Lexeme.span, digit, zero, point]
  simp [Scanner.lexeme, starts, double, single, slash, number, punctuator]

theorem span_append {p : Char → Bool} {cs more : List Char} {d : Char}
    (stops : (Lexeme.span p cs).2 = d :: more) (tail : List Char) :
    Lexeme.span p (cs ++ tail) = ((Lexeme.span p cs).1, d :: more ++ tail) ∧ p d = false := by
  simp only [Lexeme.span] at stops ⊢
  induction cs with
  | nil => cases stops
  | cons c cs ih =>
      cases holds : p c with
      | true =>
          rw [List.dropWhile_cons_of_pos holds] at stops
          obtain ⟨whole, no⟩ := ih stops
          obtain ⟨front, back⟩ := Prod.mk.inj whole
          refine ⟨?_, no⟩
          rw [List.cons_append, List.takeWhile_cons_of_pos holds, List.dropWhile_cons_of_pos holds,
            List.takeWhile_cons_of_pos holds, front, back]
      | false =>
          rw [List.dropWhile_cons_of_neg (by simp [holds])] at stops
          obtain ⟨rfl, rfl⟩ := List.cons.inj stops
          simp [holds]

theorem word_stops {cs more : List Char} {d : Char} (stops : (Lexeme.word cs).2 = d :: more)
    (tail : List Char) :
    Lexeme.word (cs ++ tail) = ((Lexeme.word cs).1, d :: more ++ tail) ∧
      continuesIdentifier d = false := by
  rw [Lexeme.word] at stops
  dsimp only at stops
  cases start : (Lexeme.span startsIdentifier cs).2 with
  | nil =>
      rw [start] at stops
      cases stops
  | cons e rest =>
      obtain ⟨first, -⟩ := span_append start tail
      obtain ⟨second, inner⟩ := span_append stops tail
      rw [start] at second
      refine ⟨?_, inner⟩
      rw [Lexeme.word, Lexeme.word, first]
      dsimp only
      rw [second, start]

theorem start_lettered {c : Char} (lettered : IsLettered c) (cs : List Char) (gap : Bool)
    {scanner : Scanner} (chars : scanner.rest = (if gap then [' '] else []) ++ c :: cs)
    {cursor : Cursor} (start : Parser.start scanner = some cursor) :
    ∃ kind text rest, scanner.lexeme (c :: cs) = some (kind, text, rest) ∧
      cursor.token = { kind, text := String.ofList text } ∧ cursor.after.rest = rest := by
  obtain ⟨space, line, slash, -, -⟩ := lettered.inner
  obtain ⟨found, next, same⟩ := Option.bind_eq_some_iff.mp start
  rw [next_eq_lexeme slash space line gap chars] at next
  obtain ⟨⟨kind, text, rest⟩, lexeme, rfl⟩ := Option.map_eq_some_iff.mp next
  cases same
  exact ⟨kind, text, rest, lexeme, rfl, pass_rest scanner _ _⟩

theorem word_of_lexeme {c : Char} (lettered : IsLettered c) (digit : c.isDigit = false)
    {scanner : Scanner} {cs text rest : List Char} {kind : TokenKind}
    (lexeme : scanner.lexeme (c :: cs) = some (kind, text, rest)) :
    startsIdentifier c = true ∧ Lexeme.word (c :: cs) = (text, rest) ∧
      (kind = .accessor ∨ kind = .keyword ∨ kind = .name) := by
  have starts : startsIdentifier c = true := by
    by_contra no
    rw [lexeme_eq_none lettered (eq_false_of_ne_true no) digit] at lexeme
    cases lexeme
  simp only [Scanner.lexeme, starts, if_true, Option.some.injEq, Prod.mk.injEq] at lexeme
  obtain ⟨kind, word⟩ := lexeme
  refine ⟨starts, word, ?_⟩
  rw [← kind, Scanner.wordKind]
  split_ifs <;> simp

theorem isWord_of_declaration {name : String} {c : Char} {cs tail : List Char}
    (parts : name.toList = c :: cs) (digit : c.isDigit = false)
    (lettered : ∀ d ∈ name.toList, IsLettered d) {text : String} {node : Node}
    (same : text.toList = "var ".toList ++ (name.toList ++ tail))
    (parsed : Node.parse? text = some node) : IsWord name := by
  obtain ⟨cursor, start, parsed⟩ := Option.bind_eq_some_iff.mp parsed
  obtain ⟨⟨node, last⟩, run, -⟩ := Option.bind_eq_some_iff.mp parsed
  -- the declaration begins with its reserved word
  have var : IsWord "var" := by decide
  have known : "var" ∈ Lexeme.keywords := by decide
  have blank : EndsWord (' ' :: (name.toList ++ tail)) := by
    simp [EndsWord, show startsIdentifier ' ' = false by decide,
      show continuesIdentifier ' ' = false by decide]
  have reads := var.reads blank (by simp [Scanner.introducesAccessor]) false
  rw [if_pos known] at reads
  obtain ⟨here, after, next, left⟩ := reads { rest := text.toList } (by simp [same])
  obtain ⟨first, firstNext, firstSame⟩ := Option.bind_eq_some_iff.mp start
  rw [next] at firstNext
  cases firstNext
  cases firstSame
  obtain ⟨second, third, secondStart, kind, thirdStart, ends⟩ := Parser.name_of_program rfl run
  -- the word behind it is the name or ends inside of it
  obtain ⟨kind', text', rest, lexeme, secondToken, secondRest⟩ :=
    start_lettered (lettered c (by simp [parts])) (cs ++ tail) true
      (by rw [left, parts]; rfl) secondStart
  obtain ⟨starts, read, -⟩ := word_of_lexeme (lettered c (by simp [parts])) digit lexeme
  refine (isWord_iff name).mpr ⟨⟨c, by simp [parts], starts⟩, ?_⟩
  cases stops : (Lexeme.word name.toList).2 with
  | nil => rfl
  | cons d more =>
      exfalso
      obtain ⟨whole, inner⟩ := word_stops stops tail
      rw [parts, List.cons_append, read] at whole
      have member : d ∈ name.toList := by
        have within : (Lexeme.word name.toList).2.Sublist name.toList :=
          (List.dropWhile_sublist _).trans (List.dropWhile_sublist _)
        exact within.subset (by simp [stops])
      obtain ⟨kind'', text'', rest', lexeme', thirdToken, -⟩ :=
        start_lettered (lettered d member) (more ++ tail) false
          (by rw [secondRest]; exact (Prod.mk.inj whole).2) thirdStart
      have plain : d.isDigit = false := by
        rw [Bool.eq_false_iff]
        intro digit
        rw [continuesIdentifier_of_isPlain (by simp [Text.isPlain, Char.isAlphanum, digit])]
          at inner
        cases inner
      -- a second word, and nothing that could end the first declaration
      obtain ⟨-, -, word⟩ := word_of_lexeme (lettered d member) plain lexeme'
      rw [Parser.EndsName, thirdToken] at ends
      rcases word with rfl | rfl | rfl <;> simp at ends

end ScriptModules.Tree
