import Mathlib
import ScriptModules.Text.Identifier
import ScriptModules.Text.Quoted
import ScriptModules.Tree.Parser

namespace ScriptModules.Tree

/-! ## Bounded quantifiers

A statement about the characters of a list is decided on the list. The instances for all of `Char`
apply to it as well, and go through every character there is. -/

section

variable (holds : Char → Prop) [DecidablePred holds]

instance decidableForallMem (cs : List Char) : Decidable (∀ c ∈ cs, holds c) :=
  List.decidableBAll holds cs

instance decidableExistsMem (cs : List Char) : Decidable (∃ c ∈ cs, holds c) :=
  List.decidableBEx holds cs

instance decidableExistsMemOption (c? : Option Char) : Decidable (∃ c ∈ c?, holds c) :=
  Option.decidableExistsMem c?

end

/-! ## Words -/

def IsWord (text : String) : Prop :=
  ∃ start tail, text.toList = start ++ tail ∧ start ≠ [] ∧
    (∀ c ∈ start, startsIdentifier c = true) ∧ ∀ c ∈ tail, continuesIdentifier c = true

def IsName (text : String) : Prop :=
  IsWord text ∧ text ∉ Lexeme.keywords

def EndsWord (rest : List Char) : Prop :=
  ∀ c ∈ rest.head?, startsIdentifier c = false ∧ continuesIdentifier c = false

theorem of_ascii {given holds : Char → Bool}
    (low : ∀ n < 0x80, given (Char.ofNat n) = true → holds (Char.ofNat n) = false) {c : Char}
    (ascii : c.toNat < 0x80) (here : given c = true) : holds c = false := by
  have no := low c.toNat ascii (by rwa [Char.ofNat_toNat])
  rwa [Char.ofNat_toNat] at no

theorem inRuns_iff (runs : List (Nat × Nat)) (c : Char) :
    Text.inRuns runs c = true ↔ ∃ run ∈ runs, run.1 ≤ c.toNat ∧ c.toNat ≤ run.2 := by
  simp [Text.inRuns, Text.runOf, List.find?_isSome]

theorem not_startsIdentifier_of_isBlank {c : Char} (blank : Text.isBlank c = true) :
    startsIdentifier c = false := by
  have apart : ∀ blank ∈ Text.blankRuns, ∀ letters ∈ letterRuns,
      blank.2 < letters.1 ∨ letters.2 < blank.1 := by
    decide +kernel
  have low : ∀ n < 0x80, Text.isBlank (Char.ofNat n) = true →
      startsIdentifier (Char.ofNat n) = false := by
    decide
  obtain ⟨run, member, above, below⟩ := (inRuns_iff _ _).mp blank
  rw [Bool.eq_false_iff]
  intro starts
  by_cases ascii : c.toNat < 0x80
  · have no := of_ascii low ascii blank
    rw [starts] at no
    cases no
  · rw [startsIdentifier, if_neg ascii] at starts
    obtain ⟨letters, member', above', below'⟩ := (inRuns_iff _ _).mp starts
    rcases apart run member letters member' with before | before <;> omega

theorem not_startsIdentifier_of_isSpace {c : Char} (space : Lexeme.isSpace c = true) :
    startsIdentifier c = false := by
  simp only [Lexeme.isSpace, Bool.or_eq_true, Bool.and_eq_true, beq_iff_eq] at space
  rcases space with ((((((rfl | rfl) | rfl) | rfl) | rfl) | rfl) | rfl) | ⟨-, blank⟩
  all_goals first
    | decide
    | exact not_startsIdentifier_of_isBlank blank

theorem toNat_lt_of_isDigit {c : Char} (digit : c.isDigit = true) : c.toNat < 0x80 := by
  simp only [Char.isDigit, Bool.and_eq_true, decide_eq_true_eq, UInt32.le_iff_toNat_le] at digit
  exact Nat.lt_of_le_of_lt digit.2 (by decide)

theorem not_startsIdentifier_of_isDigit {c : Char} (digit : c.isDigit = true) :
    startsIdentifier c = false := by
  have low : ∀ n < 0x80, (Char.ofNat n).isDigit = true →
      startsIdentifier (Char.ofNat n) = false := by
    decide
  exact of_ascii low (toNat_lt_of_isDigit digit) digit

theorem toNat_lt_of_isPlain {c : Char} (plain : Text.isPlain c = true) : c.toNat < 0x80 := by
  simp only [Text.isPlain, Char.isAlphanum, Char.isAlpha, Char.isUpper, Char.isLower,
    Char.isDigit, Bool.or_eq_true, Bool.and_eq_true, decide_eq_true_eq, beq_iff_eq,
    UInt32.le_iff_toNat_le] at plain
  rcases plain with (((⟨-, high⟩ | ⟨-, high⟩) | ⟨-, high⟩) | rfl) | rfl
  all_goals first
    | decide
    | exact Nat.lt_of_le_of_lt high (by decide)

theorem continuesIdentifier_of_isPlain {c : Char} (plain : Text.isPlain c = true) :
    continuesIdentifier c = true := by
  rw [continuesIdentifier, if_pos (toNat_lt_of_isPlain plain)]
  exact plain

theorem startsIdentifier_of_isPlain {c : Char} (plain : Text.isPlain c = true)
    (digit : c.isDigit = false) : startsIdentifier c = true := by
  have letter : c.isAlpha = true ∨ c = '_' ∨ c = '$' := by
    simpa [Text.isPlain, Char.isAlphanum, digit, or_assoc] using plain
  simpa [startsIdentifier, if_pos (toNat_lt_of_isPlain plain), or_assoc] using letter

theorem isWord_of_plain {text : String} {c : Char} {cs : List Char} (parts : text.toList = c :: cs)
    (plain : ∀ d ∈ text.toList, Text.isPlain d = true) (digit : c.isDigit = false) :
    IsWord text := by
  rw [parts] at plain
  refine ⟨[c], cs, parts, by simp, ?_, ?_⟩
  · intro d member
    rw [List.mem_singleton.mp member]
    exact startsIdentifier_of_isPlain (plain c List.mem_cons_self) digit
  · exact fun d member => continuesIdentifier_of_isPlain (plain d (List.mem_cons_of_mem c member))

theorem IsWord.starts {text : String} (word : IsWord text) :
    ∃ c cs, text.toList = c :: cs ∧ startsIdentifier c = true := by
  obtain ⟨start, tail, parts, nonempty, starts, -⟩ := word
  obtain ⟨c, cs, rfl⟩ := List.exists_cons_of_ne_nil nonempty
  exact ⟨c, cs ++ tail, parts, starts c List.mem_cons_self⟩

theorem continues_or_starts_span {tail rest : List Char}
    (continues : ∀ c ∈ tail, continuesIdentifier c = true) (ends : EndsWord rest) :
    let start := Lexeme.span startsIdentifier (tail ++ rest)
    let more := Lexeme.span continuesIdentifier start.2
    start.1 ++ more.1 = tail ∧ more.2 = rest := by
  have stops (p : Char → Bool) (no : ∀ c ∈ rest.head?, p c = false) :
      rest.takeWhile p = [] ∧ rest.dropWhile p = rest := by
    cases rest with
    | nil => exact ⟨rfl, rfl⟩
    | cons c cs => simp [no c rfl]
  have stopsStart := stops startsIdentifier fun c head => (ends c head).1
  have stopsMore := stops continuesIdentifier fun c head => (ends c head).2
  induction tail with
  | nil => simp [Lexeme.span, stopsStart, stopsMore]
  | cons c tail ih =>
      have ih := ih fun d member => continues d (List.mem_cons_of_mem c member)
      by_cases starts : startsIdentifier c = true
      · simp only [Lexeme.span] at ih ⊢
        simp only [List.cons_append, List.takeWhile_cons, List.dropWhile_cons, starts, if_true]
        exact ⟨congrArg (c :: ·) ih.1, ih.2⟩
      · have none : startsIdentifier c = false := by simpa using starts
        have all : ∀ d ∈ c :: tail, continuesIdentifier d = true := continues
        simp only [Lexeme.span, List.cons_append, List.takeWhile_cons, List.dropWhile_cons, none]
        rw [← List.cons_append, if_neg (by simp), if_neg (by simp), List.nil_append]
        rw [List.takeWhile_append_of_pos all, List.dropWhile_append_of_pos all, stopsMore.1,
          stopsMore.2, List.append_nil]
        exact ⟨rfl, rfl⟩

theorem word_append {text : String} (word : IsWord text) {rest : List Char}
    (ends : EndsWord rest) : Lexeme.word (text.toList ++ rest) = (text.toList, rest) := by
  obtain ⟨start, tail, parts, -, starts, continues⟩ := word
  obtain ⟨whole, left⟩ := continues_or_starts_span continues ends
  rw [parts, List.append_assoc, Lexeme.word]
  simp only [Lexeme.span] at whole left ⊢
  rw [List.takeWhile_append_of_pos starts, List.dropWhile_append_of_pos starts]
  rw [List.append_assoc, whole, left]

theorem isWord_iff (text : String) :
    IsWord text ↔ (∃ c ∈ text.toList.head?, startsIdentifier c = true) ∧
      (Lexeme.word text.toList).2 = [] := by
  constructor
  · intro word
    obtain ⟨c, cs, parts, starts⟩ := word.starts
    have read := word_append word (show EndsWord [] by simp [EndsWord])
    rw [List.append_nil] at read
    exact ⟨⟨c, by simp [parts], starts⟩, by rw [read]⟩
  · rintro ⟨⟨c, head, starts⟩, all⟩
    obtain ⟨cs, parts⟩ := List.head?_eq_some_iff.mp head
    refine ⟨text.toList.takeWhile startsIdentifier, text.toList.dropWhile startsIdentifier,
      List.takeWhile_append_dropWhile.symm, ?_, ?_, ?_⟩
    · simp [parts, starts]
    · exact fun c member => List.mem_takeWhile_imp member
    · exact List.dropWhile_eq_nil_iff.mp all

instance : DecidablePred IsWord := fun text => decidable_of_iff _ (isWord_iff text).symm

instance : DecidablePred IsName := fun text =>
  inferInstanceAs (Decidable (IsWord text ∧ text ∉ Lexeme.keywords))

example : IsName "toString" := by decide

/-! ## Marks and quoted strings -/

/-- The characters that make some mark a longer one. -/
def extenders : List Char :=
  ['=', '<', '>', '&', '|', '+', '-']

theorem punctuator_append {mark : String} (known : mark ∈ Lexeme.punctuators) {rest : List Char}
    (ends : ∀ c ∈ rest.head?, c ∉ extenders) :
    Lexeme.punctuator (mark.toList ++ rest) = some (mark.toList, rest) := by
  have same : ∀ other ∈ Lexeme.punctuators,
      other.toList.isPrefixOf (mark.toList ++ rest) = other.toList.isPrefixOf mark.toList := by
    intro other member
    rw [Bool.eq_iff_iff, List.isPrefixOf_iff_prefix, List.isPrefixOf_iff_prefix]
    refine ⟨fun before => ?_, fun before => before.trans (List.prefix_append _ _)⟩
    by_cases short : other.toList.length ≤ mark.toList.length
    · exact List.prefix_of_prefix_length_le before (List.prefix_append _ _) short
    · have longer : mark.toList <+: other.toList :=
        List.prefix_of_prefix_length_le (List.prefix_append _ _) before (by omega)
      have extended : ∀ mark ∈ Lexeme.punctuators, ∀ other ∈ Lexeme.punctuators,
          mark.toList.isPrefixOf other.toList → mark.toList.length < other.toList.length →
          ∃ c ∈ extenders, (other.toList.drop mark.toList.length).head? = some c := by
        decide
      obtain ⟨c, extender, head⟩ := extended mark known other member
        (List.isPrefixOf_iff_prefix.mpr longer) (by omega)
      obtain ⟨more, whole⟩ := longer
      obtain ⟨left, whole'⟩ := before
      rw [← whole, List.append_assoc, List.append_cancel_left_eq] at whole'
      rw [← whole, List.drop_left] at head
      cases more with
      | nil => cases head
      | cons d more =>
          cases head
          rw [← whole'] at ends
          exact absurd extender (ends c rfl)
  have found : ∀ mark ∈ Lexeme.punctuators,
      Lexeme.punctuators.find? (fun other => other.toList.isPrefixOf mark.toList) = some mark := by
    decide
  rw [Lexeme.punctuator, ← List.head?_filter, List.filter_congr same, List.head?_filter,
    found mark known]
  simp

theorem stringTail_escape (c : Char) (rest : List Char) :
    Lexeme.stringTail '\x27' (Text.Quoted.escape c ++ rest) =
      (Lexeme.stringTail '\x27' rest).map fun tail => (Text.Quoted.escape c ++ tail.1, tail.2) := by
  unfold Text.Quoted.escape
  split
  case h_7 _ notBackslash notQuote notFeed notReturn notLine notParagraph =>
      rw [imp_false] at notBackslash notQuote notFeed notReturn notLine notParagraph
      have plain : Lexeme.isLineEnd c = false := by
        simp [Lexeme.isLineEnd, Lexeme.isLineBreak, notFeed, notReturn, notLine, notParagraph]
      simp [Lexeme.stringTail, notBackslash, notQuote, plain]
  all_goals
    simp [Lexeme.stringTail, Lexeme.isLineEnd, Lexeme.isLineBreak, Lexeme.isOctal,
      Lexeme.isSingleEscape, Lexeme.isHex, Char.isAlpha, Char.isUpper, Char.isLower]

theorem string_quote (content : String) (rest : List Char) :
    Lexeme.string ((Text.Quoted.quote content).toList ++ rest) =
      some ((Text.Quoted.quote content).toList, rest) := by
  have tail : ∀ text : List Char,
      Lexeme.stringTail '\x27' (text.flatMap Text.Quoted.escape ++ '\x27' :: rest) =
        some (text.flatMap Text.Quoted.escape ++ ['\x27'], rest) := by
    intro text
    induction text with
    | nil => simp [Lexeme.stringTail]
    | cons c text ih =>
        rw [List.flatMap_cons, List.append_assoc, stringTail_escape, ih]
        simp
  simp [Text.Quoted.quote, Text.Quoted.encode, Lexeme.string, tail]

/-! ## Tokens one after another -/

def Reads (chars : List Char) (token : Token) (rest : List Char) : Prop :=
  ∀ scanner : Scanner, scanner.rest = chars →
    ∃ here after, scanner.next = some (token, here, after) ∧ after.rest = rest

theorem pass_rest (scanner : Scanner) (token : Token) (rest : List Char) :
    (scanner.pass token rest).rest = rest := by
  unfold Scanner.pass
  dsimp only
  split
  · rfl
  · split <;> rfl

theorem reads_ending : Reads [] { kind := .ending, text := "" } [] := by
  intro scanner chars
  refine ⟨{ scanner with rest := [] }, scanner.pass { kind := .ending, text := "" } [], ?_,
    pass_rest scanner _ _⟩
  rw [Scanner.next]
  have nowhere : scanner.directBreak? = none := by simp [Scanner.directBreak?, chars]
  rw [nowhere, ite_self, chars]
  rfl

theorem next_eq_lexeme {c : Char} {cs : List Char} (slash : c ≠ '/')
    (space : Lexeme.isSpace c = false) (line : Lexeme.isLineBreak c = false) (gap : Bool)
    {scanner : Scanner} (chars : scanner.rest = (if gap then [' '] else []) ++ c :: cs) :
    scanner.next = (scanner.lexeme (c :: cs)).map fun lexeme =>
      ({ kind := lexeme.1, text := String.ofList lexeme.2.1 }, { scanner with rest := c :: cs },
        scanner.pass { kind := lexeme.1, text := String.ofList lexeme.2.1 } lexeme.2.2) := by
  have blank : Lexeme.isSpace ' ' = true := by decide
  have nowhere : scanner.directBreak? = none := by
    cases gap <;> simp [Scanner.directBreak?, chars, blank, space, line]
  have start : Gap.read .between {} (c :: cs) = some ({}, c :: cs) := by
    rw [Gap.read.eq_def]
    split
    · rename_i same
      exact absurd (List.cons.inj same).1 slash
    · rename_i same
      exact absurd (List.cons.inj same).1 slash
    · rename_i same
      obtain ⟨rfl, rfl⟩ := List.cons.inj same
      simp [space, line]
    all_goals simp_all
  have read : Gap.read .between {} scanner.rest = some ({}, c :: cs) := by
    rw [chars]
    cases gap with
    | false => exact start
    | true =>
        have skip : Gap.read .between {} (' ' :: c :: cs) = Gap.read .between {} (c :: cs) := by
          simp [Gap.read, Lexeme.isLineBreak, blank]
        exact skip.trans start
  rw [Scanner.next, nowhere, ite_self, read]
  simp only [Option.bind_eq_bind, Option.bind_some]
  cases scanner.lexeme (c :: cs) <;> rfl

theorem reads_of_lexeme {c : Char} {cs : List Char} {kind : TokenKind} {text rest : List Char}
    (lexeme : ∀ scanner : Scanner, scanner.lexeme (c :: cs) = some (kind, text, rest))
    (slash : c ≠ '/') (space : Lexeme.isSpace c = false) (line : Lexeme.isLineBreak c = false)
    (gap : Bool) :
    Reads ((if gap then [' '] else []) ++ c :: cs) { kind, text := String.ofList text } rest := by
  intro scanner chars
  rw [next_eq_lexeme slash space line gap chars, lexeme]
  exact ⟨_, _, rfl, pass_rest scanner _ _⟩

def IsNatural (text : String) : Prop :=
  text.toList ≠ [] ∧ text.toList.head? ≠ some '0' ∧ ∀ c ∈ text.toList, c.isDigit = true

instance : DecidablePred IsNatural := fun text =>
  inferInstanceAs (Decidable
    (text.toList ≠ [] ∧ text.toList.head? ≠ some '0' ∧ ∀ c ∈ text.toList, c.isDigit = true))

/-- A word, a mark or a literal of a text, and whether a blank is in front of it. -/
structure Fragment where
  kind : TokenKind
  text : String
  gap : Bool := false

namespace Fragment

def token (fragment : Fragment) : Token :=
  { kind := fragment.kind, text := fragment.text }

def chars (fragment : Fragment) : List Char :=
  (if fragment.gap then [' '] else []) ++ fragment.text.toList

def Valid (fragment : Fragment) : Prop :=
  match fragment.kind with
  | .name => IsName fragment.text
  | .keyword => fragment.text ∈ Lexeme.keywords
  | .punctuator => fragment.text ∈ Lexeme.punctuators
  | .number => IsNatural fragment.text
  | .string => ∃ content, fragment.text = Text.Quoted.quote content
  | _ => False

@[simp] theorem valid_name (text : String) (gap : Bool) :
    Valid { kind := .name, text, gap } ↔ IsName text := Iff.rfl

@[simp] theorem valid_keyword (text : String) (gap : Bool) :
    Valid { kind := .keyword, text, gap } ↔ text ∈ Lexeme.keywords := Iff.rfl

@[simp] theorem valid_punctuator (text : String) (gap : Bool) :
    Valid { kind := .punctuator, text, gap } ↔ text ∈ Lexeme.punctuators := Iff.rfl

@[simp] theorem valid_number (text : String) (gap : Bool) :
    Valid { kind := .number, text, gap } ↔ IsNatural text := Iff.rfl

@[simp] theorem valid_string (content : String) (gap : Bool) :
    Valid { kind := .string, text := Text.Quoted.quote content, gap } :=
  ⟨content, rfl⟩

/-- Whether a fragment does not run into the one behind it. -/
def Apart (first second : Fragment) : Prop :=
  match first.kind, second.kind with
  | .name, .name | .name, .keyword => False
  | .keyword, .name | .keyword, .keyword => second.gap = true
  | .punctuator, .punctuator =>
    second.gap = true ∨ ∀ c ∈ second.text.toList.head?, c ∉ extenders
  | .punctuator, .number => first.text ≠ "."
  | .number, .punctuator => second.text.toList.head? ≠ some '.'
  | .number, _ | _, .number => False
  | _, _ => True

end Fragment

theorem IsWord.reads {text : String} (word : IsWord text) {rest : List Char}
    (ends : EndsWord rest) (plain : Scanner.introducesAccessor text.toList rest = false)
    (gap : Bool) :
    Reads ((if gap then [' '] else []) ++ (text.toList ++ rest))
      { kind := if text ∈ Lexeme.keywords then .keyword else .name, text } rest := by
  obtain ⟨c, cs, parts, starts⟩ := word.starts
  have other (d : Char) (no : startsIdentifier d = false) : c ≠ d := by
    rintro rfl
    rw [starts] at no
    cases no
  have read : Lexeme.word (c :: (cs ++ rest)) = (text.toList, rest) := by
    rw [← List.cons_append, ← parts]
    exact word_append word ends
  have lexeme : ∀ scanner : Scanner, scanner.lexeme (c :: (cs ++ rest)) =
      some (if text ∈ Lexeme.keywords then .keyword else .name, text.toList, rest) := by
    intro scanner
    simp [Scanner.lexeme, starts, read, Scanner.wordKind, plain]
  have space : Lexeme.isSpace c = false := by
    rw [Bool.eq_false_iff]
    exact fun space => other c (not_startsIdentifier_of_isSpace space) rfl
  have line : Lexeme.isLineBreak c = false := by
    simp [Lexeme.isLineBreak, other '\n' (by decide), other '\x0d' (by decide)]
  have reads := reads_of_lexeme lexeme (other '/' (by decide)) space line gap
  rwa [String.ofList_toList, ← List.cons_append, ← parts] at reads

theorem reads_mark {mark : String} (known : mark ∈ Lexeme.punctuators) {rest : List Char}
    (ends : ∀ c ∈ rest.head?, c ∉ extenders ∧ (mark = "." → c.isDigit = false)) (gap : Bool) :
    Reads ((if gap then [' '] else []) ++ (mark.toList ++ rest))
      { kind := .punctuator, text := mark } rest := by
  have heads : ∀ mark ∈ Lexeme.punctuators, ∃ c ∈ mark.toList.head?,
      startsIdentifier c = false ∧ c ≠ '"' ∧ c ≠ '\x27' ∧ c ≠ '/' ∧ c.isDigit = false ∧
        Lexeme.isSpace c = false ∧ Lexeme.isLineBreak c = false ∧
        (c = '.' → mark = ".") := by
    decide
  obtain ⟨c, head, start, double, single, slash, digit, space, line, point⟩ := heads mark known
  obtain ⟨cs, parts⟩ := List.head?_eq_some_iff.mp head
  have number : Lexeme.number (c :: (cs ++ rest)) = none := by
    have zero : c ≠ '0' := by
      rintro rfl
      cases digit
    by_cases dot : c = '.'
    · subst dot
      cases point rfl
      obtain rfl : cs = [] := by simpa using parts.symm
      cases rest with
      | nil => rfl
      | cons d rest => simp [Lexeme.number, Lexeme.span, (ends d rfl).2 rfl]
    · simp [Lexeme.number, Lexeme.decimal, Lexeme.span, digit, zero, dot]
  have read : Lexeme.punctuator (c :: (cs ++ rest)) = some (mark.toList, rest) := by
    rw [← List.cons_append, ← parts]
    exact punctuator_append known fun d head => (ends d head).1
  have lexeme : ∀ scanner : Scanner,
      scanner.lexeme (c :: (cs ++ rest)) = some (.punctuator, mark.toList, rest) := by
    intro scanner
    simp [Scanner.lexeme, start, double, single, slash, number, read]
  have reads := reads_of_lexeme lexeme slash space line gap
  rwa [String.ofList_toList, ← List.cons_append, ← parts] at reads

theorem reads_natural {text : String} (natural : IsNatural text) {rest : List Char}
    (ends : ∀ c ∈ rest.head?, c.isDigit = false ∧ c ≠ '.' ∧ c ≠ 'e' ∧ c ≠ 'E') (gap : Bool) :
    Reads ((if gap then [' '] else []) ++ (text.toList ++ rest)) { kind := .number, text } rest := by
  obtain ⟨nonempty, zero, digits⟩ := natural
  obtain ⟨c, cs, parts⟩ := List.exists_cons_of_ne_nil nonempty
  have digit : c.isDigit = true := digits c (by simp [parts])
  have notZero : c ≠ '0' := by
    rintro rfl
    exact zero (by simp [parts])
  have other (d : Char) (no : d.isDigit = false) : c ≠ d := by
    rintro rfl
    rw [digit] at no
    cases no
  have span : Lexeme.span Char.isDigit (c :: (cs ++ rest)) = (text.toList, rest) := by
    rw [← List.cons_append, ← parts, Lexeme.span, List.takeWhile_append_of_pos digits,
      List.dropWhile_append_of_pos digits]
    cases rest with
    | nil => simp
    | cons d rest => simp [(ends d rfl).1]
  have whole : Lexeme.fraction text.toList rest = (text.toList, rest) := by
    cases rest with
    | nil => simp [Lexeme.fraction, Lexeme.exponent]
    | cons d rest =>
        obtain ⟨-, point, lower, upper⟩ := ends d rfl
        simp [Lexeme.fraction, Lexeme.exponent, point, lower, upper]
  have decimal : Lexeme.decimal (c :: (cs ++ rest)) = some (text.toList, rest) := by
    rw [parts] at span whole ⊢
    simp [Lexeme.decimal, notZero, span, whole]
  have number : Lexeme.number (c :: (cs ++ rest)) = some (text.toList, rest) := by
    simp [Lexeme.number, notZero, other '.' (by decide), decimal]
  have lexeme : ∀ scanner : Scanner,
      scanner.lexeme (c :: (cs ++ rest)) = some (.number, text.toList, rest) := by
    intro scanner
    simp [Scanner.lexeme, not_startsIdentifier_of_isDigit digit, number, other '"' (by decide),
      other '\x27' (by decide), other '/' (by decide)]
  have space : Lexeme.isSpace c = false := by
    rw [Bool.eq_false_iff]
    intro space
    have low : ∀ n < 0x80, (Char.ofNat n).isDigit = true →
        Lexeme.isSpace (Char.ofNat n) = false := by
      decide
    have no := of_ascii low (toNat_lt_of_isDigit digit) digit
    rw [space] at no
    cases no
  have line : Lexeme.isLineBreak c = false := by
    simp [Lexeme.isLineBreak, other '\n' (by decide), other '\x0d' (by decide)]
  have reads := reads_of_lexeme lexeme (other '/' (by decide)) space line gap
  rwa [String.ofList_toList, ← List.cons_append, ← parts] at reads

theorem reads_quote (content : String) (rest : List Char) (gap : Bool) :
    Reads ((if gap then [' '] else []) ++ ((Text.Quoted.quote content).toList ++ rest))
      { kind := .string, text := Text.Quoted.quote content } rest := by
  obtain ⟨cs, parts⟩ : ∃ cs, (Text.Quoted.quote content).toList = '\x27' :: cs :=
    ⟨_, String.toList_ofList⟩
  have lexeme : ∀ scanner : Scanner, scanner.lexeme ('\x27' :: (cs ++ rest)) =
      some (.string, (Text.Quoted.quote content).toList, rest) := by
    intro scanner
    have read := string_quote content rest
    rw [parts, List.cons_append] at read
    have start : startsIdentifier '\x27' = false := by decide
    simp [Scanner.lexeme, start, read, parts]
  have reads := reads_of_lexeme lexeme (by decide) (by decide) (by decide) gap
  rwa [String.ofList_toList, ← List.cons_append, ← parts] at reads

/-! ## Spelled fragments -/

def spell (fragments : List Fragment) : List Char :=
  fragments.flatMap Fragment.chars

inductive Feeds : List Char → List Token → Prop
  | ending : Feeds [] []
  | next {chars rest : List Char} {token : Token} {tokens : List Token}
      (reads : Reads chars token rest) (feeds : Feeds rest tokens) : Feeds chars (token :: tokens)

theorem isWord_of_mem_keywords {text : String} (keyword : text ∈ Lexeme.keywords) :
    IsWord text := by
  have plain : ∀ text ∈ Lexeme.keywords, (∀ d ∈ text.toList, Text.isPlain d = true) ∧
      ∃ c ∈ text.toList.head?, c.isDigit = false := by
    decide
  obtain ⟨all, c, head, digit⟩ := plain text keyword
  obtain ⟨cs, parts⟩ := List.head?_eq_some_iff.mp head
  exact isWord_of_plain parts all digit

namespace Fragment

def Begins (kind : TokenKind) (c : Char) : Prop :=
  match kind with
  | .name | .keyword => startsIdentifier c = true
  | .punctuator => startsIdentifier c = false ∧ continuesIdentifier c = false ∧
      c.isDigit = false ∧ Text.isBlank c = false
  | .number => c.isDigit = true
  | _ => c = '\x27'

theorem Valid.begins {fragment : Fragment} (valid : fragment.Valid) :
    ∃ c cs, fragment.text.toList = c :: cs ∧ Begins fragment.kind c := by
  obtain ⟨kind, text, gap⟩ := fragment
  have word (word : IsWord text) : ∃ c cs, text.toList = c :: cs ∧ startsIdentifier c = true :=
    word.starts
  cases kind with
  | name => exact word valid.1
  | keyword => exact word (isWord_of_mem_keywords valid)
  | punctuator =>
      have heads : ∀ mark ∈ Lexeme.punctuators, ∃ c ∈ mark.toList.head?,
          startsIdentifier c = false ∧ continuesIdentifier c = false ∧ c.isDigit = false ∧
            Text.isBlank c = false := by
        decide
      obtain ⟨c, head, begins⟩ := heads text valid
      obtain ⟨cs, parts⟩ := List.head?_eq_some_iff.mp head
      exact ⟨c, cs, parts, begins⟩
  | string =>
      obtain ⟨content, same⟩ := valid
      cases same
      exact ⟨'\x27', _, String.toList_ofList, rfl⟩
  | number =>
      obtain ⟨nonempty, -, digits⟩ := valid
      obtain ⟨c, cs, parts⟩ := List.exists_cons_of_ne_nil nonempty
      exact ⟨c, cs, parts, digits c (by simp [parts])⟩
  | regex => exact valid.elim
  | accessor => exact valid.elim
  | terminator => exact valid.elim
  | ending => exact valid.elim

def Follows (fragment : Fragment) (chars : List Char) : Prop :=
  match fragment.kind with
  | .name | .keyword =>
    EndsWord chars ∧ Scanner.introducesAccessor fragment.text.toList chars = false
  | .punctuator => ∀ c ∈ chars.head?, c ∉ extenders ∧ (fragment.text = "." → c.isDigit = false)
  | .number => ∀ c ∈ chars.head?, c.isDigit = false ∧ c ≠ '.' ∧ c ≠ 'e' ∧ c ≠ 'E'
  | _ => True

theorem ends_word {c : Char} (start : startsIdentifier c = false)
    (more : continuesIdentifier c = false) (blank : Text.isBlank c = false) (gap : Bool)
    (word cs : List Char) :
    EndsWord ((if gap then [' '] else []) ++ c :: cs) ∧
      Scanner.introducesAccessor word ((if gap then [' '] else []) ++ c :: cs) = false := by
  cases gap with
  | false =>
      refine ⟨by simpa [EndsWord] using ⟨start, more⟩, ?_⟩
      cases cs with
      | nil => simp [Scanner.introducesAccessor]
      | cons d cs => simp [Scanner.introducesAccessor, blank]
  | true =>
      have space : startsIdentifier ' ' = false ∧ continuesIdentifier ' ' = false := by decide
      exact ⟨by simpa [EndsWord] using space, by simp [Scanner.introducesAccessor, start]⟩

theorem not_extender {c : Char} (starts : startsIdentifier c = true) : c ∉ extenders := by
  intro extender
  have none : ∀ c ∈ extenders, startsIdentifier c = false := by decide
  rw [none c extender] at starts
  cases starts

theorem not_digit {c : Char} (starts : startsIdentifier c = true) : c.isDigit = false := by
  rw [Bool.eq_false_iff]
  intro digit
  rw [not_startsIdentifier_of_isDigit digit] at starts
  cases starts

theorem ends_keyword {keyword : String} (known : keyword ∈ Lexeme.keywords) (cs : List Char) :
    EndsWord (' ' :: cs) ∧ Scanner.introducesAccessor keyword.toList (' ' :: cs) = false := by
  have space : startsIdentifier ' ' = false ∧ continuesIdentifier ' ' = false := by decide
  have other : ∀ keyword ∈ Lexeme.keywords,
      keyword.toList ≠ ['g', 'e', 't'] ∧ keyword.toList ≠ ['s', 'e', 't'] := by
    decide
  refine ⟨by simpa [EndsWord] using space, ?_⟩
  simp only [Scanner.introducesAccessor, beq_false_of_ne (other keyword known).1,
    beq_false_of_ne (other keyword known).2, Bool.or_self, Bool.false_and]

theorem ends_word_of_begins {kind : TokenKind} {c : Char} (begins : Begins kind c)
    (other : kind ≠ .name ∧ kind ≠ .keyword ∧ kind ≠ .number) (gap : Bool) (word cs : List Char) :
    EndsWord ((if gap then [' '] else []) ++ c :: cs) ∧
      Scanner.introducesAccessor word ((if gap then [' '] else []) ++ c :: cs) = false := by
  have quote : startsIdentifier '\x27' = false ∧ continuesIdentifier '\x27' = false ∧
      Text.isBlank '\x27' = false := by
    decide
  cases kind with
  | name => exact absurd rfl other.1
  | keyword => exact absurd rfl other.2.1
  | number => exact absurd rfl other.2.2
  | punctuator => exact ends_word begins.1 begins.2.1 begins.2.2.2 _ _ _
  | _ => cases begins; exact ends_word quote.1 quote.2.1 quote.2.2 _ _ _

section
variable {text : String} {gap : Bool} {next : Fragment} {c : Char} {cs : List Char}

theorem follows_punctuator (parts : next.text.toList = c :: cs) (begins : Begins next.kind c)
    (apart : Apart ⟨.punctuator, text, gap⟩ next) (rest : List Char) :
    Follows ⟨.punctuator, text, gap⟩ ((if next.gap then [' '] else []) ++ c :: rest) := by
  obtain ⟨nextKind, nextText, nextGap⟩ := next
  cases nextGap with
  | true => simp [Follows, extenders]
  | false =>
      suffices ends : c ∉ extenders ∧ (text = "." → c.isDigit = false) by
        simpa [Follows] using ends
      cases nextKind with
      | name => exact ⟨not_extender begins, fun _ => not_digit begins⟩
      | keyword => exact ⟨not_extender begins, fun _ => not_digit begins⟩
      | number =>
          refine ⟨fun extender => ?_, fun point => absurd point apart⟩
          have none : ∀ c ∈ extenders, c.isDigit = false := by decide
          exact absurd (none c extender) (by simp [show c.isDigit = true from begins])
      | punctuator =>
          rcases apart with impossible | apart
          · cases impossible
          · exact ⟨apart c (by simp [show nextText.toList = c :: cs from parts]), fun _ => begins.2.2.1⟩
      | _ => cases begins; exact ⟨by decide, fun _ => by decide⟩

theorem follows_number (parts : next.text.toList = c :: cs) (begins : Begins next.kind c)
    (apart : Apart ⟨.number, text, gap⟩ next) (rest : List Char) :
    Follows ⟨.number, text, gap⟩ ((if next.gap then [' '] else []) ++ c :: rest) := by
  obtain ⟨nextKind, nextText, nextGap⟩ := next
  cases nextKind with
  | punctuator =>
      cases nextGap with
      | true => simp [Follows]
      | false =>
          have other (d : Char) (letter : startsIdentifier d = true) : c ≠ d := by
            rintro rfl
            exact absurd begins.1 (by simp [letter])
          have point : c ≠ '.' := by
            rintro rfl
            exact apart (by simp [show nextText.toList = '.' :: cs from parts])
          have ends := And.intro begins.2.2.1 (And.intro point
            (And.intro (other 'e' (by decide)) (other 'E' (by decide))))
          simpa [Follows] using ends
  | _ => exact apart.elim

end

theorem follows_spell {fragment : Fragment} {fragments : List Fragment} (here : fragment.Valid)
    (valid : ∀ next ∈ fragments, next.Valid) (apart : ∀ next ∈ fragments.head?, fragment.Apart next) :
    fragment.Follows (spell fragments) := by
  cases fragments with
  | nil =>
      unfold Follows
      split
      · exact ⟨by simp [EndsWord, spell], by simp [Scanner.introducesAccessor, spell]⟩
      · exact ⟨by simp [EndsWord, spell], by simp [Scanner.introducesAccessor, spell]⟩
      · simp [spell]
      · simp [spell]
      · trivial
  | cons next more =>
      obtain ⟨c, cs, parts, begins⟩ := (valid next List.mem_cons_self).begins
      have apart := apart next rfl
      have whole : spell (next :: more) =
          (if next.gap then [' '] else []) ++ c :: (cs ++ spell more) := by
        simp [spell, chars, parts]
      rw [whole]
      obtain ⟨kind, text, gap⟩ := fragment
      cases kind with
      | name =>
          refine ends_word_of_begins begins ⟨?_, ?_, ?_⟩ _ _ _ <;> intro same <;>
            simp [Apart, same] at apart
      | keyword =>
          -- only a word may follow a reserved word, and then there is a blank between them
          by_cases word : next.kind = .name ∨ next.kind = .keyword
          · have blank : next.gap = true := by
              rcases word with same | same <;> simpa [Apart, same] using apart
            rw [blank]
            exact ends_keyword here _
          · obtain ⟨name, keyword⟩ := not_or.mp word
            refine ends_word_of_begins begins ⟨name, keyword, ?_⟩ _ _ _
            intro same
            simp [Apart, same] at apart
      | punctuator => exact follows_punctuator parts begins apart _
      | number => exact follows_number parts begins apart _
      | _ => trivial

end Fragment

theorem feeds_spell {fragments : List Fragment} (valid : ∀ fragment ∈ fragments, fragment.Valid)
    (apart : fragments.IsChain Fragment.Apart) :
    Feeds (spell fragments) (fragments.map Fragment.token) := by
  induction fragments with
  | nil => exact .ending
  | cons fragment fragments ih =>
      have ih := ih (fun next member => valid next (List.mem_cons_of_mem fragment member)) apart.tail
      refine .next ?_ ih
      have follows := Fragment.follows_spell (valid fragment List.mem_cons_self)
        (fun next member => valid next (List.mem_cons_of_mem fragment member)) apart.rel_head?
      have valid := valid fragment List.mem_cons_self
      obtain ⟨kind, text, gap⟩ := fragment
      have whole : spell (⟨kind, text, gap⟩ :: fragments) =
          (if gap then [' '] else []) ++ (text.toList ++ spell fragments) := by
        simp [spell, Fragment.chars]
      rw [whole]
      cases kind with
      | name =>
          have reads := IsWord.reads valid.1 follows.1 follows.2 gap
          rwa [if_neg valid.2] at reads
      | keyword =>
          have keyword : text ∈ Lexeme.keywords := valid
          have reads := (isWord_of_mem_keywords keyword).reads follows.1 follows.2 gap
          rwa [if_pos keyword] at reads
      | punctuator => exact reads_mark valid follows gap
      | string =>
          obtain ⟨content, same⟩ := valid
          cases same
          exact reads_quote content (spell fragments) gap
      | number => exact reads_natural valid follows gap
      | regex => exact valid.elim
      | accessor => exact valid.elim
      | terminator => exact valid.elim
      | ending => exact valid.elim

end ScriptModules.Tree
