import ScriptModules.Proofs.Tree.Scanning
import ScriptModules.Text.Quoted

namespace ScriptModules.Text.Quoted

open ScriptModules.Tree (Lexeme Reads)

/-- The 16 bit code units of a character: above the first 65536 characters a pair of surrogates. -/
def codeUnits (c : Char) : List Nat :=
  if c.toNat < 0x10000 then [c.toNat]
  else [0xd800 + (c.toNat - 0x10000) / 0x400, 0xdc00 + (c.toNat - 0x10000) % 0x400]

def hexDigit? (c : Char) : Option Nat :=
  if '0' ≤ c ∧ c ≤ '9' then some (c.toNat - '0'.toNat)
  else if 'a' ≤ c ∧ c ≤ 'f' then some (c.toNat - 'a'.toNat + 10)
  else if 'A' ≤ c ∧ c ≤ 'F' then some (c.toNat - 'A'.toNat + 10)
  else none

def hexNumber? (digits : List Char) : Option Nat :=
  digits.foldlM (fun number c => (hexDigit? c).map (16 * number + ·)) 0

def escaped : Char → Char
  | 'b' => '\x08'
  | 't' => '\t'
  | 'n' => '\n'
  | 'v' => '\x0b'
  | 'f' => '\x0c'
  | 'r' => '\x0d'
  | c => c

def prepend (units : List Nat) (tail : Option (List Nat × List Char)) :
    Option (List Nat × List Char) :=
  tail.map fun read => (units ++ read.1, read.2)

def readTail : List Char → Option (List Nat × List Char)
  | '\\' :: 'x' :: a :: b :: rest =>
    match hexNumber? [a, b] with
    | some unit => prepend [unit] (readTail rest)
    | none => none
  | '\\' :: 'u' :: a :: b :: c :: d :: rest =>
    match hexNumber? [a, b, c, d] with
    | some unit => prepend [unit] (readTail rest)
    | none => none
  | '\\' :: '\x0d' :: '\n' :: rest => readTail rest
  | '\\' :: c :: rest =>
    if Lexeme.isLineEnd c then readTail rest
    else if c = '0' ∧ rest.head?.all (!Char.isDigit ·) then prepend [0] (readTail rest)
    else if c.isDigit ∨ c = 'x' ∨ c = 'u' then none
    else prepend (codeUnits (escaped c)) (readTail rest)
  | c :: rest =>
    if c = '\x27' then some ([], rest)
    else if c = '\\' ∨ Lexeme.isLineEnd c then none
    else prepend (codeUnits c) (readTail rest)
  | [] => none

def readLiteral : List Char → Option (List Nat × List Char)
  | '\x27' :: rest => readTail rest
  | _ => none

/-! ## Reading what was quoted -/

theorem readTail_escape (c : Char) (rest : List Char) :
    readTail (escape c ++ rest) = prepend (codeUnits c) (readTail rest) := by
  unfold escape
  split
  case h_7 _ notBackslash notQuote notFeed notReturn notLine notParagraph =>
      rw [imp_false] at notBackslash notQuote notFeed notReturn notLine notParagraph
      have plain : Lexeme.isLineEnd c = false := by
        simp [Lexeme.isLineEnd, Lexeme.isLineBreak, notFeed, notReturn, notLine, notParagraph]
      simp [readTail, notBackslash, notQuote, plain]
  all_goals
    simp [readTail, Lexeme.isLineEnd, Lexeme.isLineBreak, escaped, hexNumber?, hexDigit?, codeUnits]

theorem readTail_quoted (text rest : List Char) :
    readTail (text.flatMap escape ++ '\x27' :: rest) = some (text.flatMap codeUnits, rest) := by
  induction text with
  | nil => simp [readTail]
  | cons c text ih =>
      rw [List.flatMap_cons, List.append_assoc, readTail_escape, ih]
      simp [prepend]

theorem not_isLineEnd_escape (c : Char) : ∀ d ∈ escape c, Lexeme.isLineEnd d = false := by
  unfold escape
  split
  case h_7 _ _ _ notFeed notReturn notLine notParagraph =>
      rw [imp_false] at notFeed notReturn notLine notParagraph
      simp [Lexeme.isLineEnd, Lexeme.isLineBreak, notFeed, notReturn, notLine, notParagraph]
  all_goals decide

theorem not_isLineEnd_quote (text : String) :
    ∀ c ∈ (quote text).toList, Lexeme.isLineEnd c = false := by
  intro c member
  rw [quote, String.toList_ofList] at member
  rcases List.mem_cons.mp member with rfl | member
  · decide
  · rcases List.mem_append.mp member with inside | last
    · obtain ⟨d, -, inside⟩ := List.mem_flatMap.mp inside
      exact not_isLineEnd_escape d c inside
    · rw [List.mem_singleton.mp last]
      decide

/-! ## Code units -/

/-- No character is half of a pair of surrogates, so the first code units determine the first
character. -/
theorem codeUnits_append_inj {c d : Char} {units more : List Nat}
    (same : codeUnits c ++ units = codeUnits d ++ more) : c = d ∧ units = more := by
  have valid : ∀ e : Char, e.toNat < 0xd800 ∨ 0xdfff < e.toNat ∧ e.toNat < 0x110000 :=
    fun e => e.valid
  have first := valid c
  have second := valid d
  suffices equal : c.toNat = d.toNat ∧ units = more from
    ⟨Char.toNat_inj.mp equal.1, equal.2⟩
  unfold codeUnits at same
  split at same <;> split at same <;>
    simp only [List.cons_append, List.nil_append, List.cons.injEq] at same
  · exact same
  · omega
  · omega
  · exact ⟨by omega, same.2.2⟩

theorem flatMap_codeUnits_injective :
    Function.Injective fun text : List Char => text.flatMap codeUnits := by
  have filled : ∀ c, codeUnits c ≠ [] := by
    intro c
    unfold codeUnits
    split <;> simp
  intro text other same
  dsimp only at same
  induction text generalizing other with
  | nil =>
      cases other with
      | nil => rfl
      | cons d other => simp [filled] at same
  | cons c text ih =>
      cases other with
      | nil => simp [filled] at same
      | cons d other =>
          rw [List.flatMap_cons, List.flatMap_cons] at same
          obtain ⟨rfl, behind⟩ := codeUnits_append_inj same
          rw [ih behind]

/-! ## Quoting a text -/

/-- A quoted text has no line end in it. It is one string literal and one string token, whatever
stands behind it, and the literal stands for the text. -/
theorem quote_reads :
    (∀ text : String, (∀ c ∈ (quote text).toList, Lexeme.isLineEnd c = false) ∧
      ∀ rest : List Char,
        readLiteral ((quote text).toList ++ rest) = some (text.toList.flatMap codeUnits, rest) ∧
        Reads ((quote text).toList ++ rest) { kind := .string, text := quote text } rest) ∧
      Function.Injective quote := by
  have value : ∀ (text : String) (rest : List Char),
      readLiteral ((quote text).toList ++ rest) = some (text.toList.flatMap codeUnits, rest) := by
    intro text rest
    have tail := readTail_quoted text.toList rest
    simpa [quote, encode, readLiteral] using tail
  refine ⟨fun text => ⟨not_isLineEnd_quote text, fun rest => ⟨value text rest, ?_⟩⟩, ?_⟩
  · exact Tree.reads_quote text rest false
  · intro text other same
    have units := value text []
    rw [same, value other [], Option.some.injEq, Prod.mk.injEq] at units
    exact String.toList_inj.mp (flatMap_codeUnits_injective units.1.symm)

/-- A text that looks like the end of a literal, with another apostrophe behind it. -/
theorem quote_reads_apostrophes :
    'n' ∈ (quote "\\';\n\u2028").toList ∧ Lexeme.isLineEnd 'n' = false ∧
      readLiteral ((quote "\\';\n\u2028").toList ++ ['\x27']) =
        some ([0x5c, 0x27, 0x3b, 0xa, 0x2028], ['\x27']) := by
  obtain ⟨oneLine, reads⟩ := quote_reads.1 "\\';\n\u2028"
  exact ⟨by decide, oneLine 'n' (by decide), (reads ['\x27']).1⟩

end ScriptModules.Text.Quoted
