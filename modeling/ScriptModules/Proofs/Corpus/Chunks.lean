import ScriptModules.Corpus.Chunks
import ScriptModules.Proofs.Module.Snippet
import ScriptModules.Proofs.Result
import ScriptModules.Proofs.Tree.Names
import ScriptModules.Proofs.Tree.Sound

namespace ScriptModules.Chunks

open ScriptModules.Tree ScriptModules.Text.Quoted

def chunkTree (key value : String) : Node :=
  .of .property [.of (.string key) [], .of (.string value) []]

def literalFragments (key value : String) : List Fragment :=
  [⟨.punctuator, "(", false⟩, ⟨.punctuator, "\x7b", false⟩, ⟨.string, key, false⟩,
   ⟨.punctuator, ":", false⟩, ⟨.string, value, true⟩, ⟨.punctuator, "\x7d", false⟩,
   ⟨.punctuator, ")", false⟩, ⟨.punctuator, ";", false⟩]

theorem expression_literal (name text : String) :
    Template.expression (literalText name text) [] =
      .ok (.of .group [.of .object [chunkTree (quote name) (quote text)]]) := by
  have fragments_valid (name text : String) :
      ∀ fragment ∈ literalFragments (quote name) (quote text), fragment.Valid := by
    simp [literalFragments, Lexeme.punctuators]
  have parsed : parseWithin 100 (spell (literalFragments "'k'" "'t'")) =
      some (.program [.of .expression [.of .group [.of .object [chunkTree "'k'" "'t'"]]]]) := by
    cbv
  have read := statement_respell
    (fun given => if given = "'k'" then quote name else if given = "'t'" then quote text else given)
    parsed rfl (by simp [literalFragments, Fragment.Apart, extenders])
    (fragments_valid "k" "t") (fragments_valid name text)
    (by simp [literalFragments, Fragment.Fixed]) rfl
    (show (literalText name text ++ ";").toList = _ by
      simp [spell, literalText, literalFragments, Fragment.chars])
    (by simp [literalText, Parser.levels]; omega)
  exact expression_of_statement
    (by simpa [chunkTree, Node.of, Node.respell, Node.respells, Form.respell] using read)

theorem propertiesIn_literal (property : Node) :
    propertiesIn (.of .group [.of .object [property]]) = [property] := by
  simp [propertiesIn, Node.of, Node.walk_eq, Node.visits, Node.visitsFrom]

theorem add_eq (program : Node) (name text : String) :
    add program name text =
      .ok (program.modifyAt (append [chunkTree (quote name) (quote text)]) tablePosition) := by
  rw [add, expression_literal]
  exact congrArg (fun properties => Except.ok (program.modifyAt (append properties) tablePosition))
    (propertiesIn_literal _)

theorem exists_addAll (program : Node) (chunks : Ledger String) :
    ∃ changed, addAll program chunks = .ok changed := by
  refine (foldlM_total (fun _ _ => True) ?_ trivial).imp fun changed => And.left
  exact fun done chunk todo before _ _ => ⟨_, add_eq before chunk.1 chunk.2, trivial⟩

structure Keeps (program changed : Node) : Prop where
  form : changed.form = program.form
  sound : program.Sound → changed.Sound
  names : ∀ name ∈ changed.names, name ∈ program.names

theorem holdsTable_iff (program : Node) : holdsTable program = true ↔
    ∃ table operator, program.at? tablePosition = some table ∧ table.form = .object ∧
      (program.at? [0]).map Node.form = some .expression ∧
      (program.at? [0, 0]).map Node.form = some (.assign operator) := by
  unfold holdsTable
  constructor
  · intro holds
    split at holds
    · rename_i statement value table here here' here''
      simp only [Bool.and_eq_true, beq_iff_eq] at holds
      obtain ⟨⟨form, form'⟩, form''⟩ := holds
      split at form'
      · rename_i operator same
        exact ⟨table, operator, here'', form'', by simp [here, form], by simp [here', same]⟩
      · cases form'
    · cases holds
  · rintro ⟨table, operator, here, form, form', form''⟩
    obtain ⟨statement, here', form'⟩ := Option.map_eq_some_iff.mp form'
    obtain ⟨value, here'', form''⟩ := Option.map_eq_some_iff.mp form''
    simp [here, here', here'', form, form', form'']

theorem names_append_chunk {table : Node} (object : table.form = .object) {key value name : String}
    (member : name ∈ (append [chunkTree key value] table).names) : name ∈ table.names := by
  have noKey : ∀ i, table.form.isKeyAt i = false := by
    rw [object]
    exact fun _ => rfl
  obtain ⟨child, within, met⟩ := (Node.mem_names_of_no_key (by exact noKey)).mp member
  refine (Node.mem_names_of_no_key noKey).mpr ⟨child, ?_, met⟩
  rcases List.mem_append.mp within with old | new
  · exact old
  · rw [List.mem_singleton.mp new] at met
    simp [chunkTree, Node.of, Form.name?, Node.names, Node.namesFrom] at met

theorem add_keeps {program : Node} (table : holdsTable program = true) (key value : String) :
    let changed := program.modifyAt (append [chunkTree key value]) tablePosition
    Keeps program changed ∧ holdsTable changed = true := by
  obtain ⟨table, operator, here, object, form, form'⟩ := (holdsTable_iff program).mp table
  refine ⟨⟨Node.form_modifyAt_cons _ _ _ _, fun sound => ?_, fun name member => ?_⟩, ?_⟩
  · refine sound.modifyAt fun old place => ?_
    cases here.symm.trans place
    have inner := sound.at? here
    refine ⟨Node.sound_mk_iff.mpr ⟨?_, ?_, ?_⟩, ?_⟩
    · rw [object]
      trivial
    · simp [object, Form.name?]
    · intro child member
      rcases List.mem_append.mp member with old | new
      · exact inner.child old
      · rw [List.mem_singleton.mp new]
        simp [chunkTree, Node.of, Node.sound_mk_iff, Form.Fits, Form.name?]
    · intro name key
      rw [object] at key
      cases key
  · rcases Node.mem_names_modifyAt (by simp [tablePosition]) member with same | ⟨old, place, met⟩
    · exact same
    · cases here.symm.trans place
      rcases met with named | below
      · rw [append, Node.form_mk, object] at named
        cases named
      · exact Node.mem_names_of_at? here (names_append_chunk object below)
  · refine (holdsTable_iff _).mpr ⟨append [chunkTree key value] table, operator, ?_, object, ?_, ?_⟩
    · rw [Node.at?_modifyAt_self, here]
      rfl
    · rw [Node.form_at?_modifyAt _ _ (by decide), form]
    · rw [Node.form_at?_modifyAt _ _ (by decide), form']

theorem addAll_keeps {program changed : Node} {chunks : Ledger String}
    (table : holdsTable program = true) (run : addAll program chunks = .ok changed) :
    Keeps program changed := by
  refine (foldlM_ok (fun changed => Keeps program changed ∧ holdsTable changed = true) ?_ run
    ⟨⟨rfl, id, fun _ => id⟩, table⟩).1
  rintro before ⟨name, text⟩ after - ⟨keeps, table⟩ run
  rw [add_eq] at run
  cases run
  obtain ⟨more, table⟩ := add_keeps table (quote name) (quote text)
  refine ⟨⟨more.form.trans keeps.form, fun sound => more.sound (keeps.sound sound), ?_⟩, table⟩
  exact fun name member => keeps.names name (more.names name member)

/-! ## The table of a program -/

/-- A program that starts with the assignment of an object literal, but for the properties of the
literal. -/
structure Frame where
  form : Form
  operator : String
  target : Node
  programComments : List String
  statementComments : List String
  valueComments : List String
  tableComments : List String
  behindTable : List Node
  behindValue : List Node
  statements : List Node

def Frame.fill (frame : Frame) (properties : List Node) : Node :=
  let table := .mk .object frame.tableComments properties
  let value := .mk (.assign frame.operator) frame.valueComments
    (frame.target :: table :: frame.behindTable)
  let statement := .mk .expression frame.statementComments (value :: frame.behindValue)
  .mk frame.form frame.programComments (statement :: frame.statements)

theorem holdsTable_iff_fill (program : Node) :
    holdsTable program = true ↔ ∃ frame : Frame, ∃ properties, program = frame.fill properties := by
  constructor
  · intro holds
    obtain ⟨table, operator, here, object, form, form'⟩ := (holdsTable_iff program).mp holds
    obtain ⟨statement, here', form⟩ := Option.map_eq_some_iff.mp form
    obtain ⟨value, here'', form'⟩ := Option.map_eq_some_iff.mp form'
    obtain ⟨root, c₀, children⟩ := program
    obtain ⟨f₁, c₁, children₁⟩ := statement
    obtain ⟨f₂, c₂, children₂⟩ := value
    obtain ⟨f₃, c₃, properties⟩ := table
    cases form
    cases form'
    cases object
    cases children with
    | nil => cases here
    | cons first statements =>
        cases here'
        cases children₁ with
        | nil => cases here
        | cons second behindValue =>
            cases here''
            match children₂ with
            | [] | [_] => cases here
            | target :: third :: behindTable =>
                cases here
                exact ⟨⟨root, operator, target, c₀, c₁, c₂, c₃, behindTable, behindValue, statements⟩,
                  properties, rfl⟩
  · rintro ⟨frame, properties, rfl⟩
    rfl

theorem addAll_fill (frame : Frame) (properties : List Node) (chunks : Ledger String) :
    addAll (frame.fill properties) chunks = .ok (frame.fill (properties ++
      chunks.map fun chunk => chunkTree (quote chunk.1) (quote chunk.2))) := by
  induction chunks generalizing properties with
  | nil =>
      rw [List.map_nil, List.append_nil]
      rfl
  | cons chunk chunks ih =>
      have added : add (frame.fill properties) chunk.1 chunk.2 =
          .ok (frame.fill (properties ++ [chunkTree (quote chunk.1) (quote chunk.2)])) := by
        rw [add_eq]
        rfl
      have rest := ih (properties ++ [chunkTree (quote chunk.1) (quote chunk.2)])
      rw [List.append_assoc, List.singleton_append] at rest
      rw [addAll, List.foldlM_cons, added]
      exact rest

end ScriptModules.Chunks
