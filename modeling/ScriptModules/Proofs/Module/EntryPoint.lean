import ScriptModules.Proofs.Module.Imports

namespace ScriptModules

open ScriptModules.Tree
open Text.Quoted (quote)

/-! ## Exports of required values -/

def forwardFragments (name : String) (source : List Fragment) : List Fragment :=
  [⟨.name, "exports", false⟩, ⟨.punctuator, ".", false⟩, propertyFragment name,
   ⟨.punctuator, "=", true⟩] ++ source ++
  [⟨.punctuator, ".", false⟩, propertyFragment name, ⟨.punctuator, ";", false⟩]

def requirementFragments (specifier : String) : List Fragment :=
  [⟨.name, "require", true⟩, ⟨.punctuator, "(", false⟩, ⟨.string, specifier, false⟩,
   ⟨.punctuator, ")", false⟩]

theorem parseWithin_forward : ∀ name ∈ "N" :: Lexeme.keywords,
    parseWithin 120 (spell (forwardFragments name [⟨.name, "M", true⟩])) =
        some (.program [exportTree name (.access (.identifier "M") name)]) ∧
      parseWithin 120 (spell (forwardFragments name (requirementFragments "'s'"))) =
        some (.program [exportTree name (.access (.requirement "'s'") name)]) := by
  decide +kernel

theorem statement_forward_alias {name bound : String} (word : IsWord name) (valid : IsName bound) :
    Template.statement ("exports." ++ name ++ " = " ++ bound ++ "." ++ name ++ ";") [] =
      .ok (exportTree name (.access (.identifier bound) name)) := by
  have fragments_valid {name bound : String} (word : IsWord name) (valid : IsName bound) :
      ∀ fragment ∈ forwardFragments name [⟨.name, bound, true⟩], fragment.Valid := by
    simp [forwardFragments, Lexeme.punctuators, valid, isName_locals, propertyFragment_valid word]
  obtain ⟨sample, known, same, -, fragment, fixed⟩ :=
    @property_example (exportTable name bound) name rfl (exportTable_keyword name bound)
  have read := statement_respell (exportTable name bound) (parseWithin_forward sample known).1 rfl
    (by simp [forwardFragments]; simp [Fragment.Apart])
    (fragments_valid (isWord_example sample known) isName_locals.2.2.2.1) (fragments_valid word valid)
    (by simp [forwardFragments, fixed]; simp [Fragment.Fixed, exportTable])
    (by
      simp only [forwardFragments, List.cons_append, List.nil_append, List.map_cons, List.map_nil,
        fragment]
      rfl)
    (show ("exports." ++ name ++ " = " ++ bound ++ "." ++ name ++ ";").toList = _ by
      simp [spell, forwardFragments, propertyFragment, Fragment.chars])
    (by simp [Parser.levels]; omega)
  rw [exportTable] at same
  simpa [exportTree, Node.access, Node.assignment, Node.of, Node.identifier, Node.respell,
    Node.respells, Form.respell, exportTable, same] using read

theorem statement_forward_required {name : String} (word : IsWord name) (content : String) :
    Template.statement
        ("exports." ++ name ++ " = require(" ++ quote content ++ ")." ++ name ++ ";") [] =
      .ok (exportTree name (.access (.requirement (quote content)) name)) := by
  have fragments_valid {name : String} (word : IsWord name) (content : String) :
      ∀ fragment ∈ forwardFragments name (requirementFragments (quote content)),
        fragment.Valid := by
    simp [forwardFragments, requirementFragments, Lexeme.punctuators, isName_locals,
      propertyFragment_valid word]
  let table := fun text => if text = "'s'" then quote content else exportTable name "M" text
  have unquoted : ∀ keyword ∈ Lexeme.keywords, table keyword = keyword := by
    intro keyword member
    have other : keyword ≠ "'s'" := by
      rintro rfl
      exact absurd member (by decide)
    exact (if_neg other).trans (exportTable_keyword name "M" keyword member)
  obtain ⟨sample, known, same, -, fragment, fixed⟩ := @property_example table name rfl unquoted
  have read := statement_respell table (parseWithin_forward sample known).2 rfl
    (by simp [forwardFragments, requirementFragments]; simp [Fragment.Apart, extenders])
    (fragments_valid (isWord_example sample known) "s") (fragments_valid word content)
    (by
      simp [forwardFragments, requirementFragments, fixed]
      simp [Fragment.Fixed, exportTable, table])
    (by
      simp only [forwardFragments, requirementFragments, List.cons_append, List.nil_append,
        List.map_cons, List.map_nil, fragment]
      rfl)
    (show ("exports." ++ name ++ " = require(" ++ quote content ++ ")." ++ name ++ ";").toList =
        _ by
      simp [spell, forwardFragments, requirementFragments, propertyFragment, Fragment.chars])
    (by simp [Parser.levels]; omega)
  dsimp only [table, exportTable] at same
  simpa [exportTree, Node.access, Node.requirement, Node.invocation, Node.assignment, Node.of,
    Node.identifier, Node.respell, Node.respells, Form.respell, table, exportTable, same] using read

/-! ## Forwarded files -/

structure Forwarding where
  path : String
  names : List String
  specifier : String
  bound : Option String

namespace Forwarding

variable (forwarding : Forwarding)

def source : Node :=
  match forwarding.bound with
  | some bound => .identifier bound
  | none => .requirement (quote forwarding.specifier)

def statements : List Node :=
  forwarding.bound.toList.map
      (fun bound => .declared [[.identifier bound, .requirement (quote forwarding.specifier)]]) ++
    forwarding.names.map fun name => exportTree name (.access forwarding.source name)

structure Leads (entryPath extension : String) : Prop where
  bound : forwarding.bound.isSome = decide (1 < forwarding.names.length)
  specifier : forwarding.names ≠ [] →
    Path.specifier? entryPath forwarding.path extension = some forwarding.specifier

end Forwarding

namespace EntryPoint

variable {before after : EntryPoint}

theorem ends_addStatement {text : String} {value : Unit} :
    Ends (addStatement text) before value after ↔ ∃ statement,
      Template.statement text [] = .ok statement ∧
        after = { before with statements := before.statements ++ [statement] } := by
  simp [addStatement]

theorem ends_reserveAlias {name free : String} :
    Ends (reserveAlias name) before free after ↔ free = Text.fresh before.aliases name ∧
      after = { before with aliases := before.aliases ++ [free] } := by
  constructor
  · intro ends
    simp only [reserveAlias, Ends.bind_iff, Ends.get_iff, Ends.modify_iff, Ends.pure_iff] at ends
    obtain ⟨_, _, ⟨rfl, rfl⟩, _, _, rfl, rfl, rfl⟩ := ends
    exact ⟨rfl, rfl⟩
  · rintro ⟨rfl, rfl⟩
    simp [reserveAlias]

theorem quotedSpecifier_eq_ok {source target extension quoted : String}
    (run : quotedSpecifier source target extension = .ok quoted) : ∃ specifier,
      Path.specifier? source target extension = some specifier ∧ quoted = quote specifier := by
  unfold quotedSpecifier at run
  split at run
  · rename_i specifier found
    cases run
    exact ⟨specifier, found, rfl⟩
  · cases run

theorem ends_forwards {bound : String} (valid : IsName bound) {names : List String}
    (words : ∀ name ∈ names, IsWord name)
    (ends : Ends (names.forM fun name =>
      addStatement ("exports." ++ name ++ " = " ++ bound ++ "." ++ name ++ ";")) before ⟨⟩ after) :
    after = { before with
      statements := before.statements ++
        names.map fun name => exportTree name (.access (.identifier bound) name) } := by
  refine Ends.forM_invariant (fun done after => after = { before with
    statements := before.statements ++
      done.map fun name => exportTree name (.access (.identifier bound) name) }) ?_ ends (by simp)
  rintro done name todo _ after parts rfl ends
  obtain ⟨statement, made, rfl⟩ := ends_addStatement.mp ends
  rw [statement_forward_alias (words name (by simp [parts])) valid] at made
  cases made
  simp

theorem statement_alias {bound : String} (valid : IsName bound) (content : String) :
    Template.statement ("var " ++ bound ++ " = require(" ++ quote content ++ ");") [] =
      .ok (.declared [[.identifier bound, .requirement (quote content)]]) := by
  rw [← statement_direct valid content]
  exact congrArg (Template.statement · []) (by simp [← String.toList_inj])

theorem ends_add {path stem : String} {names : List String} (words : ∀ name ∈ names, IsWord name)
    (ends : Ends (add path stem names) before ⟨⟩ after) : ∃ forwarding : Forwarding,
      forwarding.path = path ∧ forwarding.names = names ∧
      forwarding.Leads before.path before.extension ∧
      Text.Unused before.aliases forwarding.bound.toList ∧
      after = { before with
        statements := before.statements ++ forwarding.statements
        aliases := before.aliases ++ forwarding.bound.toList } := by
  simp only [add, Ends.bind_iff, Ends.get_iff] at ends
  obtain ⟨_, before, ⟨rfl, rfl⟩, ends⟩ := ends
  split at ends
  · obtain ⟨-, rfl⟩ := (Ends.pure_iff _ _ _ _).mp ends
    exact ⟨⟨path, [], "", none⟩, rfl, rfl, ⟨rfl, by simp⟩, .nil _, by simp [Forwarding.statements]⟩
  · rename_i name
    simp only [Ends.bind_iff, Ends.liftM_iff, ends_addStatement] at ends
    obtain ⟨quoted, _, ⟨found, rfl⟩, statement, made, rfl⟩ := ends
    obtain ⟨specifier, leads, rfl⟩ := quotedSpecifier_eq_ok found
    rw [statement_forward_required (words name (by simp))] at made
    cases made
    refine ⟨⟨path, [name], specifier, none⟩, rfl, rfl, ⟨rfl, fun _ => leads⟩, .nil _, ?_⟩
    simp [Forwarding.statements, Forwarding.source]
  · rename_i several single
    simp only [Ends.bind_iff, Ends.liftM_iff, ends_addStatement, ends_reserveAlias] at ends
    obtain ⟨quoted, _, ⟨found, rfl⟩, bound, _, ⟨free, rfl⟩, _, _, ⟨statement, made, rfl⟩, ends⟩ :=
      ends
    obtain ⟨specifier, leads, rfl⟩ := quotedSpecifier_eq_ok found
    have valid : IsName bound := free ▸ Text.isName_fresh (Text.isWord_toIdentifier stem) _
    rw [statement_alias valid] at made
    cases made
    rw [ends_forwards valid words ends]
    refine ⟨⟨path, names, specifier, some bound⟩, rfl, rfl, ⟨?_, fun _ => leads⟩,
      free ▸ .fresh _ _, ?_⟩
    · cases names with
      | nil => exact absurd rfl several
      | cons name names =>
          cases names with
          | nil => exact absurd rfl (single name)
          | cons second names => simp
    · simp [Forwarding.statements, Forwarding.source]

end EntryPoint

/-! ## Assignments to the exports -/

namespace Tree.Node

def exportAssignment? (form : Form) (children : List Node) : Option (String × Node) :=
  match form, children with
  | .assign _, [mk .member _ [base, key], value] =>
    if base.form = .identifier "exports" then key.form.name?.map fun name => (name, value) else none
  | _, _ => none

mutual

def exportAssignments : Node → List (String × Node)
  | mk form _ children => (exportAssignment? form children).toList ++ exportAssignmentsOf children

def exportAssignmentsOf : List Node → List (String × Node)
  | [] => []
  | node :: nodes => exportAssignments node ++ exportAssignmentsOf nodes

end

@[simp] theorem exportAssignmentsOf_append (nodes more : List Node) :
    exportAssignmentsOf (nodes ++ more) =
      exportAssignmentsOf nodes ++ exportAssignmentsOf more := by
  induction nodes with
  | nil => rfl
  | cons node nodes ih =>
      rw [List.cons_append, exportAssignmentsOf, exportAssignmentsOf, ih, List.append_assoc]

@[simp] theorem exportAssignments_program (statements : List Node) :
    (program statements).exportAssignments = exportAssignmentsOf statements :=
  rfl

end Tree.Node

namespace Forwarding

def assignments (forwarding : Forwarding) : List (String × Node) :=
  forwarding.names.map fun name => (name, .access forwarding.source name)

theorem exportAssignments_exportTree (forwarding : Forwarding) (name : String) :
    (exportTree name (.access forwarding.source name)).exportAssignments =
      [(name, .access forwarding.source name)] := by
  obtain ⟨path, names, specifier, bound⟩ := forwarding
  cases bound <;> rfl

theorem exportAssignmentsOf_statements (forwarding : Forwarding) :
    Node.exportAssignmentsOf forwarding.statements = forwarding.assignments := by
  have silent : Node.exportAssignmentsOf (forwarding.bound.toList.map fun bound =>
      .declared [[.identifier bound, .requirement (quote forwarding.specifier)]]) = [] := by
    cases forwarding.bound <;> rfl
  rw [statements, Node.exportAssignmentsOf_append, silent, List.nil_append, assignments]
  generalize forwarding.names = names
  induction names with
  | nil => rfl
  | cons name names ih =>
      rw [List.map_cons, List.map_cons, Node.exportAssignmentsOf, exportAssignments_exportTree, ih]
      rfl

theorem exportAssignmentsOf_flatMap (forwardings : List Forwarding) :
    Node.exportAssignmentsOf (forwardings.flatMap statements) =
      forwardings.flatMap assignments := by
  induction forwardings with
  | nil => rfl
  | cons forwarding forwardings ih =>
      rw [List.flatMap_cons, List.flatMap_cons, Node.exportAssignmentsOf_append, ih,
        exportAssignmentsOf_statements]

end Forwarding

end ScriptModules
