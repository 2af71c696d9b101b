import ScriptModules.Proofs.Analysis.Substitution
import ScriptModules.Proofs.Corpus.Chunks
import ScriptModules.Proofs.Tree.Serving

namespace ScriptModules

open ScriptModules.Tree

/-! ## Shader chunks -/

namespace Chunks

theorem add_serves {program : Node} (table : holdsTable program = true)
    (conforms : program.Conforms) (key value : String) :
    (program.modifyAt (append [chunkTree key value]) tablePosition).Serves program := by
  obtain ⟨object, -, here, form, -⟩ := (holdsTable_iff program).mp table
  have grammatical := conforms.at? here
  refine conforms.modifyAt fun old place => ?_
  cases here.symm.trans place
  obtain ⟨form', comments, entries⟩ := object
  cases form
  refine grammatical.append_entries fun entry member => ?_
  rw [List.mem_singleton.mp member]
  exact ⟨rfl, rfl⟩

theorem addAll_serves {program changed : Node} {chunks : Ledger String}
    (table : holdsTable program = true) (conforms : program.Conforms)
    (run : addAll program chunks = .ok changed) : changed.Serves program := by
  refine (foldlM_ok (fun changed => changed.Serves program ∧ holdsTable changed = true) ?_ run
    ⟨conforms.serves, table⟩).1
  rintro before ⟨name, text⟩ after - ⟨serves, table⟩ run
  rw [add_eq] at run
  cases run
  exact ⟨(add_serves table serves.conforms _ _).trans serves, (add_keeps table _ _).2⟩

end Chunks

/-! ## Type checks -/

section Trees

variable {value : Node} (conforms : value.Conforms)
  (fits : value.phrase.role.isAtLeast Level.assignment = true)

include conforms fits

theorem isPrimary_tagTree (helper literal : String) : (tagTree helper literal value).IsPrimary := by
  have arguments : (Node.of .arguments [value]).Serves (.of .arguments [.identifier "$"]) := by
    refine ⟨Node.conforms_mk_iff.mpr ⟨?_, by simpa using conforms⟩, .refl _⟩
    exact (Node.accepts_replicate (fun _ => rfl) _).mpr (by simpa [Place.admits] using fits)
  have pattern : (tagTree helper literal (.identifier "$")).Conforms := rfl
  have filled := pattern.replaceAt (p := [0, 0, 0, 0, 1]) rfl arguments
  exact ⟨filled.conforms, rfl, rfl, rfl⟩

theorem isPrimary_markTree (helper marker : String) : (markTree helper marker value).IsPrimary := by
  have assigned : (Node.assignment (.identifier helper) value).Conforms := by
    refine Node.conforms_mk_iff.mpr ⟨?_, ?_⟩
    · refine List.any_eq_true.mpr ⟨_, List.mem_cons_self, ?_⟩
      exact (Bool.and_eq_true _ _).mpr ⟨rfl, (Bool.and_eq_true _ _).mpr ⟨fits, rfl⟩⟩
    · rintro child (_ | ⟨_, _ | ⟨_, ⟨⟩⟩⟩)
      exacts [rfl, conforms]
  have group : (Node.of .group [.assignment (.identifier helper) value]).Serves
      (.of .group [.assignment (.identifier helper) (.identifier "$")]) :=
    ⟨Node.conforms_mk_iff.mpr ⟨rfl, by simpa using assigned⟩, .refl _⟩
  have pattern : (markTree helper marker (.identifier "$")).Conforms := rfl
  have filled := pattern.replaceAt (p := [0, 0, 0, 0]) rfl group
  exact ⟨filled.conforms, rfl, rfl, rfl⟩

end Trees

namespace TypeCheck

variable {settings : Settings}

theorem Check.isPrimary_tree (check : Check) (helper : String) {value : Node}
    (conforms : value.Conforms) (fits : value.phrase.role.isAtLeast Level.assignment = true) :
    (check.tree helper value).IsPrimary := by
  unfold Check.tree
  split
  · exact isPrimary_tagTree conforms fits _ _
  · exact isPrimary_markTree conforms fits _ _

theorem left_fits {node left right : Node} (conforms : node.Conforms)
    (form : node.form = .binary "instanceof") (children : node.children = [left, right]) :
    left.Conforms ∧ left.phrase.role.isAtLeast Level.assignment = true := by
  obtain ⟨form', comments, below⟩ := node
  cases form
  cases children
  obtain ⟨fits, each⟩ := Node.conforms_mk_iff.mp conforms
  refine ⟨each left List.mem_cons_self, ?_⟩
  obtain ⟨places, known, fits⟩ := List.any_eq_true.mp fits
  obtain rfl : places = [.operand (Level.binary 6), .operand (Level.binary 6 + 1)] :=
    List.mem_singleton.mp known
  exact Role.isAtLeast_mono (by decide) ((Bool.and_eq_true _ _).mp fits).1

theorem replacement_serves {node : Node} (sound : node.Sound) (conforms : node.Conforms)
    {check : Check} (found : ofNode? settings node = some check) {helper : String}
    (name : IsHelper helper) {value : Node} (run : replacement check helper node = .ok value) :
    value.Serves node := by
  obtain ⟨left, right, checked, form, children, -, same, -, made⟩ := replacement_eq sound found name
  rw [made] at run
  cases run
  obtain ⟨conforms', fits⟩ := left_fits conforms form children
  have serves := Node.serves_of_bare same conforms'
  have primary := check.isPrimary_tree helper serves.conforms (serves.phrase.isAtLeast fits)
  refine (Node.serves_of_bare (Node.bare_withComments _ _) primary.conforms).trans ?_
  have operand : node.phrase.role = .operand (Level.binary 6) := by
    rw [Node.role_phrase, form]
    rfl
  exact primary.serves (by decide) operand

theorem replaceAt_serves {script : Script} {pass next : Pass} {met : Visit}
    (keeps : Keeps settings script pass) (conforms : pass.script.tree.Conforms)
    (run : Pass.replaceAt settings pass met = .ok next) :
    next.script.tree.Serves pass.script.tree := by
  rcases replaceAt_cases run with
    ⟨-, rfl⟩ | ⟨node, check, helper, between, value, here, found, named, made, rfl⟩
  · exact conforms.serves
  · obtain ⟨-, fits, -, tree⟩ := helper_keeps keeps (keeps.global here found) named
    rw [tree]
    exact conforms.replaceAt here
      (replacement_serves (keeps.sound.at? here) (conforms.at? here) found fits made)

theorem isStatement_helperTrees (pass : Pass) : ∀ helper ∈ pass.helperTrees, helper.IsStatement := by
  intro helper member
  rcases List.mem_append.mp member with member | member
  all_goals
    obtain ⟨name, -, rfl⟩ := List.mem_map.mp member
    exact ⟨rfl, rfl⟩

theorem replace_grammatical {script checked : Script} {events : List Event}
    (sound : script.tree.Sound) (taken : ∀ name ∈ script.tree.names, name ∈ script.names)
    (conforms : script.tree.Conforms) (statements : ∀ helper ∈ script.helpers, helper.IsStatement)
    (run : replace settings script = .ok (checked, events)) :
    checked.tree.Conforms ∧ ∀ helper ∈ checked.helpers, helper.IsStatement := by
  obtain ⟨pass, -, grammatical, -, rfl⟩ := replace_invariant sound taken
    (fun _ pass => pass.script.tree.Conforms) conforms
    (fun _ _ _ _ _ keeps conforms run => (replaceAt_serves keeps conforms run).conforms) run
  refine ⟨grammatical, fun helper member => ?_⟩
  rcases List.mem_append.mp member with old | new
  · exact statements helper old
  · exact isStatement_helperTrees pass helper new

end TypeCheck

/-! ## Accesses -/

namespace Access

theorem operand_of_isAccess {globalName : String} {node : Node}
    (access : isAccess globalName node = true) :
    ∃ level ≤ Level.member, node.phrase.role = .operand level := by
  have forms := ((Bool.and_eq_true _ _).mp access).1
  rw [Bool.or_eq_true, beq_iff_eq, beq_iff_eq] at forms
  exact ⟨_, Form.accessLevel_le _, (Node.role_phrase node).trans (Form.role_access forms _)⟩

mutual

theorem substitute_serves (globalName : String) {value : String → Node}
    (primary : ∀ name, (value name).IsPrimary) : ∀ tree : Node, tree.Conforms →
      (substitute globalName value tree).Serves tree
  | .mk form comments children, conforms => by
    rw [substitute]
    split
    · rename_i access
      obtain ⟨level, bound, operand⟩ := operand_of_isAccess access
      exact (primary _).serves bound operand
    · exact conforms.congr (substituteAll_serves globalName primary children
        (Node.conforms_mk_iff.mp conforms).2)

theorem substituteAll_serves (globalName : String) {value : String → Node}
    (primary : ∀ name, (value name).IsPrimary) : ∀ nodes : List Node,
      (∀ node ∈ nodes, node.Conforms) →
        List.Forall₂ Node.Serves (substituteAll globalName value nodes) nodes
  | [], _ => .nil
  | node :: nodes, conforms => by
    rw [substituteAll]
    exact .cons (substitute_serves globalName primary node (conforms node List.mem_cons_self))
      (substituteAll_serves globalName primary nodes fun other member =>
        conforms other (List.mem_cons_of_mem _ member))

end

end Access

end ScriptModules
