import ScriptModules.Proofs.Analysis.Grammar
import ScriptModules.Proofs.Module.Substitution

namespace ScriptModules

open ScriptModules.Tree

theorem Import.isStatement_tree (required : Import) : required.tree.IsStatement := by
  obtain ⟨path, names, specifier, binding, getter⟩ := required
  cases getter with
  | none => exact ⟨rfl, rfl⟩
  | some getter => exact ⟨rfl, rfl⟩

theorem Import.isPrimary_access_base (required : Import) (name : String) :
    (Node.access required.base name).IsPrimary := by
  obtain ⟨path, names, specifier, binding, getter⟩ := required
  cases getter with
  | none => exact ⟨rfl, rfl, rfl, rfl⟩
  | some getter => exact ⟨rfl, rfl, rfl, rfl⟩

theorem ProvideKind.isStatement_exportOf (kind : ProvideKind) (name bound : String) :
    (∀ node ∈ (kind.exportOf name bound).declarations, node.IsStatement) ∧
      ∀ node ∈ (kind.exportOf name bound).statements, node.IsStatement := by
  have declaration : (Node.declared [[.identifier bound]]).IsStatement := ⟨rfl, rfl⟩
  have marker : (markerTree (.identifier bound) name).IsStatement := ⟨rfl, rfl⟩
  have guarded : (guardedMarkerTree name).IsStatement := ⟨rfl, rfl⟩
  have stated : (exportTree name (.identifier bound)).IsStatement := ⟨rfl, rfl⟩
  cases kind <;> simp [exportOf, declaration, marker, guarded, stated]

theorem Module.isPrimary_standIn (written : Module) (provides : Ledger Provide)
    (bound : String → String) (name : String) : (written.standIn provides bound name).IsPrimary := by
  rcases written.standIn_cases provides bound name with
    ⟨-, -, -, same⟩ | ⟨base, same, rfl | rfl | ⟨required, -, rfl⟩⟩
  all_goals rw [same]
  · exact ⟨rfl, rfl, rfl, rfl⟩
  · exact ⟨rfl, rfl, rfl, rfl⟩
  · exact ⟨rfl, rfl, rfl, rfl⟩
  · exact required.1.isPrimary_access_base name

theorem Access.substitute_program {globalName : String} {value : String → Node} {tree : Node}
    (program : tree.form = .program) : (substitute globalName value tree).form = .program := by
  obtain ⟨form, comments, children⟩ := tree
  cases program
  rw [substitute, if_neg (by simp [isAccess])]
  rfl

variable {around : Surroundings} {checked start after : Script} {written : Module}
  {provides : Ledger Provide}

theorem Written.conforms (made : Written around start after written) (sound : checked.tree.Sound)
    (program : checked.tree.form = .program)
    (classified : Access.Classified around.settings checked start provides)
    (conforms : checked.tree.Conforms) (statements : ∀ helper ∈ start.helpers, helper.IsStatement) :
    written.program.Conforms := by
  obtain ⟨bound, same⟩ := made.bare_program sound program classified
  refine (Node.serves_of_bare same (Node.conforms_program_iff.mpr fun node member => ?_)).conforms
  simp only [List.mem_append, List.mem_flatMap] at member
  rcases member with (((imports | helper) | ⟨entry, -, declared⟩) | body) | ⟨entry, -, stated⟩
  · obtain ⟨required, -, rfl⟩ := List.mem_map.mp imports
    exact required.1.isStatement_tree
  · exact statements node helper
  · exact (entry.2.kind.isStatement_exportOf _ _).1 node declared
  · have serves := Access.substitute_serves around.settings.globalName
      (written.isPrimary_standIn start.provides bound) checked.tree conforms
    exact serves.conforms.statements (Access.substitute_program program) node body
  · exact (entry.2.kind.isStatement_exportOf _ _).2 node stated

end ScriptModules
