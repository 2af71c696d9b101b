import ScriptModules.Proofs.Conversion.Checks
import ScriptModules.Proofs.Conversion.Grammar
import ScriptModules.Proofs.Conversion.Owners

namespace ScriptModules

open ScriptModules.Tree

namespace Conversion

variable {settings : Settings} {sources : Ledger String}

/-! ## Texts of modules -/

theorem text_writeFile {before after : Workspace} {path : String} {written : Module × String}
    (ends : Ends (writeFile path) before written after) :
    written.2 = written.1.program.render before.settings.indent ∧
      after.settings = before.settings := by
  simp only [writeFile, Ends.bind_iff, Ends.pure_iff] at ends
  obtain ⟨_, between, made, text, _, rendered, rfl, rfl⟩ := ends
  obtain ⟨script, draft, provider, entry, -, -, -, -, changed⟩ := Work.ends_writeModule made
  obtain ⟨shown, same⟩ := Work.ends_render rendered
  have kept : between.settings = before.settings := (Workspace.settings_eq changed).trans rfl
  exact ⟨kept ▸ shown, (Workspace.settings_eq same).trans kept⟩

theorem Ran.rendered {withGraph : Bool} {log : List LogLine} {report : Report} {final : Workspace}
    (ran : Ran settings sources withGraph log report final) :
    ∀ entry ∈ report.modules, entry.2 = entry.1.program.render settings.indent := by
  obtain ⟨first, phases⟩ := ran.phases
  obtain ⟨start, last, same, writing, -⟩ := phases.written
  have given : start.settings = settings :=
    (Workspace.settings_eq same).trans phases.passed.linked.given
  have held : last.settings = settings ∧
      ∀ entry ∈ report.modules, entry.2 = entry.1.program.render settings.indent := by
    apply Ends.mapM_invariant (fun _ (modules : List (Module × String)) (workspace : Workspace) =>
      workspace.settings = settings ∧
        ∀ entry ∈ modules, entry.2 = entry.1.program.render settings.indent) ?_ writing
    · exact ⟨given, by simp⟩
    · intro behind path todo modules between written after parts ⟨known, shown⟩ ends
      obtain ⟨text, kept⟩ := text_writeFile ends
      refine ⟨kept.trans known, fun entry member => ?_⟩
      rcases List.mem_append.mp member with old | new
      · exact shown entry old
      · rw [List.mem_singleton.mp new, text, known]
  exact held.2

/-! ## The file itself -/

/-- The file that creates the global object is written as it was read, but for its type checks: these
are replaced, and the helper variables that they need are declared in front of the body. -/
theorem root_recast (accepted : settings.Accepted)
    (apart : settings.rootPath ≠ settings.chunkTablePath) {withGraph : Bool} {log : List LogLine}
    {report : Report} {final : Workspace}
    (ran : Ran settings sources withGraph log report final) {written : Module} {text : String}
    (member : (written, text) ∈ report.modules) (root : written.path = settings.rootPath) :
    ∃ read checked : Script, read.Opened settings sources ∧
      Corpus.Parses sources settings.rootPath read.tree ∧
      TypeCheck.Recasts settings read checked ∧
      written.program = .program (checked.helpers ++ checked.tree.children) ∧
      text = written.program.render settings.indent ∧
      (TypeCheck.checks settings read.tree = [] → written.program = read.tree) := by
  obtain ⟨rewritten, -⟩ := ran.rewritten accepted
  obtain ⟨start, script, made⟩ := rewritten.made written (List.mem_map_of_mem member)
  have path : start.path = settings.rootPath := made.path_eq.trans root
  have isRoot : start.isRoot = true := by rw [made.surveyed.rooted, path, beq_self_eq_true]
  obtain ⟨imports, exports, kept⟩ := made.root isRoot
  obtain ⟨read, opened, merged, becomes⟩ := made.surveyed.origin
  have samePath : start.path = read.path := by rw [becomes.same]
  have sameRoot : start.isRoot = read.isRoot := by rw [becomes.same]
  obtain ⟨checked, events, replaced, classified⟩ := becomes
  -- the shader chunks are added to another file, so the tree is the one that was parsed
  have parsed : Corpus.Parses sources settings.rootPath read.tree := by
    obtain ⟨source, chunks, parses, same⟩ := merged.exists_read
    have table : source.path ≠ settings.chunkTablePath := by
      have samePath' : read.path = source.path := by rw [same, Script.path_withChunks]
      rwa [← samePath', ← samePath, path]
    rw [Script.withChunks_of_ne table] at same
    subst same
    rwa [← samePath, path] at parses
  have unmarked : checked.isRoot = true := by
    rw [TypeCheck.replace_same replaced]
    exact sameRoot.symm.trans isRoot
  have tree : start.tree = checked.tree := Access.classify_root unmarked classified
  have helpers : start.helpers = checked.helpers := by rw [Access.classify_same classified]
  obtain ⟨checked', replaced', recasts, -⟩ := @TypeCheck.replace_recasts settings read opened.sound
    opened.taken (by rw [opened.program]; decide)
  cases replaced.symm.trans replaced'
  have program : written.program = .program (checked.helpers ++ checked.tree.children) := by
    rw [Module.program, imports, exports, made.helpers, made.body, kept, helpers, tree]
    simp
  refine ⟨read, checked, opened, parsed, recasts, program, ran.rendered _ member, fun none => ?_⟩
  have settled := TypeCheck.settled_of_checks opened.program none
  have same : checked = read := by
    have both := replaced.symm.trans (TypeCheck.replace_settled settled)
    exact (Prod.mk.inj (Except.ok.inj both)).1
  obtain ⟨_, _, _, _, parse⟩ := parsed
  rw [program, same, opened.helpers, List.nil_append]
  exact (Tree.parse?_eq_program parse).symm

-- a check in such a file is replaced, and the variable that this needs is declared in front
example : ((evaluate {} [("Three.js", "var THREE = x instanceof Array;")] false).map
    fun (report, _) => report.outputs) = some [("./Three.js",
      "var toString = Object.prototype.toString;\n" ++
        "var THREE = (toString.call(x).slice(8, -1) === 'Array');\n")] := by
  decide +kernel

end Conversion

end ScriptModules
