import ScriptModules.Proofs.Conversion.Growth
import ScriptModules.Proofs.Conversion.Substitution
import ScriptModules.Proofs.Module.Grammar

namespace ScriptModules

open ScriptModules.Tree
open Dependency (scriptAt?)

/-! ## Scripts that were read -/

theorem Corpus.parses_of_ingest {settings : Settings} {sources : Ledger String} {corpus : Corpus}
    {before after : List LogLine} (ends : Ends (ingest settings sources) before corpus after) :
    ∀ script ∈ corpus.scripts, Parses sources script.path script.tree := by
  simp only [ingest, Ends.bind_iff, Ends.liftM_iff] at ends
  obtain ⟨normal, _, ⟨run, rfl⟩, ends⟩ := ends
  obtain ⟨distinct, -⟩ := normalizeSources_eq_ok run
  refine Ends.foldlM_invariant (fun _ corpus => ∀ script ∈ corpus.scripts,
    Parses sources script.path script.tree) ?_ ends (by simp)
  rintro done ⟨path, text⟩ todo corpus before next after parts parsed ends
  have entry : (path, text) ∈ normal :=
    (Text.sortBy_perm Prod.fst normal).mem_iff.mp (by rw [parts]; simp)
  obtain ⟨added, -⟩ := ends_addSource_iff.mp ends
  unfold withSource? at added
  split at added
  · cases added
    exact parsed
  · split at added
    · obtain ⟨tree, read, rfl⟩ := Option.map_eq_some_iff.mp added
      intro script member
      rcases List.mem_append.mp member with old | new
      · exact parsed script old
      · rw [List.mem_singleton.mp new]
        exact ⟨normal, text, run, Ledger.get?_of_mem distinct entry, read⟩
    · cases added
      exact parsed

namespace Script

variable {settings : Settings} {sources : Ledger String}

theorem conforms_withChunks {chunks : Ledger String} {script : Script}
    (conforms : script.tree.Conforms) : (script.withChunks settings chunks).tree.Conforms := by
  unfold withChunks
  split
  · rename_i table
    split
    · rename_i tree added
      exact (Chunks.addAll_serves table.2.2 conforms added).conforms
    · exact conforms
  · exact conforms

theorem Merged.exists_read {script : Script} (merged : script.Merged settings sources) :
    ∃ (read : Script) (chunks : Ledger String), Corpus.Parses sources script.path read.tree ∧
      script = read.withChunks settings chunks := by
  obtain ⟨log, corpus, log', after, ingesting, merging, found⟩ := merged
  have ordered := Conversion.ordered_ofCorpus ingesting (Conversion.readingTrace sources.length)
  have scripts := Workspace.scripts_eq (Conversion.ends_mergePhase_scripts ordered.unique rfl merging)
  rw [scripts, Dependency.scriptAt?_map (path_withChunks _)] at found
  obtain ⟨read, found, rfl⟩ := Option.map_eq_some_iff.mp found
  obtain ⟨member, -⟩ := Dependency.path_of_scriptAt? found
  rw [path_withChunks]
  exact ⟨read, _, Corpus.parses_of_ingest ingesting read member, rfl⟩

theorem Merged.conforms {script : Script} (merged : script.Merged settings sources)
    (grammatical : ∀ source, Corpus.Parses sources script.path source → source.Conforms) :
    script.tree.Conforms := by
  obtain ⟨read, chunks, parses, rfl⟩ := merged.exists_read
  exact conforms_withChunks (grammatical _ parses)

end Script

namespace Conversion

variable {settings : Settings} {sources : Ledger String} {path : String} {before after : Workspace}
  {written : Module}

theorem Reaches.surveyed (accepted : settings.Accepted)
    (reaches : Reaches settings sources path before)
    (ends : Ends (Work.writeModule path) before written after) : ∃ analysed draft,
      analysed.path = path ∧ analysed.Surveyed settings sources ∧
        before.surroundings.settings = settings ∧
        Ends (Draft.write before.surroundings) { script := analysed } written draft := by
  obtain ⟨first, start, done, todo, modules, passed, live, same, writing⟩ := reaches
  have linked := passed.linked
  have writing := writing_writeFiles linked accepted same (live ▸ List.prefix_append _ _) writing
  obtain ⟨analysed, draft, -, -, found, write, -⟩ := Work.ends_writeModule ends
  have fresh : path ∉ done := not_mem_behind linked.live live
  obtain ⟨analysed', found', surveyed⟩ := linked.surveyed path (show path ∈ first.live by simp [live])
  cases (writing.rest path fresh).symm.trans found |>.symm.trans found'
  obtain ⟨-, own⟩ := Dependency.path_of_scriptAt? found
  exact ⟨analysed, draft, own, surveyed, writing.alike.settings.trans linked.given, write⟩

/-- The program of a module is grammatical if the source of its file is. -/
theorem programs_conform (accepted : settings.Accepted)
    (grammatical : ∀ source, Corpus.Parses sources path source → source.Conforms)
    (reaches : Reaches settings sources path before)
    (ends : Ends (Work.writeModule path) before written after) : written.program.Conforms := by
  obtain ⟨analysed, draft, rfl, surveyed, given, write⟩ := reaches.surveyed accepted ends
  obtain ⟨read, opened, merged, becomes⟩ := surveyed.origin
  have samePath : analysed.path = read.path := by rw [becomes.same]
  have sameRoot : analysed.isRoot = read.isRoot := by rw [becomes.same]
  obtain ⟨checked, events, replaced, classified⟩ := becomes
  have kept := TypeCheck.replace_checked opened.sound opened.taken replaced
  obtain ⟨conforms, statements⟩ := TypeCheck.replace_grammatical opened.sound opened.taken
    (merged.conforms (samePath ▸ grammatical)) (by simp [opened.helpers]) replaced
  have helpers : checked.helpers = analysed.helpers := by
    rw [Access.classify_same classified]
  have unmarked : checked.isRoot = analysed.isRoot := by
    rw [TypeCheck.replace_same replaced, sameRoot]
  rw [helpers] at statements
  rw [← given] at accepted surveyed
  obtain ⟨-, -, kept', body, rooted, made⟩ := write_made accepted surveyed write
  have program := kept.form.trans opened.program
  cases root : analysed.isRoot with
  | true =>
      -- nothing is imported or exported, and the analysis leaves the tree alone
      obtain ⟨imports, exports, same⟩ := rooted root
      have tree := Access.classify_root (unmarked.trans root) classified
      rw [Module.program, imports, exports, kept', body, same, tree]
      refine Node.conforms_program_iff.mpr fun node member => ?_
      simp only [List.map_nil, List.nil_append, List.append_nil, List.mem_append] at member
      exact member.elim (statements node) (conforms.statements program node)
  | false =>
      obtain ⟨provides, marked⟩ := Access.classify_classified (opened.unread_checked replaced)
        (unmarked.trans root) classified
      exact (made root).conforms kept.sound program (given ▸ marked) conforms statements

theorem grammatical_cyclicSources :
    ∀ source, Corpus.Parses cyclicSources "./a.js" source → source.Conforms := by
  rintro source ⟨normal, text, run, found, parsed⟩
  have normalized : Corpus.normalizeSources cyclicSources = .ok
      [("./a.js", "THREE.A = [THREE.B];"), ("./b.js", "THREE.B = [THREE.A];"),
        ("./c.js", "THREE.A;")] := by
    decide +kernel
  cases normalized.symm.trans run
  cases found
  have conforms : (Node.parse? "THREE.A = [THREE.B];").all Node.conforms = true := by
    decide +kernel
  rw [parsed] at conforms
  exact conforms

theorem programs_conform_cyclicSources : ∃ before written after,
    Reaches {} cyclicSources "./a.js" before ∧
      Ends (Work.writeModule "./a.js") before written after ∧ written.program.Conforms := by
  obtain ⟨report, final, ran, ⟨module', member, path, -⟩, -⟩ := ran_cyclicSources
  obtain ⟨rewritten, -⟩ := ran.rewritten Settings.accepted_standard
  have live : "./a.js" ∈ final.live := by
    have paths : (report.modules.map Prod.fst).map Module.path = final.live := rewritten.paths
    rw [← paths, ← path]
    exact List.mem_map_of_mem (List.mem_map_of_mem member)
  obtain ⟨before, written, after, reaches, ends⟩ := ran.reaches Settings.accepted_standard live
  exact ⟨before, written, after, reaches, ends,
    programs_conform Settings.accepted_standard grammatical_cyclicSources reaches ends⟩

end Conversion

end ScriptModules
