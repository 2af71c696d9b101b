import ScriptModules.Proofs.Conversion.Owners

namespace ScriptModules

open ScriptModules.Tree

/-- The statements of a module around its body: what requires other files, what type checks need, and
what declares, marks and exports provided names. -/
def Module.generated (written : Module) : List Node :=
  written.imports.map Prod.snd ++ written.helpers ++ written.exports.declarations ++
    written.exports.statements

variable {settings : Settings} {sources : Ledger String}

/-- The helpers of the type checks of an analysed script have names that are unused in the source, and
they are taken in the script like the ones of the source. -/
theorem Script.Surveyed.helpers_unused {script : Script}
    (surveyed : script.Surveyed settings sources) : ∃ source,
      Corpus.Parses sources script.path source ∧
      Text.Unused source.boundNames (Node.declaresAll script.helpers) ∧
      source.boundNames ++ Node.declaresAll script.helpers ⊆ script.names := by
  obtain ⟨read, opened, -, becomes⟩ := surveyed.origin
  have path : script.path = read.path := by rw [becomes.same]
  obtain ⟨checked, events, replaced, classified⟩ := becomes
  obtain ⟨source, parses, named⟩ := opened.parsed
  have kept := TypeCheck.replace_checked opened.sound opened.taken replaced
  have same := Access.classify_same classified
  have names : script.names = checked.names := by rw [same]
  obtain ⟨helpers, whole, -, unused, taken⟩ := kept.helpers
  have all : script.helpers = helpers := by
    rw [same]
    exact whole.trans (by rw [opened.helpers, List.nil_append])
  refine ⟨source, path ▸ parses, ?_, ?_⟩
  · rw [all, ← named]
    exact unused
  · rw [all, names, ← named]
    exact List.append_subset.mpr ⟨kept.grown, taken⟩

theorem Surroundings.Made.unused {around : Surroundings} {start script : Script}
    {written : Module} (made : around.Made settings sources start script written) :
    ∃ source, Corpus.Parses sources written.path source ∧
      Text.Unused source.boundNames (Node.declaresAll written.generated) := by
  obtain ⟨source, parses, helpers, taken⟩ := made.surveyed.helpers_unused
  rw [← made.helpers] at helpers taken
  refine ⟨source, made.path_eq ▸ parses, ?_⟩
  cases root : start.isRoot with
  | true =>
      obtain ⟨imports, exports, -⟩ := made.root root
      simpa [Module.generated, imports, exports] using helpers
  | false =>
      -- the helpers are named first, although they stand behind the imports
      refine (helpers.append ((made.other root).unused.of_subset taken)).perm ?_
      simp only [Module.generated, Node.declaresAll_append, ← List.append_assoc]
      exact ((List.perm_append_comm).append_right _).append_right _

theorem Written.mem_declaresAll_generated {around : Surroundings} {start after : Script}
    {written : Module} (made : Written around start after written) {required : Import × Node}
    (inside : required ∈ written.imports) {name : String} (member : name ∈ required.1.locals) :
    name ∈ Node.declaresAll written.generated := by
  obtain ⟨files, groups, imports⟩ := made.imports
  obtain ⟨before, after, parts⟩ := List.append_of_mem inside
  rw [Module.generated, parts]
  simp [(imports.imported required inside).declared, Import.declares_tree, member]

namespace Conversion

/-- The names that the generated statements of a module declare are different from each other. None of
them is a reserved word, and none is a name in the source of the file. -/
theorem generated_unused {settings : Settings} (accepted : settings.Accepted)
    {sources : Ledger String} {withGraph : Bool} {log log' : List LogLine} {report : Report}
    (ends : Ends (run settings sources withGraph) log report log') :
    ∀ written ∈ report.modules, ∃ source, Corpus.Parses sources written.1.path source ∧
      (Node.declaresAll written.1.generated).Nodup ∧
      ∀ name ∈ Node.declaresAll written.1.generated,
        name ∉ Text.reservedWords ∧ name ∉ source.boundNames := by
  obtain ⟨final, ran, -⟩ := ends_run_iff.mp ends
  obtain ⟨rewritten, -⟩ := ran.rewritten accepted
  intro written member
  obtain ⟨start, script, made⟩ := rewritten.made written.1 (List.mem_map_of_mem member)
  obtain ⟨source, parses, unused⟩ := made.unused
  exact ⟨source, parses, unused.distinct, fun name declared => (unused.free name declared).symm⟩

theorem generated_unused_cyclicSources :
    ∃ report log, Ends (run {} cyclicSources false) [] report log ∧
      ∃ written ∈ report.modules, written.1.path = "./a.js" ∧
        (Node.declaresAll written.1.generated).Nodup ∧
        ∃ getter ∈ Node.declaresAll written.1.generated, getter ∉ Text.reservedWords := by
  obtain ⟨report, final, ran, ⟨written, member, path, imports⟩, -⟩ := ran_cyclicSources
  have ends := ends_run_iff.mpr ⟨final, ran, rfl⟩
  obtain ⟨source, -, distinct, free⟩ :=
    generated_unused Settings.accepted_standard ends written member
  obtain ⟨required, inside, shape⟩ : ∃ required ∈ written.1.imports,
      (required.1.path, required.1.isDeferred) = ("./b.js", true) :=
    List.mem_map.mp (by rw [imports]; exact List.mem_cons_self)
  obtain ⟨getter, known⟩ := Option.isSome_iff_exists.mp (Prod.mk.inj shape).2
  obtain ⟨rewritten, -⟩ := ran.rewritten Settings.accepted_standard
  obtain ⟨start, script, made⟩ := rewritten.made written.1 (List.mem_map_of_mem member)
  have bound : getter ∈ required.1.locals := by
    rw [Import.locals, known]
    simp
  have declared := (made.other (made.import_owner inside).1).mem_declaresAll_generated inside bound
  exact ⟨report, final.log, ends, written, member, path, distinct, getter, declared,
    (free getter declared).1⟩

end Conversion

end ScriptModules
