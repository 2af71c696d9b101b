import ScriptModules.Proofs.Conversion.Owners
import ScriptModules.Proofs.Module.Substitution

namespace ScriptModules

open ScriptModules.Tree
open Dependency (scriptAt?)

namespace Conversion

/-- A conversion gets to the file with a path: the file is still converted behind the check of
integrity, and the modules of the files in front of it are written. -/
def Reaches (settings : Settings) (sources : Ledger String) (path : String)
    (workspace : Workspace) : Prop :=
  ∃ first start done todo modules, Passed settings sources first ∧
    first.live = done ++ path :: todo ∧ start.core = first.core ∧
      Ends (done.mapM writeFile) start modules workspace

/-- The parts of a module that is not the one that creates the global object. The body is the tree
behind the type checks, with each access to the global object replaced where it stands and nothing
else changed; an accessed name that the script does not provide stands for a property of the import
of its owner. -/
structure Substituted (settings : Settings) (index : Index) (checked analysed : Script)
    (bound : String → String) (written : Module) : Prop where
  program : written.program.bare = (Node.program
    (written.imports.map (fun required => required.1.tree) ++ checked.helpers ++
      analysed.provides.flatMap (fun entry =>
        (entry.2.kind.exportOf entry.1 (bound entry.1)).declarations) ++
      (Access.substitute settings.globalName (written.standIn analysed.provides bound)
        checked.tree).children ++
      analysed.provides.flatMap (fun entry =>
        (entry.2.kind.exportOf entry.1 (bound entry.1)).statements))).bare
  covered : ∀ visit ∈ Access.accesses settings.globalName checked.tree,
    Access.accessedName visit.node ∈ analysed.provides.names ∨
      ∃ required ∈ written.imports, Access.accessedName visit.node ∈ required.1.names
  owned : ∀ required ∈ written.imports, ∀ name ∈ required.1.names,
    index.owner? name = some required.1.path

/-- The module of a file that a conversion gets to is made by substitution from the script that was
read and merged, with its type checks replaced and what the analysis found out about it. -/
theorem module_substituted {settings : Settings} (accepted : settings.Accepted)
    {sources : Ledger String} {path : String} (other : path ≠ settings.rootPath)
    {before after : Workspace} (reaches : Reaches settings sources path before) {written : Module}
    (ends : Ends (Work.writeModule path) before written after) :
    ∃ read checked analysed events bound, read.path = path ∧ read.Merged settings sources ∧
      TypeCheck.replace settings read = .ok (checked, events) ∧
      Access.classify settings checked = .ok (analysed, none) ∧
      Substituted settings before.index checked analysed bound written := by
  obtain ⟨first, start, done, todo, modules, passed, live, same, writing⟩ := reaches
  have linked := passed.linked
  have writing := writing_writeFiles linked accepted same (live ▸ List.prefix_append _ _) writing
  obtain ⟨analysed, draft, provider, entry, found, write, -⟩ := Work.ends_writeModule ends
  have fresh : path ∉ done := not_mem_behind linked.live live
  obtain ⟨analysed', found', surveyed⟩ := linked.surveyed path (show path ∈ first.live by simp [live])
  cases (writing.rest path fresh).symm.trans found |>.symm.trans found'
  obtain ⟨-, rfl⟩ := Dependency.path_of_scriptAt? found
  have given : before.surroundings.settings = settings := writing.alike.settings.trans linked.given
  have known : analysed.Surveyed before.surroundings.settings sources := by rwa [given]
  obtain ⟨-, -, -, -, -, made⟩ :=
    write_made (by rwa [given]) known write
  have root : analysed.isRoot = false := by
    rw [surveyed.rooted]
    simpa using other
  have made := made root
  obtain ⟨read, opened, merged, becomes⟩ := surveyed.origin
  have samePath : analysed.path = read.path := by rw [becomes.same]
  have sameRoot : analysed.isRoot = read.isRoot := by rw [becomes.same]
  obtain ⟨checked, events, replaced, classified⟩ := becomes
  have kept := TypeCheck.replace_checked opened.sound opened.taken replaced
  have unmarked : checked.isRoot = false := by
    rw [TypeCheck.replace_same replaced, ← root, sameRoot]
  obtain ⟨provides, marked⟩ :=
    Access.classify_classified (opened.unread_checked replaced) unmarked classified
  have helpers : checked.helpers = analysed.helpers := by
    rw [Access.classify_same classified]
  obtain ⟨bound, program⟩ :=
    made.bare_program kept.sound (kept.form.trans opened.program) (given ▸ marked)
  refine ⟨read, checked, analysed, events, bound, samePath.symm, merged, replaced, classified, ?_,
    fun visit met => ?_, fun required inside name own => ?_⟩
  · rw [helpers, program, given]
  · have recorded := (marked.marks.recorded _ _).mpr ⟨visit, met, rfl, rfl⟩
    cases provided : analysed.provides.get? (Access.accessedName visit.node) with
    | some provide => exact .inl (Ledger.mem_names_of_get? provided)
    | none =>
        obtain ⟨required, inside, own, -⟩ :=
          made.import_of_required (Access.required_of_recorded provided recorded)
        exact .inr ⟨required, inside, own⟩
  · exact (made.import_owned inside name own).2

theorem Ran.reaches {settings : Settings} (accepted : settings.Accepted) {sources : Ledger String}
    {withGraph : Bool} {log : List LogLine} {report : Report} {final : Workspace}
    (ran : Ran settings sources withGraph log report final) {path : String}
    (live : path ∈ final.live) : ∃ before written after, Reaches settings sources path before ∧
      Ends (Work.writeModule path) before written after := by
  obtain ⟨first, phases⟩ := ran.phases
  have alike : final.live = first.live := (phases.writing accepted).alike.live
  obtain ⟨start, last, same, ends, -⟩ := phases.written
  obtain ⟨done, todo, parts⟩ := List.append_of_mem (alike ▸ live)
  rw [parts] at ends
  obtain ⟨modules, before, rest, writing, ends, -⟩ := Ends.mapM_append_iff.mp ends
  obtain ⟨written, between, modules', ends, -⟩ := (Ends.mapM_cons_iff _ _ _ _ _ _).mp ends
  obtain ⟨after, ends, -⟩ := ends_writeFile ends
  exact ⟨before, written.1, after, ⟨first, start, done, todo, modules, phases.passed, parts, same,
    writing⟩, ends⟩

theorem module_substituted_cyclicSources : ∃ before written after,
    Reaches {} cyclicSources "./c.js" before ∧
      Ends (Work.writeModule "./c.js") before written after ∧
      ∃ checked analysed bound, Substituted {} before.index checked analysed bound written := by
  obtain ⟨report, final, ran, -, ⟨module', member, path, -⟩, -⟩ := ran_cyclicSources
  obtain ⟨rewritten, -⟩ := ran.rewritten Settings.accepted_standard
  have live : "./c.js" ∈ final.live := by
    have paths : (report.modules.map Prod.fst).map Module.path = final.live := rewritten.paths
    rw [← paths, ← path]
    exact List.mem_map_of_mem (List.mem_map_of_mem member)
  obtain ⟨before, written, after, reaches, ends⟩ := ran.reaches Settings.accepted_standard live
  obtain ⟨read, checked, analysed, events, bound, -, -, -, -, substituted⟩ :=
    module_substituted Settings.accepted_standard (by decide) reaches ends
  exact ⟨before, written, after, reaches, ends, checked, analysed, bound, substituted⟩

end Conversion

end ScriptModules
