import ScriptModules.Proofs.Conversion.Owners
import ScriptModules.Proofs.Module.Placement

namespace ScriptModules

open Dependency (scriptAt? Requires)

namespace Report

variable (report : Report)

def Imports (source target : String) : Prop :=
  ∃ written ∈ report.modules, written.1.path = source ∧
    ∃ required ∈ written.1.imports, required.1.path = target

def ImportsDirectly (source target : String) : Prop :=
  ∃ written ∈ report.modules, written.1.path = source ∧
    ∃ required ∈ written.1.imports, required.1.path = target ∧ required.1.isDeferred = false

end Report

namespace Surroundings

variable {settings : Settings} {sources : Ledger String} {around : Surroundings}
  {modules : List Module}

theorem Made.successors {start script : Script} {written : Module}
    (made : around.Made settings sources start script written) {target : String} :
    Requires around.index around.scripts written.path target ↔
      ∃ required ∈ written.imports, required.1.path = target := by
  constructor
  · rintro ⟨other, found, edge⟩
    cases made.found.symm.trans found
    obtain ⟨name, member, owner⟩ := List.mem_filterMap.mp edge
    rw [made.requires_eq] at member
    obtain ⟨required, inside, same, -⟩ := made.import_of_owner member owner
    exact ⟨required, inside, same⟩
  · rintro ⟨required, inside, rfl⟩
    obtain ⟨-, name, member, owner⟩ := made.import_owner inside
    rw [← made.requires_eq] at member
    exact ⟨script, made.found, List.mem_filterMap.mpr ⟨name, member, owner⟩⟩

theorem Rewritten.import_ne (rewritten : around.Rewritten settings sources modules)
    {written : Module} (member : written ∈ modules) {required : Import × Tree.Node}
    (inside : required ∈ written.imports) : required.1.path ≠ written.path := by
  obtain ⟨start, script, made⟩ := rewritten.made written member
  obtain ⟨-, name, needed, owner⟩ := made.import_owner inside
  intro same
  obtain ⟨-, script', found, provides⟩ := rewritten.provided name _ owner
  rw [same] at found
  cases made.found.symm.trans found
  rw [made.provides_eq] at provides
  exact made.surveyed.apart name needed provides

theorem Rewritten.live_of_requires (rewritten : around.Rewritten settings sources modules)
    {source target : String} (edge : Requires around.index around.scripts source target) :
    target ∈ around.live := by
  obtain ⟨script, -, edge⟩ := edge
  obtain ⟨name, -, owner⟩ := List.mem_filterMap.mp edge
  exact (rewritten.provided name target owner).1

variable {report : Report}

theorem Rewritten.requires_of_imports
    (rewritten : around.Rewritten settings sources (report.modules.map Prod.fst))
    {source target : String} (edge : report.Imports source target) :
    Requires around.index around.scripts source target := by
  obtain ⟨written, member, rfl, imports⟩ := edge
  obtain ⟨start, script, made⟩ := rewritten.made written.1 (List.mem_map_of_mem member)
  exact made.successors.mpr imports

theorem Rewritten.imports_of_requires
    (rewritten : around.Rewritten settings sources (report.modules.map Prod.fst))
    {source target : String} (live : source ∈ around.live)
    (edge : Requires around.index around.scripts source target) : report.Imports source target := by
  obtain ⟨written, member, rfl⟩ := rewritten.exists_module live
  obtain ⟨start, script, made⟩ := rewritten.made written member
  obtain ⟨entry, inside, rfl⟩ := List.mem_map.mp member
  exact ⟨entry, inside, rfl, made.successors.mp edge⟩

theorem Rewritten.reaches_iff
    (rewritten : around.Rewritten settings sources (report.modules.map Prod.fst))
    {source target : String} (live : source ∈ around.live) :
    Dependency.reaches around.index around.scripts source target = true ↔
      Relation.TransGen report.Imports source target := by
  rw [Dependency.reaches_iff]
  constructor
  · intro reached
    induction reached using Relation.TransGen.head_induction_on with
    | single edge => exact .single (rewritten.imports_of_requires live edge)
    | head edge _ ih =>
        exact .head (rewritten.imports_of_requires live edge)
          (ih (rewritten.live_of_requires edge))
  · exact Relation.TransGen.mono (fun _ _ => rewritten.requires_of_imports) _ _

end Surroundings

namespace Conversion

/-- Every import of a module leads to a module. It is put off if and only if it lies on a cycle of
imports, and the imports that are not put off form no cycle. -/
theorem deferred_iff_cycle {settings : Settings} (accepted : settings.Accepted)
    {sources : Ledger String} {withGraph : Bool} {log log' : List LogLine} {report : Report}
    (ends : Ends (run settings sources withGraph) log report log') :
    (∀ path, ¬Relation.TransGen report.ImportsDirectly path path) ∧
    ∀ written ∈ report.modules, ∀ required ∈ written.1.imports,
      (∃ target ∈ report.modules, target.1.path = required.1.path) ∧
        required.2 = required.1.tree ∧ required.2 ∈ written.1.program.children ∧
          (required.1.isDeferred = true ↔
            Relation.ReflTransGen report.Imports required.1.path written.1.path) := by
  obtain ⟨final, ran, -⟩ := ends_run_iff.mp ends
  obtain ⟨rewritten, -⟩ := ran.rewritten accepted
  have decided {written : Module × String} (member : written ∈ report.modules)
      {required : Import × Tree.Node} (inside : required ∈ written.1.imports) :
      (∃ target ∈ report.modules, target.1.path = required.1.path) ∧
        required.2 = required.1.tree ∧
          (required.1.isDeferred = true ↔
            Relation.ReflTransGen report.Imports required.1.path written.1.path) := by
    obtain ⟨start, script, made⟩ := rewritten.made written.1 (List.mem_map_of_mem member)
    obtain ⟨other, name, -, owner⟩ := made.import_owner inside
    have live := (rewritten.provided name _ owner).1
    obtain ⟨target, inside', same⟩ := rewritten.exists_module live
    obtain ⟨entry, member', rfl⟩ := List.mem_map.mp inside'
    obtain ⟨files, groups, imports⟩ := (made.other other).imports
    have imported := imports.imported required inside
    have path : written.1.path = start.path := (made.other other).path
    refine ⟨⟨entry, member', same⟩, imported.declared, ?_⟩
    rw [imported.fits.deferred, ← path, rewritten.reaches_iff live,
      Relation.reflTransGen_iff_eq_or_transGen]
    have distinct := rewritten.import_ne (List.mem_map_of_mem member) inside
    exact ⟨.inr, fun back => back.resolve_left distinct.symm⟩
  constructor
  · intro path cycle
    obtain ⟨next, edge, back⟩ := Relation.TransGen.head'_iff.mp cycle
    obtain ⟨written, member, rfl, required, inside, rfl, direct⟩ := edge
    have way : ∀ source target, report.ImportsDirectly source target →
        report.Imports source target := by
      rintro source target ⟨one, known, same, entry, own, same', -⟩
      exact ⟨one, known, same, entry, own, same'⟩
    have deferred : required.1.isDeferred = true :=
      (decided member inside).2.2.mpr (Relation.ReflTransGen.mono way _ _ back)
    rw [direct] at deferred
    cases deferred
  · intro written member required inside
    obtain ⟨leads, declared, cyclic⟩ := decided member inside
    refine ⟨leads, declared, ?_, cyclic⟩
    have stated : required.2 ∈ written.1.imports.map Prod.snd := List.mem_map_of_mem inside
    simp only [Module.children_program, List.append_assoc]
    exact List.mem_append_left _ stated

theorem deferred_iff_cycle_cyclicSources :
    ∃ report log, Ends (run {} cyclicSources false) [] report log ∧
      ¬Relation.TransGen report.ImportsDirectly "./a.js" "./a.js" ∧
      ∃ written ∈ report.modules, written.1.path = "./a.js" ∧ ∃ required ∈ written.1.imports,
        required.1.path = "./b.js" ∧ required.1.isDeferred = true ∧
          Relation.ReflTransGen report.Imports "./b.js" "./a.js" := by
  obtain ⟨report, final, ran, ⟨written, member, path, imports⟩, -⟩ := ran_cyclicSources
  have ends := ends_run_iff.mpr ⟨final, ran, rfl⟩
  obtain ⟨acyclic, decided⟩ := deferred_iff_cycle Settings.accepted_standard ends
  obtain ⟨required, inside, shape⟩ : ∃ required ∈ written.1.imports,
      (required.1.path, required.1.isDeferred) = ("./b.js", true) :=
    List.mem_map.mp (by rw [imports]; exact List.mem_cons_self)
  obtain ⟨target, deferred⟩ := Prod.mk.inj shape
  obtain ⟨-, -, -, cyclic⟩ := decided written member required inside
  have back := cyclic.mp deferred
  rw [target, path] at back
  exact ⟨report, final.log, ends, acyclic "./a.js", written, member, path, required, inside, target,
    deferred, back⟩

end Conversion

end ScriptModules
