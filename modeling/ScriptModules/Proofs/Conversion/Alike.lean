import ScriptModules.Proofs.Conversion.Analysis
import ScriptModules.Proofs.Dependency.Integrity
import ScriptModules.Proofs.Module.Draft

namespace ScriptModules

open Dependency (scriptAt? Closed Requires)

def Script.outline (script : Script) : Script :=
  { script with tree := .program [], names := [] }

namespace Surroundings

/-- Surroundings that differ in the trees of the scripts and the names taken in them at most. -/
structure Alike (around other : Surroundings) : Prop where
  settings : other.settings = around.settings
  index : other.index = around.index
  live : other.live = around.live
  scripts : ∀ path, (scriptAt? other.scripts path).map Script.outline =
    (scriptAt? around.scripts path).map Script.outline

namespace Alike

variable {around other third : Surroundings}

theorem refl (around : Surroundings) : around.Alike around :=
  ⟨rfl, rfl, rfl, fun _ => rfl⟩

theorem symm (alike : around.Alike other) : other.Alike around :=
  ⟨alike.settings.symm, alike.index.symm, alike.live.symm, fun path => (alike.scripts path).symm⟩

theorem trans (alike : around.Alike other) (alike' : other.Alike third) : around.Alike third where
  settings := alike'.settings.trans alike.settings
  index := alike'.index.trans alike.index
  live := alike'.live.trans alike.live
  scripts := fun path => (alike'.scripts path).trans (alike.scripts path)

theorem putScript {workspace : Workspace} {script old : Script}
    (found : scriptAt? workspace.scripts script.path = some old)
    (outline : script.outline = old.outline) :
    workspace.surroundings.Alike (workspace.putScript script).surroundings where
  settings := rfl
  index := rfl
  live := rfl
  scripts := fun path => by
    change (scriptAt? (workspace.putScript script).scripts path).map Script.outline =
      (scriptAt? workspace.scripts path).map Script.outline
    by_cases own : path = script.path
    · subst own
      rw [Dependency.scriptAt?_putScript_self found, found, Option.map_some, Option.map_some,
        outline]
    · rw [Dependency.scriptAt?_putScript_of_ne workspace own]

theorem scriptAt?_eq_some (alike : around.Alike other) {path : String} {script : Script}
    (found : scriptAt? around.scripts path = some script) : ∃ script',
      scriptAt? other.scripts path = some script' ∧ script'.outline = script.outline := by
  have same := alike.scripts path
  rw [found, Option.map_some] at same
  exact Option.map_eq_some_iff.mp same

theorem requires (alike : around.Alike other) {source target : String}
    (edge : Requires around.index around.scripts source target) :
    Requires other.index other.scripts source target := by
  obtain ⟨script, found, member⟩ := edge
  obtain ⟨script', found', same⟩ := alike.scriptAt?_eq_some found
  have requires : script'.outline.requires = script.outline.requires := congrArg _ same
  refine ⟨script', found', ?_⟩
  rw [Dependency.successors, show script'.requires = script.requires from requires, alike.index]
  exact member

theorem reaches (alike : around.Alike other) (source target : String) :
    Dependency.reaches other.index other.scripts source target =
      Dependency.reaches around.index around.scripts source target := by
  rw [Bool.eq_iff_iff, Dependency.reaches_iff, Dependency.reaches_iff]
  exact ⟨Relation.TransGen.mono (fun _ _ => alike.symm.requires) _ _,
    Relation.TransGen.mono (fun _ _ => alike.requires) _ _⟩

theorem requiredNames (alike : around.Alike other) (path : String) :
    Dependency.requiredNames other.scripts path = Dependency.requiredNames around.scripts path := by
  have same := congrArg (Option.map fun script => script.requires.names) (alike.scripts path)
  simp only [Option.map_map] at same
  exact congrArg (Option.getD · []) same

theorem closed (alike : around.Alike other)
    (closed : Closed (Dependency.requiredNames around.scripts) around.index
      {path | path ∈ around.live}) :
    Closed (Dependency.requiredNames other.scripts) other.index {path | path ∈ other.live} := by
  intro path live name required
  rw [alike.requiredNames] at required
  rw [alike.index, alike.live]
  exact closed path (alike.live ▸ live) name required

theorem owning (alike : around.Alike other) (owning : around.Owning) : other.Owning where
  distinct := alike.index ▸ owning.distinct
  provided := fun name path owned => by
    obtain ⟨live, script, found, provides⟩ := owning.provided name path (alike.index ▸ owned)
    obtain ⟨script', found', same⟩ := alike.scriptAt?_eq_some found
    have provided : script'.outline.provides = script.outline.provides := congrArg _ same
    exact ⟨alike.live ▸ live, script', found', provided.symm ▸ provides⟩
  last := fun name path owned later order script' found' => by
    obtain ⟨script, found, same⟩ := alike.symm.scriptAt?_eq_some found'
    have provided : script.outline.provides = script'.outline.provides := congrArg _ same
    have free := owning.last name path (alike.index ▸ owned) later (alike.live ▸ order) script found
    rwa [show script.provides = script'.provides from provided] at free

theorem converted (alike : around.Alike other) {path : String}
    (found : ∃ script, Draft.converted around path = .ok script) :
    ∃ script, Draft.converted other path = .ok script := by
  obtain ⟨script, found⟩ := found
  unfold Draft.converted at found
  split at found
  · rename_i here
    obtain ⟨script', here', -⟩ := alike.scriptAt?_eq_some here
    split at found
    · rename_i live
      exact ⟨script', by simp only [Draft.converted, here', alike.live, live, if_true]⟩
    · cases found
  · cases found

theorem fits (alike : around.Alike other) {source : String} {required : Import}
    (fits : required.Fits around source) : required.Fits other source where
  converted := alike.converted fits.converted
  specifier := alike.settings ▸ fits.specifier
  deferred := (alike.reaches _ _).symm ▸ fits.deferred

theorem written (alike : around.Alike other) {start after : Script} {written : Module}
    (made : Written around start after written) : Written other start after written := by
  obtain ⟨files, groups, imports⟩ := made.imports
  refine
    { made with
      imports := ⟨files, alike.index ▸ groups, ?_⟩
      exports := alike.settings ▸ made.exports
      clean := alike.settings ▸ made.clean }
  refine { imports with imported := fun one member => ?_ }
  have imported := imports.imported one member
  exact { imported with fits := alike.fits imported.fits }

end Alike

end Surroundings

end ScriptModules
