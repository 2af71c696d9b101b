import ScriptModules.Proofs.Conversion.Rewrite

namespace ScriptModules.Surroundings

open Dependency (scriptAt? requiredNames path_of_scriptAt?)

variable {settings : Settings} {sources : Ledger String} {around : Surroundings}
  {modules : List Module} {start script : Script} {written : Module}

/-! ## The script of a module -/

theorem Made.path_eq
    (made : around.Made settings sources start script written) : start.path = written.path := by
  have same : script.outline.path = start.outline.path := congrArg _ made.same
  exact same.symm.trans (path_of_scriptAt? made.found).2

theorem Made.requires_eq
    (made : around.Made settings sources start script written) :
    script.requires = start.requires :=
  show script.outline.requires = start.outline.requires from congrArg _ made.same

theorem Made.provides_eq
    (made : around.Made settings sources start script written) :
    script.provides = start.provides :=
  show script.outline.provides = start.outline.provides from congrArg _ made.same

theorem Made.recorded_eq
    (made : around.Made settings sources start script written) (name : String) :
    script.recorded name = start.recorded name := by
  rw [Script.recorded, Script.recorded, made.provides_eq, made.requires_eq]

/-! ## The imports of a module -/

theorem Made.import_owner
    (made : around.Made settings sources start script written) {required : Import × Tree.Node}
    (member : required ∈ written.imports) : start.isRoot = false ∧
      ∃ name ∈ start.requires.names, around.index.owner? name = some required.1.path := by
  cases root : start.isRoot with
  | true =>
      rw [(made.root root).1] at member
      cases member
  | false =>
      obtain ⟨files, groups, imports⟩ := (made.other root).imports
      have entry : (required.1.path, required.1.names) ∈ files := by
        rw [← imports.files]
        exact List.mem_map_of_mem member
      obtain ⟨name, own⟩ := List.exists_mem_of_ne_nil _ (groups.filled _ _ entry)
      exact ⟨rfl, name, groups.within _ _ entry name own, groups.owned _ _ entry name own⟩

theorem Made.import_of_owner
    (made : around.Made settings sources start script written) {name path : String}
    (member : name ∈ start.requires.names) (owner : around.index.owner? name = some path) :
    ∃ required ∈ written.imports, required.1.path = path ∧ name ∈ required.1.names := by
  cases root : start.isRoot with
  | true =>
      rw [made.surveyed.root root] at member
      cases member
  | false =>
      obtain ⟨required, inside, own, owner'⟩ := (made.other root).import_of_required member
      cases owner.symm.trans owner'
      exact ⟨required, inside, rfl, own⟩

/-! ## The modules of the live files -/

theorem Rewritten.exists_module (rewritten : around.Rewritten settings sources modules)
    {path : String} (live : path ∈ around.live) : ∃ written ∈ modules, written.path = path := by
  rw [← rewritten.paths] at live
  exact List.mem_map.mp live

theorem Rewritten.owner_of_required (rewritten : around.Rewritten settings sources modules)
    (made : around.Made settings sources start script written) (live : written ∈ modules)
    {name : String} (required : name ∈ script.requires.names) :
    ∃ target ∈ modules, around.index.owner? name = some target.path ∧
      ∃ start' provider, around.Made settings sources start' provider target ∧
        name ∈ provider.provides.names := by
  have source : written.path ∈ around.live := by
    rw [← rewritten.paths]
    exact List.mem_map_of_mem live
  have names : name ∈ requiredNames around.scripts written.path := by
    rw [requiredNames, made.found]
    exact required
  obtain ⟨path, alive, owned⟩ := rewritten.closed _ source name names
  obtain ⟨target, member, rfl⟩ := rewritten.exists_module alive
  obtain ⟨start', provider, made'⟩ := rewritten.made target member
  obtain ⟨-, provider', found, provides⟩ := rewritten.provided name _ owned
  cases made'.found.symm.trans found
  exact ⟨target, member, owned, start', provider, made', provides⟩

end ScriptModules.Surroundings
