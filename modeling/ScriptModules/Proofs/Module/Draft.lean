import ScriptModules.Proofs.Module.Exports

namespace ScriptModules

open ScriptModules.Tree

structure Written (around : Surroundings) (start after : Script) (written : Module) : Prop where
  path : written.path = start.path
  same : after = { start with tree := after.tree, names := after.names }
  imports : ∃ files, Dependency.Groups around.index start.requires.names files ∧
    Imports around start files written.imports after.tree
  helpers : written.helpers = start.helpers
  exports : ∃ bound exports,
    Exports around.settings.globalName start after.tree start.provides bound exports ∧
      written.exports.declarations = exports.flatMap Export.declarations ∧
      written.exports.statements = exports.flatMap Export.statements
  unused : Text.Unused start.names (Node.declaresAll
    (written.imports.map Prod.snd ++ written.exports.declarations ++ written.exports.statements))
  body : written.body = after.tree.children
  form : after.tree.form = .program
  forms : ∀ q, (∀ name, ∀ site ∈ start.recorded name, ¬site <+: q) →
    (after.tree.at? q).map Node.form = (start.tree.at? q).map Node.form
  clean : Draft.Clean around.settings.globalName after.tree.names
  assigned : ∀ name ∈ start.provides.names, ∃ position operator,
    (after.tree.at? position).map Node.form = some (.assign operator) ∧
      position ++ [0] ∈ start.recorded name

theorem Written.import_owned {around : Surroundings} {start after : Script} {written : Module}
    (made : Written around start after written) {required : Import × Node}
    (inside : required ∈ written.imports) : ∀ name ∈ required.1.names,
      name ∈ start.requires.names ∧ around.index.owner? name = some required.1.path := by
  obtain ⟨files, groups, imports⟩ := made.imports
  have entry : (required.1.path, required.1.names) ∈ files := by
    rw [← imports.files]
    exact List.mem_map_of_mem inside
  exact fun name own => ⟨groups.within _ _ entry name own, groups.owned _ _ entry name own⟩

theorem Written.import_of_required {around : Surroundings} {start after : Script} {written : Module}
    (made : Written around start after written) {name : String}
    (needed : name ∈ start.requires.names) : ∃ required ∈ written.imports,
      name ∈ required.1.names ∧ around.index.owner? name = some required.1.path := by
  obtain ⟨files, groups, imports⟩ := made.imports
  obtain ⟨path, group, entry, own⟩ := groups.covers name needed
  have owner := groups.owned path group entry name own
  rw [← imports.files] at entry
  obtain ⟨required, inside, same⟩ := List.mem_map.mp entry
  cases same
  exact ⟨required, inside, own, owner⟩

theorem declaresAll_statements (provides : Ledger Provide) (bound : String → String) :
    Node.declaresAll ((provides.map fun entry =>
      entry.2.kind.exportOf entry.1 (bound entry.1)).flatMap Export.statements) = [] := by
  induction provides with
  | nil => rfl
  | cons entry provides ih =>
      rw [List.map_cons, List.flatMap_cons, Node.declaresAll_append, ih,
        ProvideKind.statements_exportOf]
      rfl

namespace Draft

theorem ends_write {around : Surroundings} (accepted : around.settings.Accepted) {start : Script}
    (ready : start.Ready around.settings) {written : Module} {after : Draft}
    (ends : Ends (write around) { script := start } written after) :
    Written around start after.script written := by
  simp only [write, provideAll, Ends.bind_iff, Ends.get_iff, Ends.pure_iff] at ends
  obtain ⟨imports, _, importing, exports, _, ⟨_, between, ⟨rfl, rfl⟩, exporting⟩, _, _, ⟨rfl, rfl⟩,
    rfl, rfl⟩ := ends
  obtain ⟨files, groups, imported, progress, declares⟩ := ends_requireAll accepted ready importing
  have other : between.script.isRoot = false := by
    rw [progress.same]
    exact ready.other
  have provides : between.script.provides = start.provides := by
    rw [progress.same]
  rw [if_neg (by simp [other]), provides] at exporting
  simp only [Ends.bind_iff, Ends.pure_iff] at exporting
  obtain ⟨exports, _, exporting, rfl, rfl⟩ := exporting
  have fresh : ∀ name ∈ start.provides.names, name ∉ files.flatMap Prod.snd := by
    intro name provided required
    obtain ⟨⟨path, names⟩, entry, member⟩ := List.mem_flatMap.mp required
    exact ready.apart name (groups.within path names entry name member) provided
  obtain ⟨bound, exported, declares', progress', stays⟩ :=
    ends_provides ready fresh progress (List.prefix_refl _) exporting
  have silent : Node.declaresAll (exports.flatMap Export.statements) = [] := by
    rw [exported.written]
    exact declaresAll_statements start.provides bound
  refine ⟨?_, progress'.same, ⟨files, groups, imported.files, fun written member => ?_⟩, ?_,
    ⟨bound, exports, exported, rfl, rfl⟩, ?_, rfl, progress'.form.trans ready.program,
    fun q outside => progress'.forms q fun name _ => outside name, progress'.clean,
    fun name provided => ?_⟩
  · rw [progress'.same]
  · have old := imported.imported written member
    refine { old with sites := fun name own site place => ?_ }
    refine (old.sites name own site place).of_at? (stays name (fun provided => ?_) site place)
    have entry : (written.1.path, written.1.names) ∈ files := by
      rw [← imported.files]
      exact List.mem_map_of_mem member
    exact ready.apart name (groups.within _ _ entry name own) provided
  · rw [progress'.same]
  · rw [Node.declaresAll_append, silent, List.append_nil]
    exact (declares.append declares').unused
  · obtain ⟨position, operator, form, recorded⟩ := ready.assigned ready.other name provided
    exact ⟨position, operator, (progress'.assigned ready recorded).trans form, recorded⟩

theorem ends_write_root {around : Surroundings} {start : Script} (root : start.isRoot = true)
    (requires : start.requires = []) {written : Module} {after : Draft}
    (ends : Ends (write around) { script := start } written after) :
    written.path = start.path ∧ written.imports = [] ∧ written.helpers = start.helpers ∧
      written.exports = {} ∧ written.body = start.tree.children ∧ after.script = start := by
  have none : Dependency.requiredFiles around.index start = .ok [] := by
    rw [Dependency.requiredFiles, requires]
    rfl
  simp only [write, requireAll, provideAll, Ends.bind_iff, Ends.get_iff, Ends.liftM_iff,
    Ends.pure_iff] at ends
  obtain ⟨imports, _, ⟨_, _, ⟨rfl, rfl⟩, files, _, ⟨found, rfl⟩, importing⟩, exports, _,
    ⟨_, _, ⟨rfl, rfl⟩, exporting⟩, _, _, ⟨rfl, rfl⟩, rfl, rfl⟩ := ends
  rw [none] at found
  cases found
  obtain ⟨rfl, rfl⟩ := (Ends.pure_iff _ _ _ _).mp importing
  rw [if_pos root] at exporting
  obtain ⟨rfl, rfl⟩ := (Ends.pure_iff _ _ _ _).mp exporting
  exact ⟨rfl, rfl, rfl, rfl, rfl, rfl⟩

end Draft

end ScriptModules
