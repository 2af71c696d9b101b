import ScriptModules.Proofs.Analysis.Numbered
import ScriptModules.Proofs.Dependency.Search
import ScriptModules.Proofs.Lockstep
import ScriptModules.Proofs.Module.Draft

namespace ScriptModules

open ScriptModules.Tree

namespace Surroundings

/-- A file that may be required is the same script in both surroundings, and it leads to the same
files. -/
structure AgreeAt (around other : Surroundings) (path : String) : Prop where
  converted : ∃ script id, Draft.converted around path = .ok script ∧
    Draft.converted other path = .ok (script.numbered id)
  reaches : ∀ target, Dependency.reaches other.index other.scripts path target =
    Dependency.reaches around.index around.scripts path target

structure AgreeFor (around other : Surroundings) (script : Script) : Prop where
  settings : other.settings = around.settings
  owners : ∀ name ∈ script.requires.names, other.index.owner? name = around.index.owner? name
  files : ∀ path ∈ Dependency.successors around.index script, around.AgreeAt other path

end Surroundings

theorem Dependency.requiredFiles_congr {index other : Index} {script : Script}
    (owners : ∀ name ∈ script.requires.names, other.owner? name = index.owner? name) (id : Nat) :
    requiredFiles other (script.numbered id) = requiredFiles index script := by
  change script.requires.names.foldlM _ [] = script.requires.names.foldlM _ []
  generalize ([] : Ledger (List String)) = files
  generalize script.requires.names = names at owners
  induction names generalizing files with
  | nil => rfl
  | cons name names ih =>
      rw [List.foldlM_cons, List.foldlM_cons, owners name List.mem_cons_self]
      refine congrArg _ (funext fun next => ?_)
      exact ih next fun other member => owners other (List.mem_cons_of_mem name member)

namespace Draft

structure Renumbered (id : Nat) (before before' : Draft) : Prop where
  script : before'.script = before.script.numbered id
  events : before'.events = before.events

variable {around other : Surroundings} {id : Nat} {before before' : Draft}

theorem lockstep_reserve (same : Renumbered id before before') (name : String) :
    Lockstep (Renumbered id) (reserve name) before (reserve name) before' := by
  refine .get_bind ?_
  rw [same.script]
  exact .bind (.modify ⟨rfl, same.events⟩) fun _ _ _ _ same => .pure same _

theorem lockstep_changeTree (same : Renumbered id before before')
    (change : Node → Except Fault Node) :
    Lockstep (Renumbered id) (changeTree change) before (changeTree change) before' := by
  refine .get_bind ?_
  rw [same.script]
  exact .bind (.liftM same _) fun _ _ _ _ same => .modify ⟨rfl, same.events⟩

theorem lockstep_replaceBases (same : Renumbered id before before') (sites : List Position)
    (text : String) : Lockstep (Renumbered id)
      (replaceBases sites text) before (replaceBases sites text) before' :=
  .bind (.liftM same _) fun _ _ _ _ same => lockstep_changeTree same _

/-! ## Imports -/

theorem lockstep_nameImport (settings : other.settings = around.settings) {path : String}
    (agree : around.AgreeAt other path) (same : Renumbered id before before')
    (names : List String) : Lockstep (Renumbered id)
      (nameImport around path names) before (nameImport other path names) before' := by
  obtain ⟨script, number, found, found'⟩ := agree.converted
  refine .get_bind (.bind_of_ends (.liftM_of found _) (.liftM_of found' _) ?_)
  rw [same.script, settings, Script.path_numbered, agree.reaches]
  refine .bind (.liftM same _) fun specifier _ _ _ same =>
    .bind (lockstep_reserve same _) fun binding _ _ _ same => ?_
  by_cases deferred : Dependency.reaches around.index around.scripts path before.script.path
  · rw [if_pos deferred, if_pos deferred]
    exact .bind (lockstep_reserve same _) fun _ _ _ _ same => .pure same _
  · rw [if_neg deferred, if_neg deferred]
    exact .pure same _

theorem lockstep_require (settings : other.settings = around.settings) {path : String}
    (agree : around.AgreeAt other path) (same : Renumbered id before before')
    (names : List String) : Lockstep (Renumbered id)
      (require around path names) before (require other path names) before' := by
  refine .bind (lockstep_nameImport settings agree same names) fun required _ _ _ same =>
    .bind (.liftM same _) fun declaration _ _ _ same => .get_bind ?_
  rw [same.script]
  refine .bind (.forM (fun name _ _ _ same => lockstep_replaceBases same _ _) same)
    fun _ _ _ _ same => .bind (.modify ⟨same.script, ?_⟩) fun _ _ _ _ same => .pure same _
  rw [same.events]
  rfl

theorem lockstep_requireAll (agree : around.AgreeFor other before.script)
    (same : Renumbered id before before') :
    Lockstep (Renumbered id) (requireAll around) before (requireAll other) before' := by
  refine .get_bind ?_
  rw [same.script, Dependency.requiredFiles_congr agree.owners]
  refine .bind (.liftM same _) fun files _ _ found same => .mapM ?_ same
  rintro done ⟨path, names⟩ todo _ _ _ parts - same
  have groups := Dependency.requiredFiles_groups ((Ends.liftM_iff _ _ _ _).mp found).1
  have entry : (path, names) ∈ files := by simp [parts]
  obtain ⟨name, member⟩ := List.exists_mem_of_ne_nil _ (groups.filled path names entry)
  refine lockstep_require agree.settings (agree.files path ?_) same names
  exact Dependency.mem_successors.mpr
    ⟨name, groups.within path names entry name member, groups.owned path names entry name member⟩

/-! ## Exports -/

theorem lockstep_markers (same : Renumbered id before before') (kind : ProvideKind)
    (target name : String) : Lockstep (Renumbered id)
      (markers kind target name) before (markers kind target name) before' := by
  cases kind with
  | function | other => exact .bind (.liftM same _) fun _ _ _ _ same => .pure same _
  | object | array | literal => exact .pure same _

theorem lockstep_provide (same : Renumbered id before before') (name : String)
    (provided : Provide) : Lockstep (Renumbered id)
      (provide name provided) before (provide name provided) before' := by
  unfold provide
  split
  · exact .bind (lockstep_reserve same name) fun bound _ _ _ same =>
      .bind (.liftM same _) fun declaration _ _ _ same =>
      .bind (.liftM same _) fun reference _ _ _ same =>
      .bind (.forM (fun _ _ _ _ same => lockstep_changeTree same _) same) fun _ _ _ _ same =>
      .bind (lockstep_markers same _ _ _) fun marks _ _ _ same =>
      .bind (.liftM same _) fun _ _ _ _ same => .pure same _
  · exact .bind (lockstep_replaceBases same _ _) fun _ _ _ _ same =>
      .bind (lockstep_markers same _ _ _) fun _ _ _ _ same => .pure same _

theorem lockstep_provideAll (same : Renumbered id before before') :
    Lockstep (Renumbered id) provideAll before provideAll before' := by
  refine .get_bind ?_
  rw [same.script]
  change Lockstep _ (if before.script.isRoot then _ else _) _ (if before.script.isRoot then _ else _) _
  split
  · exact .pure same _
  · exact .bind (.mapM (fun _ _ _ _ _ _ _ _ same => lockstep_provide same _ _) same)
      fun _ _ _ _ same => .pure same _

theorem lockstep_write {start : Script} (agree : around.AgreeFor other start) (id : Nat) :
    Lockstep (Renumbered id) (write around) { script := start }
      (write other) { script := start.numbered id } := by
  refine .bind (lockstep_requireAll agree ⟨rfl, rfl⟩) fun _ _ _ _ same =>
    .bind (lockstep_provideAll same) fun _ _ _ _ same => .get_bind ?_
  rw [same.script]
  exact .pure same _

end Draft

end ScriptModules
