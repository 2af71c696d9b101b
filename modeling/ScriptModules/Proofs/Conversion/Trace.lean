import ScriptModules.Proofs.Conversion.Rewrite
import ScriptModules.Proofs.Frame

namespace ScriptModules

open Dependency (scriptAt?)

variable {γ : Type} {pick : Event → Option γ}

namespace Trace

def picked (pick : Event → Option γ) (trace : Trace) : List γ :=
  trace.entries.filterMap fun entry => pick entry.event

@[simp] theorem picked_record (trace : Trace) (event : Event) :
    (trace.record event).picked pick = trace.picked pick ++ (pick event).toList := by
  rw [record, picked, picked, List.filterMap_append]
  cases known : pick event <;> simp [known]

theorem picked_startPhase {name detail : String} (quiet : pick (.phaseStart name detail) = none)
    (trace : Trace) : (trace.startPhase name detail).picked pick = trace.picked pick := by
  refine (trace.picked_record (.phaseStart name detail)).trans ?_
  rw [quiet, Option.toList_none, List.append_nil]

theorem picked_endPhase (quiet : pick .phaseEnd = none) (trace : Trace) :
    trace.endPhase.picked pick = trace.picked pick := by
  unfold endPhase
  split
  · rfl
  · simp [picked, quiet]

end Trace

def Workspace.picked (pick : Event → Option γ) (workspace : Workspace) : List γ :=
  workspace.trace.picked pick

/-! ## Drafts -/

namespace Draft

def picked (pick : Event → Option γ) (draft : Draft) : List γ :=
  draft.events.filterMap pick

theorem leaves_reserve (name : String) : Leaves (picked pick) (reserve name) :=
  Leaves.get.bind fun _ => (Leaves.modify (by intro _; rfl)).bind fun _ => .pure _

theorem leaves_changeTree (change : Tree.Node → Except Fault Tree.Node) :
    Leaves (picked pick) (changeTree change) :=
  Leaves.get.bind fun _ => (Leaves.liftM _).bind fun _ => .modify (by intro _; rfl)

theorem leaves_replaceBases (sites : List Tree.Position) (text : String) :
    Leaves (picked pick) (replaceBases sites text) :=
  (Leaves.liftM _).bind fun _ => leaves_changeTree _

theorem leaves_nameImport (around : Surroundings) (path : String) (names : List String) :
    Leaves (picked pick) (nameImport around path names) := by
  refine Leaves.get.bind fun draft => (Leaves.liftM _).bind fun required =>
    (Leaves.liftM _).bind fun specifier => (leaves_reserve _).bind fun binding => ?_
  split
  · exact (leaves_reserve _).bind fun _ => .pure _
  · exact .pure _

theorem leaves_markers (kind : ProvideKind) (target name : String) :
    Leaves (picked pick) (markers kind target name) := by
  cases kind with
  | function | other => exact (Leaves.liftM _).bind fun _ => .pure _
  | object | array | literal => exact .pure _

theorem leaves_provide (name : String) (provided : Provide) :
    Leaves (picked pick) (provide name provided) := by
  unfold provide
  split
  · exact (leaves_reserve _).bind fun _ => (Leaves.liftM _).bind fun _ =>
      (Leaves.liftM _).bind fun _ => (Leaves.forM fun _ _ => leaves_changeTree _).bind fun _ =>
        (leaves_markers _ _ _).bind fun _ => (Leaves.liftM _).bind fun _ => .pure _
  · exact (leaves_replaceBases _ _).bind fun _ => (leaves_markers _ _ _).bind fun _ => .pure _

theorem leaves_provideAll : Leaves (picked pick) provideAll := by
  refine Leaves.get.bind fun draft => ?_
  dsimp only
  split
  · exact .pure _
  · exact (Leaves.mapM fun _ _ => leaves_provide _ _).bind fun _ => .pure _

section

variable (imports : ∀ path required names deferred,
  pick (.imported path required names deferred) = none)

include imports

theorem leaves_require (around : Surroundings) (path : String) (names : List String) :
    Leaves (picked pick) (require around path names) := by
  refine (leaves_nameImport _ _ _).bind fun required => (Leaves.liftM _).bind fun declaration =>
    Leaves.get.bind fun draft => (Leaves.forM fun _ _ => leaves_replaceBases _ _).bind fun _ =>
      Leaves.bind (.modify fun draft => ?_) fun _ => .pure _
  simp [picked, imports]

theorem leaves_requireAll (around : Surroundings) : Leaves (picked pick) (requireAll around) :=
  Leaves.get.bind fun _ => (Leaves.liftM _).bind fun _ =>
    .mapM fun _ _ => leaves_require imports _ _ _

theorem leaves_write (around : Surroundings) : Leaves (picked pick) (write around) :=
  (leaves_requireAll imports around).bind fun _ => leaves_provideAll.bind fun _ =>
    Leaves.get.bind fun _ => .pure _

end

end Draft

/-! ## Steps on a workspace -/

theorem TypeCheck.replace_events {settings : Settings} {script checked : Script}
    {events : List Event} (run : replace settings script = .ok (checked, events)) :
    ∀ event ∈ events, ∃ check : Check, event = .typeChecked script.path check.type check.native := by
  obtain ⟨pass, passed, run⟩ := bind_eq_ok_iff.mp run
  obtain ⟨helpers, -, run⟩ := bind_eq_ok_iff.mp run
  cases run
  suffices held : pass.script.path = script.path ∧
      ∀ event ∈ pass.events, ∃ check : Check,
        event = .typeChecked script.path check.type check.native from held.2
  refine foldlM_ok (fun pass : Pass => pass.script.path = script.path ∧
    ∀ event ∈ pass.events, ∃ check : Check,
      event = .typeChecked script.path check.type check.native) ?_ passed ⟨rfl, by simp⟩
  rintro before met after - ⟨path, known⟩ run
  have same : after.script.path = before.script.path := by rw [replaceAt_same run]
  refine ⟨same.trans path, ?_⟩
  rcases replaceAt_cases run with
    ⟨-, rfl⟩ | ⟨node, check, helper, between, value, here, found, named, made, rfl⟩
  · exact known
  · have quiet := helper_events before check.native
    have place : (before.helper check.native).2.script.path = before.script.path := by
      rw [helper_same]
    rw [named] at quiet place
    intro event member
    rcases List.mem_append.mp member with old | new
    · exact known event (quiet ▸ old)
    · rw [List.mem_singleton.mp new]
      exact ⟨check, by rw [place, path]⟩

namespace Work

open Workspace (picked)

theorem leaves_logged {α : Type} (task : Logged α) : Leaves (picked pick) (logged task) := by
  apply Leaves.onPart
  intro log workspace
  rfl

theorem leaves_note (level : Level) (message : String) : Leaves (picked pick) (note level message) :=
  leaves_logged _

theorem leaves_record {event : Event} (quiet : pick event = none) :
    Leaves (picked pick) (record event) := by
  apply Leaves.modify
  intro workspace
  simp [picked, quiet]

theorem picked_records {events : List Event} {before after : Workspace}
    (ends : Ends (events.forM record) before ⟨⟩ after) :
    after.picked pick = before.picked pick ++ events.filterMap pick := by
  refine Ends.forM_invariant (fun done (after : Workspace) =>
    after.picked pick = before.picked pick ++ done.filterMap pick) ?_ ends (by simp)
  intro done event todo between after parts same ends
  rw [record, Ends.modify_iff] at ends
  subst ends
  rw [picked, Trace.picked_record, ← picked, same, List.filterMap_append, List.append_assoc]
  cases known : pick event <;> simp [known]

theorem leaves_records {events : List Event} (quiet : ∀ event ∈ events, pick event = none) :
    Leaves (picked pick) (events.forM record) := by
  intro before value after ends
  rw [picked_records ends, List.filterMap_eq_nil_iff.mpr quiet, List.append_nil]

theorem leaves_scriptAt (path : String) : Leaves (picked pick) (scriptAt path) := by
  refine Leaves.get.bind fun workspace => ?_
  split
  · exact .pure _
  · exact .throw _

theorem leaves_mergeChunks : Leaves (picked pick) mergeChunks := by
  intro before value after ends
  rcases Conversion.mergeChunks_cases before with
    ⟨_, _, -, -, -, -, merged⟩ | ⟨-, _, merged⟩
  · rw [(merged.unique ends).2]
    rfl
  · rw [(merged.unique ends).2]
    rfl

theorem leaves_checkIntegrity : Leaves (picked pick) checkIntegrity := by
  intro before value after ends
  obtain ⟨-, rfl⟩ := ends_checkIntegrity_iff.mp ends
  rfl

theorem leaves_render (program : Tree.Node) (path : String) :
    Leaves (picked pick) (render program path) :=
  Leaves.get.bind fun _ => leaves_logged _

theorem leaves_onDraft {α : Type} {task : Draft.Drafting α} (quiet : Leaves (Draft.picked pick) task)
    (path : String) : Leaves (picked pick) (onDraft path task) := by
  intro before value after ends
  simp only [onDraft, Ends.bind_iff, ends_scriptAt] at ends
  obtain ⟨script, _, ⟨-, rfl⟩, ends⟩ := ends
  cases made : task.run.run { script } with
  | mk result draft =>
      rw [made] at ends
      simp only [Ends.bind_iff, Ends.modify_iff, Ends.liftM_iff] at ends
      obtain ⟨_, _, rfl, _, _, recorded, rfl, rfl⟩ := ends
      have none : draft.picked pick = [] := quiet _ _ _ made
      have same := leaves_records (List.filterMap_eq_nil_iff.mp none) _ _ _ recorded
      exact same

theorem leaves_writeModule (imports : ∀ path required names deferred,
    pick (.imported path required names deferred) = none) (path : String) :
    Leaves (picked pick) (writeModule path) := by
  refine Leaves.get.bind fun workspace =>
    (leaves_onDraft (Draft.leaves_write imports _) path).bind fun written =>
      (leaves_scriptAt path).bind fun script => Leaves.bind (.onPart ?_ _) fun _ => .pure _
  intro entry workspace
  rfl

theorem picked_replaceChecks {path : String} {count : Nat} {before after : Workspace}
    (ends : Ends (replaceChecks path) before count after) :
    ∃ read checked events, scriptAt? before.scripts path = some read ∧
      TypeCheck.replace before.settings read = .ok (checked, events) ∧
      after.picked pick = before.picked pick ++ events.filterMap pick := by
  obtain ⟨script, checked, events, found, replaced, recorded, -⟩ := ends_replaceChecks_iff.mp ends
  refine ⟨script, checked, events, found, replaced, ?_⟩
  have same : after.picked pick = _ := picked_records recorded
  exact same

section

variable (takeovers : ∀ name path previous, pick (.redefined name path previous) = none)

include takeovers

theorem leaves_register (path name : String) : Leaves (picked pick) (register path name) := by
  refine Leaves.get.bind fun workspace => ?_
  dsimp only
  refine (Leaves.modify (by intro _; rfl)).bind fun _ => ?_
  split
  · exact .pure _
  · exact (leaves_note _ _).bind fun _ => leaves_record (takeovers _ _ _)

theorem picked_analyze {path : String} {exclusion? : Option Exclusion} {before after : Workspace}
    (ends : Ends (analyze path) before exclusion? after) :
    ∃ read checked events, scriptAt? before.scripts path = some read ∧
      TypeCheck.replace before.settings read = .ok (checked, events) ∧
      after.picked pick = before.picked pick ++ events.filterMap pick := by
  obtain ⟨count, between, replaced, ends⟩ := (Ends.bind_iff _ _ _ _ _).mp ends
  obtain ⟨read, checked, events, found, replaced, picked⟩ := picked_replaceChecks replaced
  refine ⟨read, checked, events, found, replaced, Eq.trans ?_ picked⟩
  refine Leaves.bind .get (fun workspace => (leaves_scriptAt path).bind fun script =>
    (Leaves.liftM _).bind fun classified => ?_) _ _ _ ends
  dsimp only
  refine (Leaves.modify (by intro _; rfl)).bind fun _ => ?_
  split
  · exact (Leaves.modify (by intro _; rfl)).bind fun _ => .pure _
  · exact (Leaves.forM fun _ _ => leaves_register takeovers _ _).bind fun _ => .pure _

theorem leaves_analyze (checks : ∀ path type native, pick (.typeChecked path type native) = none)
    (path : String) : Leaves (picked pick) (analyze path) := by
  intro before exclusion? after ends
  obtain ⟨read, checked, events, -, replaced, picked⟩ := picked_analyze takeovers ends
  have quiet : ∀ event ∈ events, pick event = none := by
    intro event member
    obtain ⟨check, rfl⟩ := TypeCheck.replace_events replaced event member
    exact checks _ _ _
  rw [picked, List.filterMap_eq_nil_iff.mpr quiet, List.append_nil]

end

end Work

/-! ## Phases -/

namespace Conversion

open Workspace (picked)

theorem leaves_exclude (exclusions : ∀ path reason, pick (.excluded path reason) = none)
    (path reason : String) : Leaves (picked pick) (exclude path reason) :=
  (Work.leaves_note _ _).bind fun _ => (Work.leaves_record (exclusions _ _)).bind fun _ => .pure _

variable {before after : Workspace}
  (phases : ∀ name detail, pick (.phaseStart name detail) = none ∧ pick .phaseEnd = none)

include phases

theorem picked_phase {α : Type} {name detail : String} {task : Work α} {value : α}
    (ends : Ends (phase name detail task) before value after) :
    ∃ start last, start.core = before.core ∧ start.picked pick = before.picked pick ∧
      Ends task start value last ∧ after.core = last.core ∧
        after.picked pick = last.picked pick := by
  simp only [phase, Ends.bind_iff, Ends.modify_iff, Ends.pure_iff] at ends
  obtain ⟨_, start, started, _, last, ends, _, _, rfl, rfl, rfl⟩ := ends
  obtain ⟨opened, closed⟩ := phases name detail
  refine ⟨start, last, ?_, ?_, ends, rfl, Trace.picked_endPhase closed _⟩
  · rw [started]
    rfl
  · rw [started]
    exact Trace.picked_startPhase opened _

theorem picked_analysisPhase {files : List ExcludedFile}
    (ends : Ends analysisPhase before files after) :
    ∃ (start last : Workspace) (excluded : List (List ExcludedFile)), start.core = before.core ∧
      start.picked pick = before.picked pick ∧
        Ends (start.live.mapM analyzeFile) start excluded last ∧ files = excluded.flatten ∧
          after.core = last.core ∧ after.picked pick = last.picked pick := by
  obtain ⟨start, last, started, opened, ends, finished, closed⟩ := picked_phase phases ends
  simp only [Ends.bind_iff, Ends.get_iff, Ends.pure_iff] at ends
  obtain ⟨_, start, ⟨rfl, rfl⟩, excluded, _, analysed, _, between, ⟨rfl, rfl⟩, _, _, noted, rfl,
    rfl⟩ := ends
  exact ⟨start, between, excluded, started, opened, analysed, rfl,
    finished.trans (Work.core_note noted), closed.trans (Work.leaves_note _ _ _ _ _ noted)⟩

theorem leaves_phase {α : Type} {task : Work α} (quiet : Leaves (picked pick) task)
    (name detail : String) : Leaves (picked pick) (phase name detail task) := by
  intro before value after ends
  obtain ⟨start, last, -, started, ends, -, finished⟩ := picked_phase phases ends
  exact finished.trans ((quiet _ _ _ ends).trans started)

theorem leaves_mergePhase : Leaves (picked pick) mergePhase := by
  refine Leaves.get.bind fun workspace => ?_
  dsimp only
  refine leaves_phase phases (Work.leaves_mergeChunks.bind fun merged => ?_) _ _
  split
  · exact Work.leaves_note _ _
  · exact .pure _

theorem leaves_integrityPhase (exclusions : ∀ path reason, pick (.excluded path reason) = none) :
    Leaves (picked pick) integrityPhase :=
  leaves_phase phases (Work.leaves_checkIntegrity.bind fun _ => .mapM fun _ _ =>
    leaves_exclude exclusions _ _) _ _

theorem leaves_modulePhase (imports : ∀ path required names deferred,
    pick (.imported path required names deferred) = none) : Leaves (picked pick) modulePhase :=
  Leaves.get.bind fun _ => leaves_phase phases (.mapM fun path _ =>
    (Work.leaves_writeModule imports path).bind fun _ => (Work.leaves_render _ _).bind fun _ =>
      .pure _) _ _

theorem leaves_entryPhase (withGraph : Bool) : Leaves (picked pick) (entryPhase withGraph) := by
  refine Leaves.get.bind fun workspace => leaves_phase phases (Leaves.bind ?_ fun code => ?_) _ _
  · exact Leaves.get.bind fun _ => Work.leaves_render _ _
  · split
    · exact Leaves.bind (Leaves.get.bind fun _ => .liftM _) fun _ => .pure _
    · exact .pure _

omit phases in
/-- A conversion that ends, phase by phase. Behind the check of integrity only phases and imports are
recorded. -/
theorem Ran.stages {settings : Settings} (accepted : settings.Accepted) {sources : Ledger String}
    {withGraph : Bool} {log : List LogLine} {report : Report} {final : Workspace}
    (ran : Ran settings sources withGraph log report final) :
    ∃ corpus log' merged unclassified analysed dangling first,
      Ends (Corpus.ingest settings sources) log corpus log' ∧
      Ends mergePhase
        { Workspace.ofCorpus settings corpus with
          trace := readingTrace sources.length, log := log' } ⟨⟩ merged ∧
      Ends analysisPhase merged unclassified analysed ∧
      Ends integrityPhase analysed dangling first ∧
      Writing settings sources first first.live (report.modules.map Prod.fst) final ∧
      report.excluded = unclassified ++ dangling ∧
      report.warnings = unclassified.map ExcludedFile.warning ++
        analysed.index.redefinitions.map Redefinition.warning ++ dangling.map ExcludedFile.warning ∧
      report.trace = final.trace ∧
      ∀ {γ : Type} {pick : Event → Option γ},
        (∀ name detail, pick (.phaseStart name detail) = none ∧ pick .phaseEnd = none) →
        (∀ path required names deferred, pick (.imported path required names deferred) = none) →
        final.picked pick = first.picked pick := by
  obtain ⟨corpus, log', ingesting, converting⟩ := ran
  simp only [convert, Ends.bind_iff, Ends.get_iff, Ends.pure_iff] at converting
  obtain ⟨_, merged, merging, unclassified, _, analysing, _, analysed, ⟨rfl, rfl⟩, dangling, first,
    checking, modules, _, writing, ⟨code, graph⟩, _, emitting, _, final, ⟨rfl, rfl⟩, rfl, rfl⟩ :=
      converting
  have passed : Passed settings sources first :=
    ⟨log, corpus, log', _, _, _, _, ingesting, merging, analysing, checking⟩
  obtain ⟨start, last, began, written, finished⟩ := ends_modulePhase writing
  have written := (writing_writeFiles passed.linked accepted began (List.prefix_refl _) written).of_core
    ((ends_entryPhase emitting).2.trans finished)
  refine ⟨corpus, log', merged, unclassified, analysed, dangling, first, ingesting, merging, analysing,
    checking, written, rfl, rfl, rfl, fun phases imports => ?_⟩
  rw [leaves_entryPhase phases withGraph _ _ _ emitting,
    leaves_modulePhase phases imports _ _ _ writing]

end Conversion

end ScriptModules
