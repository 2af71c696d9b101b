import ScriptModules.Proofs.Conversion.Trace

namespace ScriptModules

open ScriptModules.Tree
open Dependency (scriptAt? requiredFiles Graph)

/-! ## Imports and their events -/

def Import.event (source : String) (required : Import) : Event :=
  .imported source required.path required.names required.isDeferred

def Module.importEvents (written : Module) : List Event :=
  written.imports.map fun required => required.1.event written.path

def Module.required (written : Module) : Ledger (List String) :=
  written.imports.map fun required => (required.1.path, required.1.names)

def Event.import? : Event → Option Event
  | .imported path required names deferred => some (.imported path required names deferred)
  | _ => none

theorem Trace.eventsOf_imported (trace : Trace) :
    (trace.eventsOf "import_action").map TraceEntry.event = trace.picked Event.import? := by
  unfold eventsOf picked
  induction trace.entries with
  | nil => rfl
  | cons entry entries ih =>
      obtain ⟨event, parent⟩ := entry
      cases event <;> simpa [Event.kind, Event.import?] using ih

namespace Draft

variable {around : Surroundings} {before after : Draft}

theorem ends_require_event {path : String} {names : List String} {written : Import × Node}
    (ends : Ends (require around path names) before written after) :
    (written.1.path, written.1.names) = (path, names) ∧
      after.script.path = before.script.path ∧
      after.events = before.events ++ [written.1.event before.script.path] := by
  simp only [require, statement, Ends.bind_iff, Ends.get_iff, Ends.liftM_iff, Ends.modify_iff,
    Ends.pure_iff] at ends
  obtain ⟨required, _, naming, declaration, _, ⟨-, rfl⟩, _, named, ⟨rfl, rfl⟩, _, redirected,
    redirect, _, _, rfl, rfl, rfl⟩ := ends
  obtain ⟨rfl, rfl, -, -, -, -, drafted⟩ := ends_nameImport naming
  have quiet : Leaves (fun draft : Draft => (draft.script.path, draft.events))
      (required.names.forM fun name =>
        replaceBases (sitesOf named.script name) required.reference) := by
    refine .forM fun name _ before _ after ends => ?_
    obtain ⟨base, -, rfl⟩ := ends_replaceBases.mp ends
    rfl
  obtain ⟨place, events⟩ := Prod.mk.inj (quiet _ _ _ redirect)
  have same : named.script.path = before.script.path := by rw [drafted]
  refine ⟨rfl, place.trans same, ?_⟩
  change redirected.events ++ [.imported named.script.path _ _ _] = _
  rw [events, same, drafted]
  rfl

theorem ends_requireAll_events {imports : List (Import × Node)}
    (ends : Ends (requireAll around) before imports after) :
    requiredFiles around.index before.script =
        .ok (imports.map fun required => (required.1.path, required.1.names)) ∧
      after.script.path = before.script.path ∧
      after.events = before.events ++
        imports.map fun required => required.1.event before.script.path := by
  simp only [requireAll, Ends.bind_iff, Ends.get_iff, Ends.liftM_iff] at ends
  obtain ⟨_, _, ⟨rfl, rfl⟩, files, before, ⟨run, rfl⟩, ends⟩ := ends
  suffices held : (imports.map fun required => (required.1.path, required.1.names)) = files ∧ _ from
    ⟨held.1 ▸ run, held.2⟩
  refine Ends.mapM_invariant (fun done (imports : List (Import × Node)) after =>
    (imports.map fun required => (required.1.path, required.1.names)) = done ∧
      after.script.path = before.script.path ∧
      after.events = before.events ++
        imports.map fun required => required.1.event before.script.path) ?_ ends
    ⟨rfl, rfl, (List.append_nil _).symm⟩
  rintro done ⟨path, names⟩ todo imports between written after - ⟨files, place, events⟩ ends
  obtain ⟨entry, place', event⟩ := ends_require_event ends
  refine ⟨by rw [List.map_append, files, List.map_singleton, entry], place'.trans place, ?_⟩
  rw [event, events, place, List.map_append, List.append_assoc]
  rfl

theorem ends_write_events {start : Script} {written : Module} (path : written.path = start.path)
    (ends : Ends (write around) { script := start } written after) :
    requiredFiles around.index start = .ok written.required ∧
      after.picked Event.import? = written.importEvents := by
  simp only [write, Ends.bind_iff, Ends.get_iff, Ends.pure_iff] at ends
  obtain ⟨imports, between, importing, exports, last, exporting, _, _, ⟨rfl, rfl⟩, rfl, rfl⟩ := ends
  obtain ⟨files, -, events⟩ := ends_requireAll_events importing
  refine ⟨files, ?_⟩
  have quiet : after.picked Event.import? = between.picked Event.import? :=
    leaves_provideAll _ _ _ exporting
  rw [quiet, picked, events, Module.importEvents, path, List.nil_append, List.filterMap_map]
  exact List.filterMap_eq_map ▸ rfl

end Draft

namespace Work

open Workspace (picked)

variable {γ : Type} {pick : Event → Option γ}

theorem picked_onDraft {α : Type} {path : String} {task : Draft.Drafting α} {value : α}
    {before after : Workspace} (ends : Ends (onDraft path task) before value after) :
    ∃ script draft, scriptAt? before.scripts path = some script ∧
      Ends task { script } value draft ∧
        after.picked pick = before.picked pick ++ draft.picked pick := by
  simp only [onDraft, Ends.bind_iff, ends_scriptAt] at ends
  obtain ⟨script, _, ⟨found, rfl⟩, ends⟩ := ends
  cases made : task.run.run { script } with
  | mk result draft =>
      rw [made] at ends
      simp only [Ends.bind_iff, Ends.modify_iff, Ends.liftM_iff] at ends
      obtain ⟨_, _, rfl, _, _, recorded, rfl, rfl⟩ := ends
      have added : after.picked pick = _ := picked_records recorded
      exact ⟨script, draft, found, made, added⟩

theorem picked_writeModule {path : String} {written : Module} {before after : Workspace}
    (ends : Ends (writeModule path) before written after) :
    ∃ script draft, scriptAt? before.scripts path = some script ∧
      Ends (Draft.write before.surroundings) { script } written draft ∧
        after.picked pick = before.picked pick ++ draft.picked pick := by
  simp only [writeModule, Ends.bind_iff, Ends.get_iff] at ends
  obtain ⟨_, before, ⟨rfl, rfl⟩, _, between, drafted, ends⟩ := ends
  obtain ⟨script, draft, found, made, added⟩ := picked_onDraft drafted
  simp only [ends_scriptAt, Ends.onPart_iff, Ends.pure_iff] at ends
  obtain ⟨provider, between, ⟨-, rfl⟩, _, _, ⟨entry, -, rfl⟩, rfl, rfl⟩ := ends
  exact ⟨script, draft, found, made, added⟩

end Work

namespace Conversion

open Workspace (picked)

variable {settings : Settings} {sources : Ledger String} {before after : Workspace}

theorem import?_phase (name detail : String) :
    (Event.phaseStart name detail).import? = none ∧ Event.phaseEnd.import? = none :=
  ⟨rfl, rfl⟩

/-- The modules of some files are written, and their imports are recorded. -/
structure Recorded (first start : Workspace) (modules : List Module) (workspace : Workspace) :
    Prop where
  required : ∀ written ∈ modules, ∃ script, scriptAt? first.scripts written.path = some script ∧
    requiredFiles first.index script = .ok written.required
  events : workspace.picked Event.import? =
    start.picked Event.import? ++ modules.flatMap Module.importEvents

theorem recorded_writeFiles (linked : before.surroundings.Linked settings sources)
    (accepted : settings.Accepted) {start : Workspace} (same : start.core = before.core)
    {done : List String} (ahead : done <+: before.live) {modules : List (Module × String)}
    (ends : Ends (done.mapM writeFile) start modules after) :
    Recorded before start (modules.map Prod.fst) after := by
  suffices held : Writing settings sources before done (modules.map Prod.fst) after ∧
      Recorded before start (modules.map Prod.fst) after from held.2
  refine Ends.mapM_invariant (fun done modules (workspace : Workspace) =>
    Writing settings sources before done (modules.map Prod.fst) workspace ∧
      Recorded before start (modules.map Prod.fst) workspace) ?_ ends
    ⟨.start same, by simp, (List.append_nil _).symm⟩
  rintro behind path todo modules between ⟨written, code⟩ after parts ⟨writing, recorded⟩ ends
  have fresh := not_mem_behind (linked.live.sublist ahead.sublist) parts
  have live : path ∈ before.live := ahead.subset (by simp [parts])
  have writing' := writing.write linked accepted fresh live ends
  rw [List.map_append]
  refine ⟨writing', ?_⟩
  simp only [writeFile, Ends.bind_iff, Ends.pure_iff] at ends
  obtain ⟨_, middle, made, _, _, rendered, same', rfl⟩ := ends
  cases same'
  obtain ⟨script, draft, found, wrote, added⟩ := Work.picked_writeModule made
  have here := (writing.rest path fresh).symm.trans found
  obtain ⟨-, rfl⟩ := Dependency.path_of_scriptAt? found
  have path : written.path = script.path := by
    have paths := writing'.paths
    rw [List.map_append, writing.paths] at paths
    simpa using paths
  obtain ⟨required, events⟩ := Draft.ends_write_events path wrote
  refine ⟨fun one member => ?_, ?_⟩
  · rcases List.mem_append.mp member with old | new
    · exact recorded.required one old
    · rw [List.mem_singleton.mp new]
      have index : between.index = before.index := writing.alike.index
      exact ⟨script, path ▸ here, index ▸ required⟩
  · rw [Work.leaves_render _ _ _ _ _ rendered, added, events, recorded.events,
      List.flatMap_append, List.append_assoc]
    simp

theorem leaves_analysisPhase {γ : Type} {pick : Event → Option γ}
    (phases : ∀ name detail, pick (.phaseStart name detail) = none ∧ pick .phaseEnd = none)
    (takeovers : ∀ name path previous, pick (.redefined name path previous) = none)
    (checks : ∀ path type native, pick (.typeChecked path type native) = none)
    (exclusions : ∀ path reason, pick (.excluded path reason) = none) :
    Leaves (picked pick) analysisPhase := by
  refine leaves_phase phases (Leaves.get.bind fun workspace =>
    (Leaves.mapM fun path _ =>
      (Work.leaves_analyze takeovers checks path).bind fun exclusion? => ?_).bind
      fun excluded => Leaves.get.bind fun _ => (Work.leaves_note _ _).bind fun _ => .pure _) _ _
  split
  · exact (leaves_exclude exclusions _ _).bind fun _ => .pure _
  · exact .pure _

theorem Passed.picked_import? (passed : Passed settings sources after) :
    after.picked Event.import? = [] := by
  obtain ⟨log, corpus, log', merged, unclassified, analysed, dangling, -, merging, analysing,
    checking⟩ := passed
  rw [leaves_integrityPhase import?_phase (fun _ _ => rfl) _ _ _ checking,
    leaves_analysisPhase import?_phase (fun _ _ _ => rfl) (fun _ _ _ => rfl) (fun _ _ => rfl) _ _ _
      analysing,
    leaves_mergePhase import?_phase _ _ _ merging]
  rfl

theorem ends_entryPhase_graph {code : String} {graph : Option Graph}
    (ends : Ends (entryPhase true) before (code, graph) after) :
    ∃ built, graph = some built ∧ Graph.build after.index after.liveScripts = .ok built := by
  have same := (ends_entryPhase ends).2
  simp only [entryPhase, Ends.bind_iff, Ends.get_iff] at ends
  obtain ⟨_, before, ⟨rfl, rfl⟩, ends⟩ := ends
  obtain ⟨start, last, started, ends, finished⟩ := ends_phase ends
  simp only [Work.graph, Ends.bind_iff, Ends.get_iff, Ends.liftM_iff, Ends.pure_iff, if_true] at ends
  obtain ⟨_, between, -, built, last, ⟨_, between, ⟨rfl, rfl⟩, run, rfl⟩, given, rfl⟩ := ends
  cases given
  refine ⟨built, rfl, ?_⟩
  have scripts : after.liveScripts = last.liveScripts :=
    show after.core.liveScripts = last.core.liveScripts from congrArg _ finished
  rw [Workspace.index_eq finished, scripts]
  exact run

theorem Ran.recorded (accepted : settings.Accepted) {log : List LogLine} {report : Report}
    {final : Workspace} (ran : Ran settings sources true log report final) :
    (∃ graph, report.graph = some graph ∧
      Graph.build final.index final.liveScripts = .ok graph) ∧
    report.trace.picked Event.import? =
      (report.modules.map Prod.fst).flatMap Module.importEvents ∧
    ∀ written ∈ report.modules.map Prod.fst, ∃ script,
      scriptAt? final.scripts written.path = some script ∧
        requiredFiles final.index script = .ok written.required := by
  obtain ⟨corpus, log', ingesting, converting⟩ := ran
  simp only [convert, Ends.bind_iff, Ends.get_iff, Ends.pure_iff] at converting
  obtain ⟨_, merged, merging, unclassified, _, analysing, _, analysed, ⟨rfl, rfl⟩, dangling, first,
    checking, modules, between, writing, ⟨code, graph⟩, _, emitting, _, final, ⟨rfl, rfl⟩, rfl, rfl⟩ :=
      converting
  have passed : Passed settings sources first :=
    ⟨log, corpus, log', _, _, _, _, ingesting, merging, analysing, checking⟩
  have quiet := leaves_entryPhase import?_phase true _ _ _ emitting
  obtain ⟨start, last, began, opened, written, finished, closed⟩ : ∃ start last,
      start.core = first.core ∧ start.picked Event.import? = first.picked Event.import? ∧
        Ends (first.live.mapM writeFile) start modules last ∧ between.core = last.core ∧
          between.picked Event.import? = last.picked Event.import? := by
    simp only [modulePhase, Ends.bind_iff, Ends.get_iff] at writing
    obtain ⟨_, first, ⟨rfl, rfl⟩, writing⟩ := writing
    exact picked_phase import?_phase writing
  obtain ⟨required, events⟩ :=
    recorded_writeFiles passed.linked accepted began (List.prefix_refl _) written
  have alike := ((writing_writeFiles passed.linked accepted began (List.prefix_refl _) written).of_core
    ((ends_entryPhase emitting).2.trans finished)).alike
  refine ⟨ends_entryPhase_graph emitting, ?_, fun one member => ?_⟩
  · rw [opened, passed.picked_import?, List.nil_append] at events
    exact (quiet.trans closed).trans events
  · obtain ⟨script, found, run⟩ := required one member
    obtain ⟨script', found', outline⟩ := alike.scriptAt?_eq_some found
    refine ⟨script', found', ?_⟩
    have requires : script'.outline.requires = script.outline.requires := congrArg _ outline
    have path : script'.outline.path = script.outline.path := congrArg _ outline
    have index : final.index = first.index := alike.index
    unfold requiredFiles at run ⊢
    rwa [show script'.requires = script.requires from requires,
      show script'.path = script.path from path, index]

end Conversion

end ScriptModules
