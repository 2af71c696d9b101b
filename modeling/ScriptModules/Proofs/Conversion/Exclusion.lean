import ScriptModules.Proofs.Conversion.Trace

namespace ScriptModules

open Dependency (scriptAt? requiredNames)

def Event.exclusion? : Event → Option ExcludedFile
  | .excluded path reason => some { path, reason }
  | _ => none

theorem Trace.eventsOf_excluded (trace : Trace) :
    (trace.eventsOf "file_excluded").map TraceEntry.event =
      (trace.picked Event.exclusion?).map fun file => .excluded file.path file.reason := by
  unfold eventsOf picked
  induction trace.entries with
  | nil => rfl
  | cons entry entries ih =>
      obtain ⟨event, parent⟩ := entry
      cases event <;> simpa [Event.kind, Event.exclusion?] using ih

theorem ExcludedFile.startsWith_warning (file : ExcludedFile) :
    Text.startsWith file.warning "IGNORED " = true := by
  unfold Text.startsWith warning
  simp only [String.toList_append, List.append_assoc]
  exact List.isPrefixOf_iff_prefix.mpr (List.prefix_append _ _)

theorem Redefinition.startsWith_warning (redefinition : Redefinition) :
    Text.startsWith redefinition.warning "IGNORED " = false := by
  unfold Text.startsWith warning
  simp only [String.toList_append, List.append_assoc]
  apply eq_false_of_ne_true
  intro starts
  obtain ⟨rest, same⟩ := List.isPrefixOf_iff_prefix.mp starts
  have first := congrArg List.head? same
  rw [List.head?_append, List.head?_append, show "IGNORED ".toList.head? = some 'I' by decide,
    show "REDEFINITION of ".toList.head? = some 'R' by decide] at first
  cases first

namespace Conversion

variable {first between last before after : Workspace} {files more : List ExcludedFile}

structure Excludes (first : Workspace) (files : List ExcludedFile) (last : Workspace) : Prop where
  recorded : last.picked Event.exclusion? = first.picked Event.exclusion? ++ files
  distinct : (files.map ExcludedFile.path).Nodup
  known : ∀ file ∈ files, file.path ∈ first.live
  live : ∀ path, path ∈ last.live ↔ path ∈ first.live ∧ path ∉ files.map ExcludedFile.path
  order : last.live.Sublist first.live

theorem Excludes.of_quiet (quiet : last.picked Event.exclusion? = first.picked Event.exclusion?)
    (live : last.live = first.live) : Excludes first [] last where
  recorded := quiet.trans (List.append_nil _).symm
  distinct := List.nodup_nil
  known := by simp
  live := by simp [live]
  order := live ▸ .refl _

theorem Excludes.trans (excludes : Excludes first files between)
    (excludes' : Excludes between more last) : Excludes first (files ++ more) last where
  recorded := by rw [excludes'.recorded, excludes.recorded, List.append_assoc]
  distinct := by
    rw [List.map_append, List.nodup_append]
    refine ⟨excludes.distinct, excludes'.distinct, ?_⟩
    rintro path early _ late rfl
    obtain ⟨file, member, rfl⟩ := List.mem_map.mp late
    exact ((excludes.live _).mp (excludes'.known file member)).2 early
  known := fun file member => by
    rcases List.mem_append.mp member with early | late
    · exact excludes.known file early
    · exact ((excludes.live _).mp (excludes'.known file late)).1
  live := fun path => by
    rw [excludes'.live, excludes.live, List.map_append, List.mem_append, not_or, and_assoc]
  order := excludes'.order.trans excludes.order

theorem Excludes.perm (excludes : Excludes first files last) (distinct : first.live.Nodup) :
    (last.live ++ files.map ExcludedFile.path).Perm first.live := by
  have apart : (last.live ++ files.map ExcludedFile.path).Nodup := by
    rw [List.nodup_append]
    refine ⟨distinct.sublist excludes.order, excludes.distinct, ?_⟩
    rintro path left _ out rfl
    exact ((excludes.live path).mp left).2 out
  refine (List.perm_ext_iff_of_nodup apart distinct).mpr fun path => ?_
  rw [List.mem_append, excludes.live]
  constructor
  · rintro (⟨known, -⟩ | out)
    · exact known
    · obtain ⟨file, member, rfl⟩ := List.mem_map.mp out
      exact excludes.known file member
  · intro known
    by_cases out : path ∈ files.map ExcludedFile.path
    · exact .inr out
    · exact .inl ⟨known, out⟩

/-! ## Phases -/

theorem picked_exclude {path reason : String} {file : ExcludedFile}
    (ends : Ends (exclude path reason) before file after) :
    after.picked Event.exclusion? = before.picked Event.exclusion? ++ [⟨path, reason⟩] := by
  simp only [exclude, Ends.bind_iff, Work.record, Ends.modify_iff, Ends.pure_iff] at ends
  obtain ⟨_, between, noted, _, _, rfl, rfl, rfl⟩ := ends
  have quiet : between.trace.picked Event.exclusion? = before.picked Event.exclusion? :=
    Work.leaves_note _ _ _ _ _ noted
  refine (Trace.picked_record _ _).trans ?_
  rw [quiet]
  rfl

theorem live_mergePhase (ends : Ends mergePhase before ⟨⟩ after) : after.live = before.live := by
  obtain ⟨start, last, count, started, merged, finished⟩ := mergePhase_core ends
  rw [Workspace.live_eq finished, ← Workspace.live_eq started]
  rcases ends_mergeChunks merged with unchanged | ⟨script, -, tree, -, changed⟩
  · exact Workspace.live_eq unchanged
  · exact (Workspace.live_eq changed).trans rfl

theorem excludes_analyzeFile {path : String} (live : path ∈ before.live)
    (ends : Ends (analyzeFile path) before files after) : Excludes before files after ∧
      ∀ file ∈ files, file.path = path ∧ ∃ exclusion : Exclusion, file.reason = exclusion.reason := by
  obtain ⟨exclusion?, between, analysed, ends⟩ := (Ends.bind_iff _ _ _ _ _).mp ends
  have quiet : between.picked Event.exclusion? = before.picked Event.exclusion? :=
    Work.leaves_analyze (fun _ _ _ => rfl) (fun _ _ _ => rfl) path _ _ _ analysed
  obtain ⟨read, result, -, -, rfl, settled⟩ := Work.ends_analyze analysed
  cases exclusion? with
  | none =>
      obtain ⟨rfl, rfl⟩ := (Ends.pure_iff _ _ _ _).mp ends
      exact ⟨.of_quiet quiet ((Workspace.live_eq settled).trans rfl), by simp⟩
  | some exclusion =>
      simp only [Ends.bind_iff, Ends.pure_iff] at ends
      obtain ⟨file, _, excluded, rfl, rfl⟩ := ends
      obtain ⟨rfl, same⟩ := ends_exclude excluded
      have left : after.live = before.live.filter (· != result.path) :=
        (Workspace.live_eq (same.trans settled)).trans rfl
      refine ⟨⟨by rw [picked_exclude excluded, quiet], List.nodup_singleton _, ?_, ?_, ?_⟩, ?_⟩
      · simpa using live
      · simp [left]
      · rw [left]
        exact List.filter_sublist
      · simp

theorem exclusion?_phase (name detail : String) :
    (Event.phaseStart name detail).exclusion? = none ∧ Event.phaseEnd.exclusion? = none :=
  ⟨rfl, rfl⟩

theorem excludes_analysisPhase (distinct : before.live.Nodup)
    (ends : Ends analysisPhase before files after) : Excludes before files after ∧
      ∀ file ∈ files, ∃ exclusion : Exclusion, file.reason = exclusion.reason := by
  obtain ⟨start, between, excluded, started, opened, analysed, rfl, finished, quiet⟩ :=
    picked_analysisPhase exclusion?_phase ends
  have started : start.live = before.live := Workspace.live_eq started
  -- a file is live when its turn comes, since only files behind it were excluded
  have held : Excludes start excluded.flatten between ∧
      ∀ file ∈ excluded.flatten, file.path ∈ start.live ∧
        ∃ exclusion : Exclusion, file.reason = exclusion.reason := by
    refine Ends.mapM_invariant (fun done excluded workspace =>
      Excludes start excluded.flatten workspace ∧ ∀ file ∈ excluded.flatten, file.path ∈ done ∧
        ∃ exclusion : Exclusion, file.reason = exclusion.reason) ?_ analysed
      ⟨.of_quiet rfl rfl, by simp⟩
    rintro done path todo excluded workspace files next parts ⟨excludes, behind⟩ ends
    have fresh : path ∉ done := not_mem_behind (started ▸ distinct) parts
    have live : path ∈ workspace.live := by
      refine (excludes.live path).mpr ⟨by simp [parts], fun again => ?_⟩
      obtain ⟨file, member, rfl⟩ := List.mem_map.mp again
      exact fresh (behind file member).1
    obtain ⟨excludes', new⟩ := excludes_analyzeFile live ends
    rw [List.flatten_append, List.flatten_singleton]
    refine ⟨excludes.trans excludes', fun file member => ?_⟩
    rcases List.mem_append.mp member with old | last
    · exact ⟨List.mem_append_left _ (behind file old).1, (behind file old).2⟩
    · exact ⟨by simp [(new file last).1], (new file last).2⟩
  obtain ⟨excludes, behind⟩ := held
  have opening : Excludes before [] start := .of_quiet opened started
  have closing : Excludes between [] after := .of_quiet quiet (Workspace.live_eq finished)
  have whole := (opening.trans excludes).trans closing
  rw [List.nil_append, List.append_nil] at whole
  exact ⟨whole, fun file member => (behind file member).2⟩

theorem excludeAll {dropped : List (String × String)}
    (ends : Ends (dropped.mapM fun file => exclude file.1 ("missing " ++ file.2 ++ " definition"))
      before files after) :
    files = (dropped.map fun file => ⟨file.1, "missing " ++ file.2 ++ " definition"⟩) ∧
      after.picked Event.exclusion? = before.picked Event.exclusion? ++ files := by
  refine Ends.mapM_invariant (fun done files (workspace : Workspace) =>
    files = (done.map fun file => ⟨file.1, "missing " ++ file.2 ++ " definition"⟩) ∧
      workspace.picked Event.exclusion? = before.picked Event.exclusion? ++ files) ?_ ends
    ⟨rfl, (List.append_nil _).symm⟩
  rintro done dropped todo files workspace file next - ⟨rfl, recorded⟩ ends
  obtain ⟨rfl, -⟩ := ends_exclude ends
  refine ⟨by simp, ?_⟩
  rw [picked_exclude ends, recorded, List.append_assoc]

theorem excludes_integrityPhase (distinct : before.live.Nodup)
    (ends : Ends integrityPhase before files after) : Excludes before files after ∧
      after.scripts = before.scripts ∧
      ∀ file ∈ files, ∃ name ∈ requiredNames before.scripts file.path,
        file.reason = "missing " ++ name ++ " definition" := by
  obtain ⟨start, last, started, opened, ends, finished, closed⟩ :=
    picked_phase exclusion?_phase ends
  obtain ⟨dropped, between, checked, excluded⟩ := (Ends.bind_iff _ _ _ _ _).mp ends
  have quiet : between.picked Event.exclusion? = start.picked Event.exclusion? :=
    Work.leaves_checkIntegrity _ _ _ checked
  have same := core_excludeAll excluded
  obtain ⟨rfl, recorded⟩ := excludeAll excluded
  obtain ⟨rfl, rfl⟩ := Work.ends_checkIntegrity_iff.mp checked
  have began : start.live = before.live := Workspace.live_eq started
  have scripts : start.scripts = before.scripts := Workspace.scripts_eq started
  have accounts : Dependency.Survey.Accounts (requiredNames start.scripts) start.live start.index
      start.survey.dropped start.survey :=
    Dependency.checkIntegrity_accounts_dropped _ _ (began ▸ distinct)
  generalize start.survey = survey at *
  have left : after.live = survey.live := (Workspace.live_eq (finished.trans same)).trans rfl
  have rest : survey.live =
      start.live.filter fun path => !(survey.dropped.map Prod.fst).contains path :=
    congrArg Dependency.Survey.live accounts.rest
  have paths : (survey.dropped.map fun file =>
      (⟨file.1, "missing " ++ file.2 ++ " definition"⟩ : ExcludedFile)).map ExcludedFile.path =
        survey.dropped.map Prod.fst := by
    rw [List.map_map]
    rfl
  refine ⟨⟨?_, ?_, ?_, ?_, ?_⟩, (Workspace.scripts_eq (finished.trans same)).trans scripts, ?_⟩
  · rw [closed, recorded, quiet, opened]
  · rw [paths]
    exact accounts.distinct
  · intro file member
    rw [← began]
    refine accounts.started file.path ?_
    rw [← paths]
    exact List.mem_map_of_mem member
  · intro path
    rw [left, rest, paths, ← began]
    simp
  · rw [left, rest, ← began]
    exact List.filter_sublist
  · intro file member
    obtain ⟨⟨path, name⟩, dropped, rfl⟩ := List.mem_map.mp member
    obtain ⟨early, late, parts⟩ := List.append_of_mem dropped
    have missing := accounts.missing early path name late parts
    rw [scripts] at missing
    exact ⟨name, List.mem_of_find?_eq_some missing, rfl⟩

/-! ## Runs -/

/-- What a report says about the files of a corpus, given the scripts at the end. -/
structure Accounted (corpus : Corpus) (report : Report) (scripts : List Script) : Prop where
  files : (report.outputs.names ++ report.excluded.map ExcludedFile.path).Perm
    (corpus.scripts.map Script.path)
  distinct : (report.outputs.names ++ report.excluded.map ExcludedFile.path).Nodup
  ascending : report.outputs.names.Pairwise (· < ·)
  events : (report.trace.eventsOf "file_excluded").map TraceEntry.event =
    report.excluded.map fun file => .excluded file.path file.reason
  warnings : (report.warnings.filter fun warning => Text.startsWith warning "IGNORED ") =
    report.excluded.map ExcludedFile.warning
  reasons : ∀ file ∈ report.excluded,
    (∃ exclusion : Exclusion, file.reason = exclusion.reason) ∨
      ∃ name ∈ requiredNames scripts file.path, file.reason = "missing " ++ name ++ " definition"

theorem ignored_warnings (unclassified dangling : List ExcludedFile)
    (redefinitions : List Redefinition) :
    ((unclassified.map ExcludedFile.warning ++ redefinitions.map Redefinition.warning ++
      dangling.map ExcludedFile.warning).filter fun warning =>
        Text.startsWith warning "IGNORED ") =
      (unclassified ++ dangling).map ExcludedFile.warning := by
  have all (files : List ExcludedFile) : (files.map ExcludedFile.warning).filter
      (fun warning => Text.startsWith warning "IGNORED ") = files.map ExcludedFile.warning := by
    rw [List.filter_eq_self, List.forall_mem_map]
    exact fun file _ => file.startsWith_warning
  have none : (redefinitions.map Redefinition.warning).filter
      (fun warning => Text.startsWith warning "IGNORED ") = [] := by
    rw [List.filter_eq_nil_iff, List.forall_mem_map]
    intro redefinition _
    rw [redefinition.startsWith_warning]
    exact Bool.false_ne_true
  rw [List.filter_append, List.filter_append, all, all, none, List.append_nil, List.map_append]

/-- No file is lost or reported twice. -/
theorem files_accounted {settings : Settings} (accepted : settings.Accepted)
    {sources : Ledger String} {withGraph : Bool} {log : List LogLine} {report : Report}
    {final : Workspace} (ran : Ran settings sources withGraph log report final) :
    ∃ corpus log', Ends (Corpus.ingest settings sources) log corpus log' ∧
      Accounted corpus report final.scripts := by
  obtain ⟨corpus, log', merged, unclassified, analysed, dangling, first, ingesting, merging, analysing,
    checking, written, excluded, warnings, traced, quiet⟩ := ran.stages accepted
  refine ⟨corpus, log', ingesting, ?_⟩
  have ascending := Corpus.ingest_ascending ingesting
  have distinct : (corpus.scripts.map Script.path).Nodup := (Corpus.ends_ingest ingesting).1
  have started : merged.live = corpus.scripts.map Script.path := live_mergePhase merging
  rw [← started] at ascending distinct
  obtain ⟨early, unclear⟩ := excludes_analysisPhase distinct analysing
  obtain ⟨late, kept, missing⟩ := excludes_integrityPhase (distinct.sublist early.order) checking
  have excludes := early.trans late
  have outputs : report.outputs.names = first.live := (names_outputs report).trans written.paths
  have recorded : final.picked Event.exclusion? = unclassified ++ dangling := by
    rw [quiet (fun _ _ => ⟨rfl, rfl⟩) (fun _ _ _ _ => rfl), excludes.recorded,
      leaves_mergePhase (fun _ _ => ⟨rfl, rfl⟩) _ _ _ merging]
    rfl
  refine ⟨?_, ?_, ?_, ?_, ?_, ?_⟩
  · rw [outputs, excluded, ← started]
    exact excludes.perm distinct
  · rw [outputs, excluded]
    exact (excludes.perm distinct).nodup_iff.mpr distinct
  · rw [outputs]
    exact ascending.sublist excludes.order
  · rw [Trace.eventsOf_excluded, excluded, traced]
    exact congrArg _ recorded
  · rw [warnings, excluded]
    exact ignored_warnings _ _ _
  · intro file member
    rw [excluded] at member
    rcases List.mem_append.mp member with analysed | dropped
    · exact .inl (unclear file analysed)
    · have same : requiredNames final.scripts file.path = requiredNames first.scripts file.path :=
        written.alike.requiredNames file.path
      rw [same, kept]
      exact .inr (missing file dropped)

def refusedSources : Ledger String :=
  [("a.js", "THREE.A = THREE.B;"), ("b.js", "THREE[0] = 1;"), ("c.js", "THREE.C = 1;")]

theorem evaluate_refusedSources : ((evaluate {} refusedSources false).any fun (report, _) =>
    decide (report.outputs.names = ["./c.js"] ∧ report.excluded =
      [⟨"./b.js", "computed assignment"⟩, ⟨"./a.js", "missing B definition"⟩])) = true := by
  decide +kernel

theorem files_accounted_refusedSources : ∃ report final,
    Ran {} refusedSources false [] report final ∧ report.outputs.names = ["./c.js"] ∧
      report.excluded = [⟨"./b.js", "computed assignment"⟩, ⟨"./a.js", "missing B definition"⟩] ∧
      ∃ corpus log', Ends (Corpus.ingest {} refusedSources) [] corpus log' ∧
        Accounted corpus report final.scripts := by
  obtain ⟨⟨report, final⟩, evaluated, holds⟩ := (Option.any_eq_true _ _).mp evaluate_refusedSources
  obtain ⟨outputs, excluded⟩ := of_decide_eq_true holds
  have ran := ran_of_evaluate evaluated
  exact ⟨report, final, ran, outputs, excluded, files_accounted Settings.accepted_standard ran⟩

end Conversion

end ScriptModules
