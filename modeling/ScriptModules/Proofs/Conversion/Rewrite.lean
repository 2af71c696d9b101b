import ScriptModules.Proofs.Conversion.Alike

namespace ScriptModules

open Dependency (scriptAt? requiredNames Closed)

namespace Surroundings

structure Linked (settings : Settings) (sources : Ledger String) (around : Surroundings) : Prop
    extends around.Surveyed settings sources where
  closed : Closed (requiredNames around.scripts) around.index {path | path ∈ around.live}

structure Made (settings : Settings) (sources : Ledger String) (around : Surroundings)
    (start script : Script) (written : Module) : Prop where
  found : scriptAt? around.scripts written.path = some script
  same : script.outline = start.outline
  surveyed : start.Surveyed settings sources
  helpers : written.helpers = start.helpers
  body : written.body = script.tree.children
  root : start.isRoot = true → written.imports = [] ∧ written.exports = {} ∧ script = start
  other : start.isRoot = false → Written around start script written

theorem Made.of_alike {settings : Settings} {sources : Ledger String} {around other : Surroundings}
    {start script : Script} {written : Module}
    (made : around.Made settings sources start script written) (alike : around.Alike other)
    (here : scriptAt? other.scripts written.path = scriptAt? around.scripts written.path) :
    other.Made settings sources start script written :=
  { made with
    found := here.trans made.found
    other := fun other => alike.written (made.other other) }

structure Rewritten (settings : Settings) (sources : Ledger String) (around : Surroundings)
    (modules : List Module) : Prop extends around.Owning where
  given : around.settings = settings
  live : around.live.Nodup
  closed : Closed (requiredNames around.scripts) around.index {path | path ∈ around.live}
  paths : modules.map Module.path = around.live
  made : ∀ written ∈ modules, ∃ start script, around.Made settings sources start script written

theorem Surveyed.linked {settings : Settings} {sources : Ledger String} {around : Surroundings}
    (surveyed : around.Surveyed settings sources) {survey : Dependency.Survey}
    (accounts : Dependency.Survey.Accounts (requiredNames around.scripts) around.live around.index
      survey.dropped survey)
    (closed : Closed (requiredNames around.scripts) around.index {path | path ∈ survey.live}) :
    Linked settings sources { around with live := survey.live, index := survey.index } := by
  have owner (name path : String) : survey.index.owner? name = some path ↔
      around.index.owner? name = some path ∧ path ∉ survey.dropped.map Prod.fst := by
    have known := Dependency.Survey.owner?_without surveyed.distinct around.live survey.dropped name
      path
    rwa [← accounts.rest] at known
  have left (path : String) : path ∈ survey.live ↔
      path ∈ around.live ∧ path ∉ survey.dropped.map Prod.fst := by
    have known : path ∈ (Dependency.Survey.without around.live around.index survey.dropped).live ↔
        path ∈ around.live ∧ path ∉ survey.dropped.map Prod.fst := by
      simp [Dependency.Survey.without]
    rwa [← accounts.rest] at known
  refine
    { distinct := ?_
      provided := fun name path owned => ?_
      last := fun name path owned other later => ?_
      given := surveyed.given
      unique := surveyed.unique
      live := ?_
      surveyed := fun path live => surveyed.surveyed path ((left path).mp live).1
      closed := fun path live name required => ?_ }
  · rw [accounts.rest]
    exact Ledger.nodup_names_filter surveyed.distinct _
  · obtain ⟨owned, kept⟩ := (owner name path).mp owned
    obtain ⟨live, script⟩ := surveyed.provided name path owned
    exact ⟨(left path).mpr ⟨live, kept⟩, script⟩
  · have less : survey.live.Sublist around.live := by
      rw [accounts.rest]
      exact List.filter_sublist
    exact surveyed.last name path ((owner name path).mp owned).1 other (later.trans less)
  · rw [accounts.rest]
    exact surveyed.live.filter _
  · obtain ⟨path', live', owned⟩ := closed path live name required
    exact ⟨path', live', (owner name path').mpr ⟨owned, ((left path').mp live').2⟩⟩

end Surroundings

open Surroundings

/-! ## The phases -/

namespace Work

variable {before after : Workspace}

theorem ends_onDraft {α : Type} {path : String} {task : Draft.Drafting α} {value : α}
    (ends : Ends (onDraft path task) before value after) :
    ∃ script draft, scriptAt? before.scripts path = some script ∧
      Ends task { script } value draft ∧
        after.core = (before.putScript draft.script).core := by
  simp only [onDraft, Ends.bind_iff, ends_scriptAt] at ends
  obtain ⟨script, _, ⟨found, rfl⟩, ends⟩ := ends
  cases made : task.run.run { script } with
  | mk result draft =>
      rw [made] at ends
      simp only [Ends.bind_iff, Ends.modify_iff, Ends.liftM_iff] at ends
      obtain ⟨_, _, rfl, _, _, recorded, rfl, rfl⟩ := ends
      exact ⟨script, draft, found, made, core_records recorded⟩

theorem ends_writeModule {path : String} {written : Module}
    (ends : Ends (writeModule path) before written after) :
    ∃ script draft provider entry, scriptAt? before.scripts path = some script ∧
      Ends (Draft.write before.surroundings) { script } written draft ∧
      scriptAt? (before.putScript draft.script).scripts path = some provider ∧
      Ends (EntryPoint.add path provider.stem provider.provides.names) before.entry ⟨⟩ entry ∧
      after.core = { before.putScript draft.script with entry }.core := by
  simp only [writeModule, Ends.bind_iff, Ends.get_iff, ends_scriptAt, Ends.onPart_iff,
    Ends.pure_iff] at ends
  obtain ⟨_, before, ⟨rfl, rfl⟩, _, between, drafted, provider, between, ⟨known, rfl⟩, _, _,
    ⟨entry, added, rfl⟩, rfl, rfl⟩ := ends
  obtain ⟨script, draft, found, made, same⟩ := ends_onDraft drafted
  have scripts : between.scripts = (before.putScript draft.script).scripts :=
    Workspace.scripts_eq same
  have opening : between.entry = before.entry := (Workspace.entry_eq same).trans rfl
  refine ⟨script, draft, provider, entry, found, made, scripts ▸ known, opening ▸ added, ?_⟩
  exact congrArg (fun core : Workspace => { core with entry }) same

end Work

namespace Conversion

variable {settings : Settings} {sources : Ledger String} {before after : Workspace}

theorem core_excludeAll {dropped : List (String × String)} {files : List ExcludedFile}
    (ends : Ends (dropped.mapM fun file => exclude file.1 ("missing " ++ file.2 ++ " definition"))
      before files after) : after.core = before.core := by
  refine Ends.mapM_invariant (fun _ _ (after : Workspace) => after.core = before.core) ?_ ends rfl
  intro _ _ _ _ _ _ _ _ same ends
  exact (ends_exclude ends).2.trans same

theorem integrityPhase_core {files : List ExcludedFile}
    (ends : Ends integrityPhase before files after) : after.core =
      { before with live := before.survey.live, index := before.survey.index }.core := by
  obtain ⟨start, last, started, ends, finished⟩ := ends_phase ends
  obtain ⟨dropped, between, checked, excluded⟩ := (Ends.bind_iff _ _ _ _ _).mp ends
  obtain ⟨-, rfl⟩ := Work.ends_checkIntegrity_iff.mp checked
  rw [finished, core_excludeAll excluded, Workspace.survey_eq started]
  exact congrArg (fun core : Workspace =>
    { core with live := before.survey.live, index := before.survey.index }) started

theorem ends_integrityPhase {files : List ExcludedFile}
    (surveyed : before.surroundings.Surveyed settings sources)
    (ends : Ends integrityPhase before files after) :
    after.surroundings.Linked settings sources := by
  rw [Workspace.surroundings_eq (integrityPhase_core ends)]
  exact surveyed.linked (Dependency.checkIntegrity_accounts_dropped _ _ surveyed.live)
    (Dependency.checkIntegrity_isGreatest _ (Dependency.nodup_paths surveyed.live)
      surveyed.distinct).1.2

theorem entry_integrityPhase {files : List ExcludedFile}
    (ends : Ends integrityPhase before files after) : after.entry = before.entry :=
  (Workspace.entry_eq (integrityPhase_core ends)).trans rfl

theorem ends_writeFile {path : String} {written : Module × String}
    (ends : Ends (writeFile path) before written after) :
    ∃ between, Ends (Work.writeModule path) before written.1 between ∧
      after.core = between.core := by
  simp only [writeFile, Ends.bind_iff, Ends.pure_iff] at ends
  obtain ⟨_, between, made, _, _, rendered, rfl, rfl⟩ := ends
  exact ⟨between, made, (Work.ends_render rendered).2⟩

def addScripts (scripts : List Script) : EntryPoint.Adding Unit :=
  scripts.forM fun script => EntryPoint.add script.path script.stem script.provides.names

structure Writing (settings : Settings) (sources : Ledger String) (first : Workspace)
    (done : List String) (modules : List Module) (workspace : Workspace) : Prop where
  alike : first.surroundings.Alike workspace.surroundings
  scripts : workspace.scripts.map Script.path = first.scripts.map Script.path
  rest : ∀ path, path ∉ done → scriptAt? workspace.scripts path = scriptAt? first.scripts path
  paths : modules.map Module.path = done
  made : ∀ written ∈ modules, ∃ start script,
    scriptAt? first.scripts written.path = some start ∧
      workspace.surroundings.Made settings sources start script written
  entry : ∃ starts : List Script, starts.map Script.path = done ∧
    (∀ start ∈ starts, scriptAt? first.scripts start.path = some start) ∧
      Ends (addScripts starts) first.entry ⟨⟩ workspace.entry

theorem write_made {around : Surroundings} {start : Script} {written : Module} {draft : Draft}
    (accepted : around.settings.Accepted) (surveyed : start.Surveyed around.settings sources)
    (write : Ends (Draft.write around) { script := start } written draft) :
    written.path = start.path ∧ draft.script.outline = start.outline ∧
      written.helpers = start.helpers ∧ written.body = draft.script.tree.children ∧
      (start.isRoot = true →
        written.imports = [] ∧ written.exports = {} ∧ draft.script = start) ∧
      (start.isRoot = false → Written around start draft.script written) := by
  cases root : start.isRoot with
  | true =>
      obtain ⟨path, imports, helpers, exports, body, same⟩ :=
        Draft.ends_write_root root (surveyed.root root) write
      exact ⟨path, by rw [same], helpers, by rw [same, body], fun _ => ⟨imports, exports, same⟩,
        by simp⟩
  | false =>
      have ready : start.Ready around.settings :=
        { surveyed.toAnalysed with
          other := root
          program := surveyed.program }
      have made := Draft.ends_write accepted ready write
      exact ⟨made.path, by rw [made.same]; rfl, made.helpers, made.body, by simp, fun _ => made⟩

theorem Writing.write {first : Workspace} {done : List String} {modules : List Module}
    (linked : first.surroundings.Linked settings sources) (accepted : settings.Accepted)
    {path : String} (fresh : path ∉ done) (live : path ∈ first.live)
    (writing : Writing settings sources first done modules before)
    {written : Module × String} (ends : Ends (writeFile path) before written after) :
    Writing settings sources first (done ++ [path]) (modules ++ [written.1]) after := by
  obtain ⟨between, ends, same⟩ := ends_writeFile ends
  obtain ⟨start, draft, provider, entry, found, write, known, added, changed⟩ :=
    Work.ends_writeModule ends
  replace changed := same.trans changed
  obtain ⟨script, found', surveyed⟩ := linked.surveyed path live
  cases (writing.rest path fresh).symm.trans found |>.symm.trans found'
  obtain ⟨-, rfl⟩ := Dependency.path_of_scriptAt? found
  have given : before.surroundings.settings = settings := writing.alike.settings.trans linked.given
  have kept : start.Surveyed before.surroundings.settings sources := by rwa [given]
  obtain ⟨path, outline, helpers, body, isRoot, other⟩ :=
    write_made (by rwa [given]) kept write
  have samePath : draft.script.path = start.path :=
    show draft.script.outline.path = start.outline.path from congrArg _ outline
  have here : scriptAt? (before.putScript draft.script).scripts start.path = some draft.script := by
    rw [← samePath]
    exact Dependency.scriptAt?_putScript_self (samePath.symm ▸ found)
  have elsewhere {path : String} (distinct : path ≠ start.path) :
      scriptAt? (before.putScript draft.script).scripts path = scriptAt? before.scripts path :=
    Dependency.scriptAt?_putScript_of_ne before (samePath.symm ▸ distinct)
  have scripts : after.scripts = (before.putScript draft.script).scripts :=
    (Workspace.scripts_eq changed).trans rfl
  have alike : before.surroundings.Alike after.surroundings := by
    rw [Workspace.surroundings_eq changed]
    exact .putScript (samePath.symm ▸ found) outline
  refine
    { alike := writing.alike.trans alike
      scripts := by rw [scripts, Workspace.path_putScript, writing.scripts]
      rest := fun path outside => ?rest
      paths := by rw [List.map_append, writing.paths, List.map_singleton, path]
      made := fun one member => ?made
      entry := ?entry }
  case rest =>
    obtain ⟨outside, distinct⟩ := not_or.mp (mt List.mem_append.mpr outside)
    rw [scripts, ← writing.rest path outside]
    exact elsewhere (mt List.mem_singleton.mpr distinct)
  case made =>
    rcases List.mem_append.mp member with old | new
    · obtain ⟨start', script', first, made⟩ := writing.made one old
      have behind : one.path ∈ done := by
        rw [← writing.paths]
        exact List.mem_map_of_mem old
      refine ⟨start', script', first, made.of_alike alike ?_⟩
      change scriptAt? after.scripts _ = scriptAt? before.scripts _
      rw [scripts]
      exact elsewhere fun same => fresh (same ▸ behind)
    · rw [List.mem_singleton.mp new]
      refine ⟨start, draft.script, path.symm ▸ found', ?_, outline, surveyed, helpers, body, isRoot,
        fun root => ?_⟩
      · change scriptAt? after.scripts _ = _
        rw [scripts, path]
        exact here
      · exact alike.written (other root)
  case entry =>
    obtain ⟨starts, paths, inside, adding⟩ := writing.entry
    cases here.symm.trans known
    have stem : draft.script.stem = start.stem :=
      show draft.script.outline.stem = start.outline.stem from congrArg _ outline
    have provides : draft.script.provides = start.provides :=
      show draft.script.outline.provides = start.outline.provides from congrArg _ outline
    refine ⟨starts ++ [start], by simp [paths], fun one member => ?_, ?_⟩
    · rcases List.mem_append.mp member with old | new
      · exact inside one old
      · rw [List.mem_singleton.mp new]
        exact found'
    · -- writing changes neither the stem nor the provides of the script
      rw [stem, provides] at added
      exact Ends.forM_append_iff.mpr ⟨before.entry, adding, Ends.forM_cons_iff.mpr
        ⟨entry, added, Ends.forM_nil_iff.mpr (Workspace.entry_eq changed)⟩⟩

theorem Writing.start {first start : Workspace} (same : start.core = first.core) :
    Writing settings sources first [] [] start where
  alike := Workspace.surroundings_eq same ▸ .refl _
  scripts := by rw [Workspace.scripts_eq same]
  rest := fun path _ => by rw [Workspace.scripts_eq same]
  paths := rfl
  made := by simp
  entry := ⟨[], rfl, by simp, Ends.forM_nil_iff.mpr (Workspace.entry_eq same)⟩

theorem Writing.of_core {first last : Workspace} {done : List String} {modules : List Module}
    (writing : Writing settings sources first done modules last) (same : after.core = last.core) :
    Writing settings sources first done modules after where
  alike := Workspace.surroundings_eq same ▸ writing.alike
  scripts := by rw [Workspace.scripts_eq same, writing.scripts]
  rest := fun path outside => by rw [Workspace.scripts_eq same, writing.rest path outside]
  paths := writing.paths
  made := Workspace.surroundings_eq same ▸ writing.made
  entry := Workspace.entry_eq same ▸ writing.entry

theorem writing_writeFiles (linked : before.surroundings.Linked settings sources)
    (accepted : settings.Accepted) {start : Workspace} (same : start.core = before.core)
    {done : List String} (ahead : done <+: before.live) {modules : List (Module × String)}
    (ends : Ends (done.mapM writeFile) start modules after) :
    Writing settings sources before done (modules.map Prod.fst) after := by
  refine Ends.mapM_invariant (fun done modules (workspace : Workspace) =>
    Writing settings sources before done (modules.map Prod.fst) workspace) ?_ ends (.start same)
  intro behind path todo modules between written after parts writing ends
  rw [List.map_append]
  have fresh := not_mem_behind (linked.live.sublist ahead.sublist) parts
  refine writing.write linked accepted fresh (ahead.subset ?_) ends
  rw [parts]
  simp

theorem ends_modulePhase {modules : List (Module × String)}
    (ends : Ends modulePhase before modules after) :
    ∃ start last, start.core = before.core ∧ Ends (before.live.mapM writeFile) start modules last ∧
      after.core = last.core := by
  simp only [modulePhase, Ends.bind_iff, Ends.get_iff] at ends
  obtain ⟨_, before, ⟨rfl, rfl⟩, ends⟩ := ends
  exact ends_phase ends

theorem Writing.rewritten {first : Workspace} {modules : List Module}
    (linked : first.surroundings.Linked settings sources)
    (writing : Writing settings sources first first.live modules after) :
    after.surroundings.Rewritten settings sources modules := by
  obtain ⟨distinct, provided, last⟩ := writing.alike.owning linked.toOwning
  exact
    { distinct
      provided
      last
      given := writing.alike.settings.trans linked.given
      live := writing.alike.live ▸ linked.live
      closed := writing.alike.closed linked.closed
      paths := writing.paths.trans writing.alike.live.symm
      made := fun written member => by
        obtain ⟨start, script, -, made⟩ := writing.made written member
        exact ⟨start, script, made⟩ }

theorem ends_entryPhase {withGraph : Bool} {value : String × Option Dependency.Graph}
    (ends : Ends (entryPhase withGraph) before value after) :
    value.1 = before.entry.program.render before.settings.indent ∧ after.core = before.core := by
  simp only [entryPhase, Ends.bind_iff, Ends.get_iff] at ends
  obtain ⟨_, before, ⟨rfl, rfl⟩, ends⟩ := ends
  obtain ⟨start, last, started, ends, finished⟩ := ends_phase ends
  simp only [Work.renderEntry, Ends.bind_iff, Ends.get_iff] at ends
  obtain ⟨code, between, ⟨_, _, ⟨rfl, rfl⟩, rendered⟩, ends⟩ := ends
  obtain ⟨text, same⟩ := Work.ends_render rendered
  have whole : value.1 = code ∧ last = between := by
    split at ends
    · simp only [Work.graph, Ends.bind_iff, Ends.get_iff, Ends.liftM_iff, Ends.pure_iff] at ends
      obtain ⟨_, _, ⟨_, _, ⟨rfl, rfl⟩, -, rfl⟩, rfl, rfl⟩ := ends
      exact ⟨rfl, rfl⟩
    · obtain ⟨rfl, rfl⟩ := (Ends.pure_iff _ _ _ _).mp ends
      exact ⟨rfl, rfl⟩
  obtain ⟨rfl, rfl⟩ := whole
  refine ⟨?_, finished.trans (same.trans started)⟩
  change value.1 = before.core.entry.program.render before.core.settings.indent
  rw [text, ← started]
  rfl

/-! ## Runs -/

theorem names_outputs (report : Report) :
    report.outputs.names = (report.modules.map Prod.fst).map Module.path := by
  rw [Report.outputs, Ledger.names, List.map_map, List.map_map]
  rfl

/-- A conversion ends with a report; also told is the workspace that it leaves. -/
def Ran (settings : Settings) (sources : Ledger String) (withGraph : Bool) (log : List LogLine)
    (report : Report) (final : Workspace) : Prop :=
  ∃ corpus log', Ends (Corpus.ingest settings sources) log corpus log' ∧
    Ends (convert withGraph)
      { Workspace.ofCorpus settings corpus with trace := readingTrace sources.length, log := log' }
      report final

theorem ends_run_iff {settings : Settings} {sources : Ledger String} {withGraph : Bool}
    {log log' : List LogLine} {report : Report} :
    Ends (run settings sources withGraph) log report log' ↔
      ∃ final, Ran settings sources withGraph log report final ∧ log' = final.log := by
  simp only [run, Ran, Ends.bind_iff, Ends.onPart_iff]
  constructor
  · rintro ⟨corpus, between, ingested, final, converted, rfl⟩
    exact ⟨final, ⟨corpus, between, ingested, converted⟩, rfl⟩
  · rintro ⟨final, ⟨corpus, between, ingested, converted⟩, rfl⟩
    exact ⟨corpus, between, ingested, final, converted, rfl⟩

theorem ingested_ofCorpus {settings : Settings} {sources : Ledger String} {corpus : Corpus}
    {before after : List LogLine} (ends : Ends (Corpus.ingest settings sources) before corpus after) :
    (Workspace.ofCorpus settings corpus).surroundings.Ingested settings sources := by
  obtain ⟨distinct, opened⟩ := Corpus.ends_ingest ends
  refine
    { given := rfl
      unique := distinct
      live := distinct
      opened := fun path live => ?_
      index := rfl }
  obtain ⟨script, member, rfl⟩ := List.mem_map.mp live
  exact ⟨script, Dependency.scriptAt?_of_mem distinct member, opened script member⟩

theorem ingested_mergePhase {settings : Settings} {sources : Ledger String} {log log' : List LogLine}
    {corpus : Corpus} (ingesting : Ends (Corpus.ingest settings sources) log corpus log')
    {merged : Workspace} (merging : Ends mergePhase
      { Workspace.ofCorpus settings corpus with
        trace := readingTrace sources.length, log := log' } ⟨⟩ merged) :
    merged.surroundings.Ingested settings sources ∧
      ∀ path script, scriptAt? merged.scripts path = some script →
        script.Merged settings sources := by
  refine ⟨ends_mergePhase (by exact ingested_ofCorpus ingesting) merging, fun path script found => ?_⟩
  obtain ⟨-, rfl⟩ := Dependency.path_of_scriptAt? found
  exact ⟨log, corpus, log', merged, ingesting, merging, found⟩

def Passed (settings : Settings) (sources : Ledger String) (workspace : Workspace) : Prop :=
  ∃ log corpus log' merged unclassified analysed dangling,
    Ends (Corpus.ingest settings sources) log corpus log' ∧
    Ends mergePhase
      { Workspace.ofCorpus settings corpus with
        trace := readingTrace sources.length, log := log' } ⟨⟩ merged ∧
    Ends analysisPhase merged unclassified analysed ∧
    Ends integrityPhase analysed dangling workspace

theorem Passed.linked {settings : Settings} {sources : Ledger String} {workspace : Workspace}
    (passed : Passed settings sources workspace) :
    workspace.surroundings.Linked settings sources := by
  obtain ⟨log, corpus, log', merged, unclassified, between, dangling, ingesting, merging, analysed,
    checked⟩ := passed
  obtain ⟨ingested, known⟩ := ingested_mergePhase ingesting merging
  exact ends_integrityPhase (ends_analysisPhase ingested known analysed) checked

theorem Passed.opening {settings : Settings} {sources : Ledger String} {workspace : Workspace}
    (passed : Passed settings sources workspace) :
    workspace.entry = { path := settings.entryPath, extension := settings.codeExtension } := by
  obtain ⟨log, corpus, log', merged, unclassified, between, dangling, ingesting, merging, analysed,
    checked⟩ := passed
  exact (entry_integrityPhase checked).trans
    ((entry_analysisPhase analysed).trans (entry_mergePhase merging))

/-- A conversion that ends went through its phases. -/
structure Phases (settings : Settings) (sources : Ledger String) (report : Report)
    (first final : Workspace) : Prop where
  passed : Passed settings sources first
  written : ∃ start last, start.core = first.core ∧
    Ends (first.live.mapM writeFile) start report.modules last ∧ final.core = last.core
  entryCode : report.entryCode = final.entry.program.render final.settings.indent
  index : report.index = final.index

theorem Phases.writing {settings : Settings} (accepted : settings.Accepted)
    {sources : Ledger String} {report : Report} {first final : Workspace}
    (phases : Phases settings sources report first final) :
    Writing settings sources first first.live (report.modules.map Prod.fst) final := by
  obtain ⟨start, last, same, ends, finished⟩ := phases.written
  have linked := phases.passed.linked
  exact (writing_writeFiles linked accepted same (List.prefix_refl first.live) ends).of_core finished

theorem Ran.phases {settings : Settings} {sources : Ledger String} {withGraph : Bool}
    {log : List LogLine} {report : Report} {final : Workspace}
    (ran : Ran settings sources withGraph log report final) :
    ∃ first, Phases settings sources report first final := by
  obtain ⟨corpus, log', ingesting, converting⟩ := ran
  simp only [convert, Ends.bind_iff, Ends.get_iff, Ends.pure_iff] at converting
  obtain ⟨_, _, merging, _, _, analysed, _, _, ⟨rfl, rfl⟩, _, between, checked, modules, _, written,
    ⟨code, graph⟩, _, emitted, _, _, ⟨rfl, rfl⟩, rfl, rfl⟩ := converting
  have passed : Passed settings sources between :=
    ⟨log, corpus, log', _, _, _, _, ingesting, merging, analysed, checked⟩
  obtain ⟨start, last, started, written, finished⟩ := ends_modulePhase written
  obtain ⟨rfl, same⟩ := ends_entryPhase emitted
  refine ⟨between, passed, ⟨start, last, started, written, same.trans finished⟩, ?_, rfl⟩
  rw [Workspace.entry_eq same, Workspace.settings_eq same]

theorem Ran.rewritten {settings : Settings} (accepted : settings.Accepted) {sources : Ledger String}
    {withGraph : Bool} {log : List LogLine} {report : Report} {final : Workspace}
    (ran : Ran settings sources withGraph log report final) :
    final.surroundings.Rewritten settings sources (report.modules.map Prod.fst) ∧
      report.index = final.index := by
  obtain ⟨first, phases⟩ := ran.phases
  exact ⟨(phases.writing accepted).rewritten phases.passed.linked, phases.index⟩

def evaluate (settings : Settings) (sources : Ledger String) (withGraph : Bool) :
    Option (Report × Workspace) :=
  match (Corpus.ingest settings sources).run.run [] with
  | (.ok corpus, log) =>
    match (convert withGraph).run.run
        { Workspace.ofCorpus settings corpus with trace := readingTrace sources.length, log } with
    | (.ok report, final) => some (report, final)
    | _ => none
  | _ => none

theorem ran_of_evaluate {settings : Settings} {sources : Ledger String} {withGraph : Bool}
    {report : Report} {final : Workspace}
    (evaluated : evaluate settings sources withGraph = some (report, final)) :
    Ran settings sources withGraph [] report final := by
  unfold evaluate at evaluated
  split at evaluated
  · rename_i corpus log ingested
    split at evaluated
    · rename_i report final converted
      cases evaluated
      exact ⟨corpus, log, ingested, converted⟩
    · cases evaluated
  · cases evaluated

def cyclicSources : Ledger String :=
  [("a.js", "THREE.A = [THREE.B];"), ("b.js", "THREE.B = [THREE.A];"), ("c.js", "THREE.A;")]

def HasImports (report : Report) (path : String) (imports : List (String × Bool)) : Prop :=
  ∃ written ∈ report.modules, written.1.path = path ∧
    (written.1.imports.map fun required => (required.1.path, required.1.isDeferred)) = imports

instance (report : Report) (path : String) (imports : List (String × Bool)) :
    Decidable (HasImports report path imports) :=
  inferInstanceAs (Decidable (∃ written ∈ report.modules, _))

theorem evaluate_cyclicSources : ((evaluate {} cyclicSources false).any fun (report, final) =>
    decide (HasImports report "./a.js" [("./b.js", true)] ∧
      HasImports report "./c.js" [("./a.js", false)] ∧
      (scriptAt? final.scripts "./c.js").map Script.isRoot = some false ∧
      ((scriptAt? final.scripts "./c.js").map fun script =>
        (script.provides.names, script.requires)) = some ([], [("A", [[0, 0]])]))) = true := by
  decide +kernel

theorem ran_cyclicSources : ∃ report final, Ran {} cyclicSources false [] report final ∧
    HasImports report "./a.js" [("./b.js", true)] ∧
    HasImports report "./c.js" [("./a.js", false)] ∧
    (scriptAt? final.scripts "./c.js").map Script.isRoot = some false ∧
    ((scriptAt? final.scripts "./c.js").map fun script =>
      (script.provides.names, script.requires)) = some ([], [("A", [[0, 0]])]) := by
  obtain ⟨⟨report, final⟩, evaluated, holds⟩ := (Option.any_eq_true _ _).mp evaluate_cyclicSources
  exact ⟨report, final, ran_of_evaluate evaluated, of_decide_eq_true holds⟩

end Conversion

end ScriptModules
