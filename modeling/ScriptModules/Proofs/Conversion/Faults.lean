import ScriptModules.Proofs.Analysis.Exchange
import ScriptModules.Proofs.Conversion.Substitution
import ScriptModules.Proofs.Module.Exchange

namespace ScriptModules

open ScriptModules.Tree
open Dependency (scriptAt? requiredFiles)

/-! ## The graph -/

theorem Dependency.scriptAt?_filter {scripts : List Script} {keep : String → Bool} {path : String}
    {script : Script} (found : scriptAt? scripts path = some script) (kept : keep path = true) :
    scriptAt? (scripts.filter fun script => keep script.path) path = some script := by
  rw [scriptAt?, List.find?_filter, ← found, scriptAt?]
  congr 1
  funext other
  by_cases same : other.path = path
  · simp [same, kept]
  · simp [same]

theorem Dependency.Graph.exists_build {index : Index} {files : List Script}
    (closed : ∀ script ∈ files, ∀ name ∈ script.requires.names, ∃ path,
      index.owner? name = some path ∧ ∃ target, scriptAt? files path = some target) :
    ∃ graph, build index files = .ok graph := by
  have edges : ∃ edges, files.mapM (edgesFrom index files) = .ok edges := by
    refine mapM_total fun script member => ?_
    obtain ⟨required, run⟩ := exists_requiredFiles fun name needed =>
      (closed script member name needed).imp fun path => And.left
    obtain ⟨targets, made⟩ : ∃ targets,
        required.names.mapM (edgeTo files script) = .ok targets := by
      refine mapM_total fun path known => ?_
      obtain ⟨⟨_, group⟩, entry, rfl⟩ := List.mem_map.mp known
      have groups := requiredFiles_groups run
      obtain ⟨name, own⟩ := List.exists_mem_of_ne_nil _ (groups.filled _ group entry)
      obtain ⟨owner, owned, target, found⟩ :=
        closed script member name (groups.within _ group entry name own)
      cases (groups.owned _ group entry name own).symm.trans owned
      exact ⟨{ source := script.id, target := target.id }, by rw [edgeTo, found]⟩
    refine ⟨targets, ?_⟩
    rw [edgesFrom, run]
    exact made
  obtain ⟨edges, made⟩ := edges
  rw [build, made]
  exact ⟨_, rfl⟩

/-! ## The phases before the modules -/

namespace Work

variable {allowed : Fault → Prop}

theorem confined_note (level : Level) (message : String) (before : Workspace) :
    Confined allowed (note level message) before := by
  unfold note logged Logged.note
  exact .onPart (.modify _)

theorem confined_record (event : Event) (before : Workspace) :
    Confined allowed (record event) before :=
  .modify _

theorem confined_register (path name : String) (before : Workspace) :
    Confined allowed (register path name) before := by
  refine .bind .get fun workspace _ _ => .bind (.modify _) fun _ _ _ => ?_
  split
  · exact .pure _
  · exact .bind (confined_note _ _ _) fun _ _ _ => confined_record _ _

theorem confined_mergeChunks (before : Workspace) : Confined allowed mergeChunks before := by
  rcases Conversion.mergeChunks_cases before with
    ⟨_, _, -, -, -, -, ends⟩ | ⟨-, _, ends⟩
  · exact .of_ends ends
  · exact .of_ends ends

/-- What the analysis replaces in the tree of a file: the type checks, and then the names of the global
object. Each of these nodes is found where it was met. -/
structure Exchanged (settings : Settings) (read checked result : Script)
    (exclusion? : Option Exclusion) : Prop where
  replaced : ∃ events, TypeCheck.replace settings read = .ok (checked, events) ∧
    (TypeCheck.exchanged settings read.tree).length = events.length
  recast : Steady (TypeCheck.exchanged settings read.tree) ∧
    Exchanges (TypeCheck.exchanged settings read.tree) read.tree checked.tree
  classified : Access.classify settings checked = .ok (result, exclusion?)
  marked : Steady (Access.markedBases settings checked) ∧
    Exchanges (Access.markedBases settings checked) checked.tree result.tree

theorem exists_exchanged {settings : Settings} {sources : Ledger String} {read : Script}
    (opened : read.Opened settings sources) :
    ∃ checked result exclusion?, Exchanged settings read checked result exclusion? := by
  obtain ⟨checked, events, replaced, count, exchanges⟩ :=
    TypeCheck.replace_exchanges opened.sound opened.taken
  have unread := opened.unread_checked replaced
  obtain ⟨result, exclusion?, classified, marked⟩ := Access.classify_exchanges unread
  exact ⟨checked, result, exclusion?, ⟨events, replaced, count⟩,
    ⟨TypeCheck.steady_exchanged _ _, exchanges⟩, classified, Access.steady_markedBases unread.sound,
    marked⟩

theorem confined_analyze {settings : Settings} {sources : Ledger String} {path : String}
    {before : Workspace} {read : Script} (given : before.settings = settings)
    (found : scriptAt? before.scripts path = some read) (opened : read.Opened settings sources) :
    Confined allowed (analyze path) before := by
  obtain ⟨checked, result, exclusion?, ⟨events, replaced, -⟩, -, classified, -⟩ :=
    exists_exchanged opened
  refine .bind ?_ fun count between ends => ?_
  · -- the checks are replaced in the script that was read
    refine .bind_of_ends (.get_same _) (.bind_of_ends (ends_scriptAt.mpr ⟨found, rfl⟩) ?_)
    rw [given]
    exact .bind_of_ends (.liftM_of replaced _) (.bind (.modify _) fun _ _ _ =>
      .bind (.forM fun _ _ _ => confined_record _ _) fun _ _ _ => .pure _)
  · -- and the script that they leave is classified
    obtain ⟨script, checked', events', found', replaced', same⟩ := ends_replaceChecks ends
    cases found.symm.trans found'
    rw [given] at replaced'
    cases replaced.symm.trans replaced'
    obtain ⟨-, rfl⟩ := Dependency.path_of_scriptAt? found
    have path : checked.path = read.path := by rw [TypeCheck.replace_same replaced]
    have here : scriptAt? between.scripts read.path = some checked := by
      rw [Workspace.scripts_eq same, ← path]
      exact Dependency.scriptAt?_putScript_self (path.symm ▸ found)
    have given' : between.settings = settings := (Workspace.settings_eq same).trans given
    refine .bind_of_ends (.get_same _) (.bind_of_ends (ends_scriptAt.mpr ⟨here, rfl⟩) ?_)
    rw [given']
    refine .bind_of_ends (.liftM_of classified _) (.bind (.modify _) fun _ _ _ => ?_)
    split
    · exact .bind (.modify _) fun _ _ _ => .pure _
    · exact .bind (.forM fun _ _ _ => confined_register _ _ _) fun _ _ _ => .pure _

end Work

namespace Conversion

open Work Surroundings

variable {settings : Settings} {sources : Ledger String} {allowed : Fault → Prop}
  {before : Workspace}

theorem confined_phase {α : Type} {name detail : String} {task : Work α}
    (confined : ∀ start : Workspace, start.core = before.core → Confined allowed task start) :
    Confined allowed (phase name detail task) before := by
  refine .bind (.modify _) fun _ start ends => .bind (confined start ?_) fun _ _ _ =>
    .bind (.modify _) fun _ _ _ => .pure _
  rw [(Ends.modify_iff _ _ _ _).mp ends]
  rfl

theorem confined_exclude (path reason : String) (before : Workspace) :
    Confined allowed (exclude path reason) before :=
  .bind (confined_note _ _ _) fun _ _ _ => .bind (confined_record _ _) fun _ _ _ => .pure _

theorem confined_mergePhase (before : Workspace) : Confined allowed mergePhase before := by
  refine .bind .get fun workspace _ _ => confined_phase fun _ _ =>
    .bind (confined_mergeChunks _) fun count _ _ => ?_
  split
  · exact confined_note _ _ _
  · exact .pure _

/-- The analysis gets to a file: the files ahead of it are analysed. -/
def Analyses (merged : Workspace) (path : String) (before : Workspace) : Prop :=
  ∃ start done todo files, start.core = merged.core ∧ merged.live = done ++ path :: todo ∧
    Ends (done.mapM analyzeFile) start files before

theorem Analyses.opened {merged : Workspace}
    (ingested : merged.surroundings.Ingested settings sources)
    (known : ∀ path script, scriptAt? merged.scripts path = some script →
      script.Merged settings sources) {path : String} (analyses : Analyses merged path before) :
    before.settings = settings ∧ ∃ read, scriptAt? before.scripts path = some read ∧
      read.Opened settings sources := by
  obtain ⟨start, done, todo, files, started, parts, behind⟩ := analyses
  rw [← Workspace.surroundings_eq started] at ingested
  rw [← Workspace.scripts_eq started] at known
  rw [← Workspace.live_eq started] at parts
  have held := surveying_analyzeFiles ingested known (parts ▸ List.prefix_append _ _) behind
  obtain ⟨-, read, found, opened, -⟩ :=
    held.opened path (by simp [parts]) (not_mem_behind ingested.live parts)
  exact ⟨held.given, read, found, opened⟩

theorem confined_analysisPhase (ingested : before.surroundings.Ingested settings sources)
    (known : ∀ path script, scriptAt? before.scripts path = some script →
      script.Merged settings sources) : Confined allowed analysisPhase before := by
  refine confined_phase fun start started => .bind_of_ends (.get_same _) ?_
  refine .bind (.mapM fun done path todo files between parts behind => ?_) fun _ _ _ =>
    .bind .get fun _ _ _ => .bind (confined_note _ _ _) fun _ _ _ => .pure _
  have analyses : Analyses before path between :=
    ⟨_, done, todo, files, started, Workspace.live_eq started ▸ parts, behind⟩
  obtain ⟨given, read, found, opened⟩ := analyses.opened ingested known
  refine .bind (confined_analyze given found opened) fun exclusion? _ _ => ?_
  split
  · exact .bind (confined_exclude _ _ _) fun _ _ _ => .pure _
  · exact .pure _

theorem confined_integrityPhase (before : Workspace) : Confined allowed integrityPhase before := by
  refine confined_phase fun _ _ => .bind ?_ fun _ _ _ => .mapM fun _ _ _ _ _ _ _ =>
    confined_exclude _ _ _
  exact .of_ends (Work.ends_checkIntegrity_iff.mpr ⟨rfl, rfl⟩)

end Conversion

/-! ## The modules -/

theorem Script.Surveyed.nodup_recorded {settings : Settings} {sources : Ledger String}
    {script : Script} (surveyed : script.Surveyed settings sources) (other : script.isRoot = false)
    (name : String) : (script.recorded name).Nodup := by
  obtain ⟨read, opened, -, becomes⟩ := surveyed.origin
  have root : script.isRoot = read.isRoot := by rw [becomes.same]
  obtain ⟨checked, events, replaced, classified⟩ := becomes
  refine Access.nodup_recorded (opened.unread_checked replaced) ?_ classified name
  rw [TypeCheck.replace_same replaced]
  exact root.symm.trans other

theorem Surroundings.Owning.resolved {around : Surroundings} (accepted : around.settings.Accepted)
    (owning : around.Owning)
    (closed : Dependency.Closed (Dependency.requiredNames around.scripts) around.index
      {path | path ∈ around.live})
    {sources : Ledger String} {start : Script} (surveyed : start.Surveyed around.settings sources)
    (found : scriptAt? around.scripts start.path = some start) (live : start.path ∈ around.live) :
    Draft.Resolved around start := by
  cases root : start.isRoot with
  | true => exact Draft.resolved_root root (surveyed.root root)
  | false =>
      refine Draft.resolved accepted { surveyed.toAnalysed with
        other := root
        program := surveyed.program } (surveyed.nodup_recorded root) fun name needed => ?_
      obtain ⟨owner, live', owned⟩ := closed start.path live name (by
        rw [Dependency.requiredNames, found]
        exact needed)
      obtain ⟨-, script, found', -⟩ := owning.provided name owner owned
      refine ⟨owner, owned, script, ?_⟩
      rw [Draft.converted, found']
      exact if_pos (List.contains_iff_mem.mpr live')

namespace Work

variable {allowed : Fault → Prop}

theorem confined_onDraft {α : Type} {path : String} {task : Draft.Drafting α} {before : Workspace}
    {script : Script} (found : scriptAt? before.scripts path = some script)
    (confined : Confined allowed task { script }) : Confined allowed (onDraft path task) before := by
  refine .bind_of_ends (ends_scriptAt.mpr ⟨found, rfl⟩) ?_
  refine .bind (.modify _) fun _ _ _ => .bind (.forM fun _ _ _ => confined_record _ _) fun _ _ _ =>
    .liftM fun fault stopped => ?_
  exact confined fault _ (Prod.ext stopped rfl)

theorem confined_add (path stem : String) (names : List String) (before : EntryPoint) :
    Confined (fun fault => fault.isInternal = false) (EntryPoint.add path stem names) before := by
  have statement (text : String) (before : EntryPoint) :
      Confined (fun fault => fault.isInternal = false) (EntryPoint.addStatement text) before :=
    .bind (.liftM fun _ => Template.statement_fault) fun _ _ _ => .modify _
  refine .bind .get fun entry _ _ => ?_
  split
  · exact .pure _
  · exact .bind (.liftM fun _ => quotedSpecifier_fault) fun _ _ _ => statement _ _
  · refine .bind (.liftM fun _ => quotedSpecifier_fault) fun _ _ _ => .bind ?_ fun _ _ _ =>
      .bind (statement _ _) fun _ _ _ => .forM fun _ _ _ => statement _ _
    exact .bind .get fun _ _ _ => .bind (.modify _) fun _ _ _ => .pure _

theorem confined_render (program : Node) (path : String) (before : Workspace) :
    Confined allowed (render program path) before :=
  .bind .get fun _ _ _ => .onPart (.pure _)

end Work

namespace Conversion

open Work Surroundings

variable {settings : Settings} {sources : Ledger String} {before : Workspace}

theorem Reaches.resolved (accepted : settings.Accepted) {path : String}
    (reaches : Reaches settings sources path before) :
    ∃ start, scriptAt? before.scripts path = some start ∧ start.path = path ∧
      before.settings = settings ∧ start.Surveyed settings sources ∧
      Draft.Resolved before.surroundings start := by
  obtain ⟨first, start, done, todo, modules, passed, parts, same, behind⟩ := reaches
  have linked := passed.linked
  have written := writing_writeFiles linked accepted same (parts ▸ List.prefix_append _ _) behind
  have live : path ∈ first.live := by
    rw [parts]
    simp
  obtain ⟨script, found, surveyed⟩ := linked.surveyed path live
  have here := (written.rest path (not_mem_behind linked.live parts)).trans found
  obtain ⟨-, own⟩ := Dependency.path_of_scriptAt? found
  have given : before.settings = settings := written.alike.settings.trans linked.given
  refine ⟨script, here, own, given, surveyed, ?_⟩
  subst given
  refine (written.alike.owning linked.toOwning).resolved accepted
    (written.alike.closed linked.closed) surveyed (own.symm ▸ here) ?_
  rw [own, written.alike.live]
  exact live

theorem confined_writeFile_of {allowed : Fault → Prop} {start : Script}
    (accepted : before.settings.Accepted)
    (found : scriptAt? before.scripts start.path = some start)
    (surveyed : start.Surveyed before.settings sources)
    (drafting : Confined allowed (Draft.write before.surroundings) { script := start })
    (adding : ∀ entry, Confined allowed
      (EntryPoint.add start.path start.stem start.provides.names) entry) :
    Confined allowed (writeFile start.path) before := by
  refine .bind ?_ fun _ _ _ => .bind (confined_render _ _ _) fun _ _ _ => .pure _
  refine .bind_of_ends (.get_same _) ?_
  refine .bind (confined_onDraft found drafting) fun written between' drafted => ?_
  obtain ⟨script, draft, found', made, same⟩ := ends_onDraft drafted
  cases found.symm.trans found'
  obtain ⟨-, outline, -⟩ := write_made accepted surveyed made
  have own : draft.script.path = start.path :=
    show draft.script.outline.path = start.outline.path from congrArg _ outline
  have stem : draft.script.stem = start.stem :=
    show draft.script.outline.stem = start.outline.stem from congrArg _ outline
  have provides : draft.script.provides = start.provides :=
    show draft.script.outline.provides = start.outline.provides from congrArg _ outline
  have here : scriptAt? between'.scripts start.path = some draft.script := by
    rw [Workspace.scripts_eq same, ← own]
    exact Dependency.scriptAt?_putScript_self (own.symm ▸ found)
  refine .bind_of_ends (ends_scriptAt.mpr ⟨here, rfl⟩) ?_
  rw [stem, provides]
  exact .bind (.onPart (adding _)) fun _ _ _ => .pure _

theorem confined_writeFile (accepted : settings.Accepted) {path : String}
    (reaches : Reaches settings sources path before) :
    Confined (fun fault => fault.isInternal = false) (writeFile path) before := by
  obtain ⟨start, found, rfl, rfl, surveyed, files, -, -, -, exchanging⟩ := reaches.resolved accepted
  exact confined_writeFile_of accepted found surveyed
    (fun fault draft stops => (exchanging.stops _ _ stops).1) fun _ => confined_add _ _ _ _

theorem confined_modulePhase_of {allowed : Fault → Prop}
    (writing : ∀ path (before : Workspace), Reaches settings sources path before →
      Confined allowed (writeFile path) before)
    {first : Workspace} (passed : Passed settings sources first) :
    Confined allowed modulePhase first := by
  refine .bind_of_ends (.get_same _) ?_
  refine confined_phase fun start same => .mapM fun done path todo modules before parts behind => ?_
  exact writing path before ⟨_, start, done, todo, modules, passed, parts, same, behind⟩

theorem confined_modulePhase (accepted : settings.Accepted) {first : Workspace}
    (passed : Passed settings sources first) :
    Confined (fun fault => fault.isInternal = false) modulePhase first :=
  confined_modulePhase_of (fun _ _ => confined_writeFile accepted) passed

/-! ## The entry point -/

theorem exists_graph (accepted : settings.Accepted) {first last : Workspace}
    (passed : Passed settings sources first) {modules : List (Module × String)}
    (ends : Ends modulePhase first modules last) :
    ∃ graph, Dependency.Graph.build last.index last.liveScripts = .ok graph := by
  have linked := passed.linked
  obtain ⟨start, last', same, behind, finished⟩ := ends_modulePhase ends
  have written :=
    (writing_writeFiles linked accepted same (List.prefix_refl _) behind).of_core finished
  have owning := written.alike.owning linked.toOwning
  have unique : (last.scripts.map Script.path).Nodup := written.scripts ▸ linked.unique
  refine Dependency.Graph.exists_build fun script member name needed => ?_
  obtain ⟨member, live⟩ := List.mem_filter.mp member
  obtain ⟨owner, live', owned⟩ := written.alike.closed linked.closed script.path
    (List.contains_iff_mem.mp live) name (by
      change name ∈ Dependency.requiredNames last.scripts script.path
      rw [Dependency.requiredNames, Dependency.scriptAt?_of_mem unique member]
      exact needed)
  obtain ⟨-, target, found, -⟩ := owning.provided name owner owned
  exact ⟨owner, owned, target, Dependency.scriptAt?_filter found (List.contains_iff_mem.mpr live')⟩

theorem confined_entryPhase {withGraph : Bool}
    (built : ∃ graph, Dependency.Graph.build before.index before.liveScripts = .ok graph) :
    Confined allowed (entryPhase withGraph) before := by
  refine .bind_of_ends (.get_same _) ?_
  refine confined_phase fun start started => .bind (.bind .get fun _ _ _ => confined_render _ _ _)
    fun code middle ends => ?_
  simp only [renderEntry, Ends.bind_iff, Ends.get_iff] at ends
  obtain ⟨_, _, ⟨rfl, rfl⟩, rendered⟩ := ends
  have same := (ends_render rendered).2.trans started
  split
  · refine .bind (.bind .get fun workspace last ends' => .liftM fun fault stopped => ?_)
      fun _ _ _ => .pure _
    obtain ⟨rfl, rfl⟩ := (Ends.get_iff _ _ _).mp ends'
    obtain ⟨graph, built⟩ := built
    have scripts : last.liveScripts = before.liveScripts :=
      show last.core.liveScripts = before.core.liveScripts from congrArg _ same
    rw [Workspace.index_eq same, scripts, built] at stopped
    cases stopped
  · exact .pure _

/-! ## Runs -/

end Conversion

def Workspace.Provided (workspace : Workspace) : Prop :=
  ∀ name path, (name, path) ∈ workspace.index.owners → path ∈ workspace.live ∧
    ∃ script, scriptAt? workspace.scripts path = some script ∧ name ∈ script.provides.names

theorem Surroundings.Owning.workspace_provided {workspace : Workspace}
    (owning : workspace.surroundings.Owning) : workspace.Provided :=
  fun name path entry => owning.provided name path (Ledger.get?_of_mem owning.distinct entry)

namespace Conversion

open Work Surroundings

/-- What a phase of a conversion looks up, the phases before it have left there. -/
structure Consistent (settings : Settings) (sources : Ledger String)
    (merged analysed first : Workspace) : Prop where
  analysed : analysed.Provided
  checked : first.Provided
  exchanged : ∀ path before, Analyses merged path before → ∃ read,
    scriptAt? before.scripts path = some read ∧ ∃ checked result exclusion?,
      Exchanged settings read checked result exclusion?
  resolved : ∀ path before, Reaches settings sources path before → ∃ start,
    scriptAt? before.scripts path = some start ∧ Draft.Resolved before.surroundings start
  graph : ∀ modules last, Ends modulePhase first modules last →
    ∃ graph, Dependency.Graph.build last.index last.liveScripts = .ok graph

/-- A corpus that is read is analysed and checked without a fault. From there on every name that is
looked up has an owner, every file that is looked up is converted, every node that is to be replaced is
found, and whatever stops the conversion is no internal fault. -/
theorem conversion_safe {settings : Settings} (accepted : settings.Accepted)
    {sources : Ledger String} {log log' : List LogLine} {corpus : Corpus}
    (ingesting : Ends (Corpus.ingest settings sources) log corpus log') (withGraph : Bool) :
    (∃ merged unclassified analysed dangling first,
      Ends mergePhase
        { Workspace.ofCorpus settings corpus with
          trace := readingTrace sources.length, log := log' } ⟨⟩ merged ∧
      Ends analysisPhase merged unclassified analysed ∧
      Ends integrityPhase analysed dangling first ∧
      Consistent settings sources merged analysed first) ∧
    ∀ fault last, Stops (run settings sources withGraph) log fault last →
      fault.isInternal = false := by
  let start := { Workspace.ofCorpus settings corpus with
    trace := readingTrace sources.length, log := log' }
  have passed {merged analysed first : Workspace} {unclassified dangling : List ExcludedFile}
      (merging : Ends mergePhase start ⟨⟩ merged)
      (analysing : Ends analysisPhase merged unclassified analysed)
      (checking : Ends integrityPhase analysed dangling first) : Passed settings sources first :=
    ⟨log, corpus, log', merged, _, analysed, _, ingesting, merging, analysing, checking⟩
  constructor
  · obtain ⟨⟨⟩, merged, merging⟩ := (confined_mergePhase start).exists_ends
    obtain ⟨ingested, known⟩ := ingested_mergePhase ingesting merging
    obtain ⟨unclassified, analysed, analysing⟩ :=
      (confined_analysisPhase ingested known).exists_ends
    obtain ⟨dangling, first, checking⟩ := (confined_integrityPhase analysed).exists_ends
    have surveyed := ends_analysisPhase ingested known analysing
    have passed := passed merging analysing checking
    refine ⟨merged, unclassified, analysed, dangling, first, merging, analysing, checking,
      surveyed.workspace_provided, passed.linked.workspace_provided, ?_, ?_,
      fun modules last => exists_graph accepted passed⟩
    · intro path before analyses
      obtain ⟨-, read, found, opened⟩ := analyses.opened ingested known
      exact ⟨read, found, exists_exchanged opened⟩
    · intro path before reaches
      obtain ⟨script, found, -, -, -, resolved⟩ := reaches.resolved accepted
      exact ⟨script, found, resolved⟩
  · suffices confined : Confined (fun fault => fault.isInternal = false) (convert withGraph) start by
      intro fault last stops
      rcases (Stops.bind_iff _ _ _ _ _).mp stops with stops | ⟨corpus', between, ends, stops⟩
      · cases (show Ends _ _ _ _ from ingesting).symm.trans stops
      · obtain ⟨same, rfl⟩ := Prod.mk.inj (ingesting.symm.trans ends)
        cases same
        obtain ⟨workspace, stops, -⟩ := (Stops.onPart_iff _ _ _ _ _ _).mp stops
        exact confined fault workspace stops
    refine .bind (confined_mergePhase _) fun _ merged merging => ?_
    obtain ⟨ingested, known⟩ := ingested_mergePhase ingesting merging
    refine .bind (confined_analysisPhase ingested known) fun unclassified analysed analysing =>
      .bind .get fun _ _ ends => ?_
    obtain ⟨rfl, rfl⟩ := (Ends.get_iff _ _ _).mp ends
    refine .bind (confined_integrityPhase _) fun dangling first checking => ?_
    have passed := passed merging analysing checking
    refine .bind (confined_modulePhase accepted passed) fun modules last writing => ?_
    exact .bind (confined_entryPhase (exists_graph accepted passed writing)) fun _ _ _ =>
      .bind .get fun _ _ _ => .pure _

theorem conversion_safe_cyclicSources :
    ∃ corpus log', Ends (Corpus.ingest {} cyclicSources) [] corpus log' ∧
      ((∃ merged unclassified analysed dangling first,
        Ends mergePhase
          { Workspace.ofCorpus {} corpus with
            trace := readingTrace cyclicSources.length, log := log' } ⟨⟩ merged ∧
        Ends analysisPhase merged unclassified analysed ∧
        Ends integrityPhase analysed dangling first ∧
        Consistent {} cyclicSources merged analysed first) ∧
      ∀ fault last, Stops (run {} cyclicSources true) [] fault last → fault.isInternal = false) := by
  obtain ⟨report, final, ⟨corpus, log', ingesting, -⟩, -⟩ := ran_cyclicSources
  exact ⟨corpus, log', ingesting, conversion_safe Settings.accepted_standard ingesting true⟩

end Conversion

end ScriptModules
