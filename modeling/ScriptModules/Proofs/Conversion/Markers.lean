import ScriptModules.Proofs.Analysis.Marker
import ScriptModules.Proofs.Conversion.Exclusion
import ScriptModules.Proofs.Conversion.Substitution
import ScriptModules.Proofs.Module.Placement

namespace ScriptModules

open ScriptModules.Tree
open Dependency (scriptAt?)

/-- A program marks a name that it exports, if a value of the kind may be a function. A function is
marked on the variable that is exported then. -/
def SetsMarker (program : Node) (name : String) : ProvideKind → Prop
  | .function => ∃ bound, [markerTree (.identifier bound) name,
      exportTree name (.identifier bound)].Sublist program.children
  | .other => guardedMarkerTree name ∈ program.children
  | _ => True

theorem Written.setsMarker {around : Surroundings} {start after : Script} {written : Module}
    (made : Written around start after written) {name : String} {provide : Provide}
    (found : start.provides.get? name = some provide) :
    SetsMarker written.program name provide.kind := by
  obtain ⟨bound, exports, exported, -, statements⟩ := made.exports
  have own : (provide.kind.exportOf name (bound name)).statements.Sublist
      written.program.children := by
    obtain ⟨early, late, parts⟩ := List.append_of_mem (Ledger.mem_of_get? found)
    rw [Module.children_program, statements, exported.written, parts]
    simp only [List.map_append, List.map_cons, List.flatMap_append, List.flatMap_cons]
    exact ((List.sublist_append_left _ _).trans (List.sublist_append_right _ _)).trans
      (List.sublist_append_right _ _)
  cases kind : provide.kind with
  | function =>
      rw [kind] at own
      exact ⟨bound name, own⟩
  | other =>
      rw [kind] at own
      exact own.subset (by simp [ProvideKind.exportOf])
  | object | array | literal => trivial

theorem LooksAt.place {tree : Node} {written : Module} {helper mark : String} {site : Position}
    (looks : LooksAt tree helper mark site) (program : tree.form = .program)
    (body : written.body = tree.children) :
    LooksAt written.program helper mark (written.place site) := by
  have inner : site ≠ [] := by
    rintro rfl
    have access : tree.form = .member := Option.some.inj looks.access
    rw [program] at access
    cases access
  have same (below : Position) {form : Form}
      (given : (tree.at? (site ++ below)).map Node.form = some form) :
      (written.program.at? (written.place site ++ below)).map Node.form = some form := by
    obtain ⟨node, here, rfl⟩ := Option.map_eq_some_iff.mp given
    rw [← written.place_append inner, Module.at?_place body (by simp [inner]) here]
    rfl
  have access := same [] (by simpa using looks.access)
  exact ⟨by simpa using access, same [0] looks.base, same [1] looks.key⟩

theorem Surroundings.Rewritten.sets {settings : Settings} {sources : Ledger String}
    {around : Surroundings} {modules : List Module}
    (rewritten : around.Rewritten settings sources modules) {name path : String}
    (owned : around.index.owner? name = some path) (other : path ≠ settings.rootPath) :
    ∃ target ∈ modules, target.path = path ∧ ∃ provider provide,
      scriptAt? around.scripts path = some provider ∧ provider.provides.get? name = some provide ∧
        SetsMarker target.program name provide.kind := by
  obtain ⟨live, provider, found, provides⟩ := rewritten.provided name path owned
  obtain ⟨target, member, rfl⟩ := rewritten.exists_module live
  obtain ⟨start, script, made⟩ := rewritten.made target member
  cases made.found.symm.trans found
  obtain ⟨provide, known⟩ := Ledger.exists_get?_of_mem_names provides
  have root : start.isRoot = false := by
    rw [made.surveyed.rooted, made.path_eq]
    simpa using other
  rw [made.provides_eq] at known
  exact ⟨target, member, rfl, provider, provide, found, made.provides_eq ▸ known,
    (made.other root).setsMarker known⟩

/-! ## Recorded checks -/

def Event.markedCheck? : Event → Option (String × String)
  | .typeChecked path type false => some (path, type)
  | _ => none

theorem Event.markedCheck?_eq_some {event : Event} {path type : String} :
    event.markedCheck? = some (path, type) ↔ event = .typeChecked path type false := by
  constructor
  · intro known
    unfold markedCheck? at known
    split at known
    · cases known
      rfl
    · cases known
  · rintro rfl
    rfl

/-- The analysis made a script of one in which it replaced a check against a type. -/
def Script.Checks (settings : Settings) (sources : Ledger String) (script : Script) (type : String) :
    Prop :=
  ∃ read checked events, read.Opened settings sources ∧
    TypeCheck.replace settings read = .ok (checked, events) ∧
    Access.classify settings checked = .ok (script, none) ∧
    .typeChecked script.path type false ∈ events

theorem Surroundings.Made.looks {settings : Settings} {sources : Ledger String}
    {around : Surroundings} (given : around.settings = settings) {start script : Script}
    {written : Module} (made : around.Made settings sources start script written) {type : String}
    (checks : start.Checks settings sources type) :
    ∃ helper site, LooksAt written.program helper ("is" ++ type) site := by
  obtain ⟨read, checked, events, opened, replaced, classified, event⟩ := checks
  have kept := TypeCheck.replace_checked opened.sound opened.taken replaced
  have program : checked.tree.form = .program := kept.form.trans opened.program
  obtain ⟨helper, site, other, looks⟩ :=
    TypeCheck.replace_looks opened.sound opened.taken replaced event
  have sameRoot : start.isRoot = checked.isRoot := by
    rw [Access.classify_same classified]
  refine ⟨helper, written.place site, ?_⟩
  cases root : start.isRoot with
  | true =>
      have tree : script.tree = checked.tree := by
        rw [(made.root root).2.2]
        exact Access.classify_root (sameRoot.symm.trans root) classified
      exact looks.place program (by rw [made.body, tree])
  | false =>
      have own := made.other root
      obtain ⟨bound, exports, exported, -, -⟩ := own.exports
      obtain ⟨provides, marked⟩ := Access.classify_classified (opened.unread_checked replaced)
        (sameRoot.symm.trans root) classified
      have named : ∀ p node, checked.tree.at? p = some node →
          Access.isAccess settings.globalName node = true → node.form = .member := by
        intro p node here access
        obtain ⟨visit, met, -, rfl⟩ := Access.exists_visit program here access
        have form := (Bool.and_eq_true_iff.mp access).1
        simpa [marked.named visit met] using form
      subst given
      exact (looks.substitutes kept.sound named other
        (own.substitutes program marked exported)).place own.form own.body

def Workspace.Recorded (settings : Settings) (sources : Ledger String) (workspace : Workspace) :
    Prop :=
  ∀ path type, (path, type) ∈ workspace.picked Event.markedCheck? → path ∈ workspace.live →
    ∃ script, scriptAt? workspace.scripts path = some script ∧ script.Checks settings sources type

namespace Conversion

open Surroundings

variable {settings : Settings} {sources : Ledger String} {before after : Workspace}

theorem mem_markedChecks {read checked : Script} {events : List Event}
    (replaced : TypeCheck.replace settings read = .ok (checked, events)) {path type : String}
    (member : (path, type) ∈ events.filterMap Event.markedCheck?) :
    path = read.path ∧ .typeChecked read.path type false ∈ events := by
  obtain ⟨event, inside, known⟩ := List.mem_filterMap.mp member
  rw [Event.markedCheck?_eq_some] at known
  subst known
  obtain ⟨check, same⟩ := TypeCheck.replace_events replaced _ inside
  obtain rfl : path = read.path := (Event.typeChecked.inj same).1
  exact ⟨rfl, inside⟩

theorem picked_analyzeFile {path : String} {files : List ExcludedFile}
    (ends : Ends (analyzeFile path) before files after) :
    ∃ read checked result exclusion? events, scriptAt? before.scripts path = some read ∧
      result.path = path ∧ TypeCheck.replace before.settings read = .ok (checked, events) ∧
      Access.classify before.settings checked = .ok (result, exclusion?) ∧
      after.core = (Work.settle before result exclusion?).core ∧
      after.picked Event.markedCheck? =
        before.picked Event.markedCheck? ++ events.filterMap Event.markedCheck? := by
  obtain ⟨exclusion?, between, analysed, ends⟩ := (Ends.bind_iff _ _ _ _ _).mp ends
  obtain ⟨read, checked, events, found, replaced, picked⟩ :=
    @Work.picked_analyze _ Event.markedCheck? (fun _ _ _ => rfl) _ _ _ _ analysed
  obtain ⟨read', result, found', ⟨checked', events', replaced', classified⟩, path, settled⟩ :=
    Work.ends_analyze analysed
  cases found.symm.trans found'
  cases replaced.symm.trans replaced'
  refine ⟨read, checked, result, exclusion?, events, found, path, replaced, classified, ?_⟩
  cases exclusion? with
  | none =>
      obtain ⟨-, rfl⟩ := (Ends.pure_iff _ _ _ _).mp ends
      exact ⟨settled, picked⟩
  | some exclusion =>
      simp only [Ends.bind_iff, Ends.pure_iff] at ends
      obtain ⟨file, _, excluded, -, rfl⟩ := ends
      refine ⟨(ends_exclude excluded).2.trans settled, Eq.trans ?_ picked⟩
      exact leaves_exclude (fun _ _ => rfl) _ _ _ _ _ excluded

theorem recorded_analyzeFile {paths done todo : List String} {path : String}
    {files : List ExcludedFile} (distinct : paths.Nodup) (parts : paths = done ++ path :: todo)
    (held : before.surroundings.Surveying settings sources paths done)
    (behind : ∀ entry ∈ before.picked Event.markedCheck?, entry.1 ∈ done)
    (recorded : before.Recorded settings sources)
    (ends : Ends (analyzeFile path) before files after) :
    (∀ entry ∈ after.picked Event.markedCheck?, entry.1 ∈ done ++ [path]) ∧
      after.Recorded settings sources := by
  obtain ⟨read, checked, result, exclusion?, events, found, rfl, replaced, classified, settled,
    picked⟩ := picked_analyzeFile ends
  have fresh := not_mem_behind distinct parts
  obtain ⟨-, read', found', opened, -⟩ := held.opened result.path (by simp [parts]) fresh
  cases found.symm.trans found'
  have given : before.settings = settings := held.given
  obtain ⟨-, own⟩ := Dependency.path_of_scriptAt? found
  have scripts : after.scripts = (before.putScript result).scripts :=
    (Workspace.scripts_eq settled).trans (Work.scripts_settle ..)
  rw [picked]
  constructor
  · rintro ⟨path, type⟩ member
    rcases List.mem_append.mp member with old | new
    · exact List.mem_append_left _ (behind _ old)
    · simp [(mem_markedChecks replaced new).1, own]
  · intro path type member live
    rw [picked] at member
    rw [Workspace.live_eq settled, Work.mem_live_settle] at live
    obtain ⟨live, kept⟩ := live
    rcases List.mem_append.mp member with old | new
    · -- the check is one of a file behind, which this step leaves alone
      have apart : path ≠ result.path := by
        rintro rfl
        exact fresh (behind _ old)
      rw [scripts, Dependency.scriptAt?_putScript_of_ne before apart]
      exact recorded path type old live
    · obtain ⟨rfl, inside⟩ := mem_markedChecks replaced new
      obtain rfl := kept own
      rw [own] at inside ⊢
      rw [scripts, Dependency.scriptAt?_putScript_self found]
      exact ⟨result, rfl, read, checked, events, opened, given ▸ replaced, given ▸ classified,
        inside⟩

theorem markedCheck?_phase (name detail : String) :
    (Event.phaseStart name detail).markedCheck? = none ∧ Event.phaseEnd.markedCheck? = none :=
  ⟨rfl, rfl⟩

theorem recorded_analysisPhase (ingested : before.surroundings.Ingested settings sources)
    (merged : ∀ path script, scriptAt? before.scripts path = some script →
      script.Merged settings sources)
    (fresh : before.picked Event.markedCheck? = []) {files : List ExcludedFile}
    (ends : Ends analysisPhase before files after) : after.Recorded settings sources := by
  obtain ⟨start, last, _, started, opened, analysed, -, same, quiet⟩ :=
    picked_analysisPhase markedCheck?_phase ends
  rw [← Workspace.surroundings_eq started] at ingested
  rw [← Workspace.scripts_eq started] at merged
  rw [← opened] at fresh
  unfold Workspace.Recorded
  rw [quiet, Workspace.live_eq same, Workspace.scripts_eq same]
  refine (Ends.mapM_invariant (fun done _ (workspace : Workspace) =>
    workspace.surroundings.Surveying settings sources start.live done ∧
      (∀ entry ∈ workspace.picked Event.markedCheck?, entry.1 ∈ done) ∧
        workspace.Recorded settings sources) ?_ analysed
    ⟨ingested.surveying merged, by simp [fresh], by simp [Workspace.Recorded, fresh]⟩).2.2
  rintro done path todo _ before _ after parts ⟨held, behind, recorded⟩ ends
  exact ⟨surveying_analyzeFile ingested.live parts held ends,
    recorded_analyzeFile ingested.live parts held behind recorded ends⟩

/-- What a report and the scripts at the end say about the checks against a type in the file with a
path. -/
structure Marked (settings : Settings) (report : Report) (scripts : List Script) (written : Module)
    (type : String) : Prop where
  looks : ∃ helper site, LooksAt written.program helper ("is" ++ type) site
  sets : ∀ path, report.index.owner? type = some path → path ≠ settings.rootPath →
    ∃ target ∈ report.modules, target.1.path = path ∧ ∃ provider provide,
      scriptAt? scripts path = some provider ∧ provider.provides.get? type = some provide ∧
        SetsMarker target.1.program type provide.kind

/-- A check against a type that is recorded for a file is replaced in its module by a look at the
marker of the type, and the module of the owner sets the marker. -/
theorem checks_marked (accepted : settings.Accepted) {withGraph : Bool} {log : List LogLine}
    {report : Report} {final : Workspace} (ran : Ran settings sources withGraph log report final) :
    ∀ written ∈ report.modules, ∀ type,
      .typeChecked written.1.path type false ∈ report.trace.entries.map TraceEntry.event →
        Marked settings report final.scripts written.1 type := by
  obtain ⟨rewritten, index⟩ := ran.rewritten accepted
  obtain ⟨corpus, log', merged, unclassified, analysed, dangling, first, ingesting, merging, analysing,
    checking, writing, -, -, traced, quiet⟩ := ran.stages accepted
  intro written member type event
  obtain ⟨ingested, known⟩ := ingested_mergePhase ingesting merging
  have fresh : merged.picked Event.markedCheck? = [] :=
    leaves_mergePhase markedCheck?_phase _ _ _ merging
  have recorded := recorded_analysisPhase ingested known fresh analysing
  have surveyed := ends_analysisPhase ingested known analysing
  obtain ⟨excludes, kept, -⟩ := excludes_integrityPhase surveyed.live checking
  -- no check is recorded behind the analysis
  have picked : (written.1.path, type) ∈ analysed.picked Event.markedCheck? := by
    rw [← leaves_integrityPhase markedCheck?_phase (fun _ _ => rfl) _ _ _ checking,
      ← quiet markedCheck?_phase (fun _ _ _ _ => rfl)]
    obtain ⟨entry, inside, same⟩ := List.mem_map.mp event
    exact List.mem_filterMap.mpr ⟨entry, traced ▸ inside, Event.markedCheck?_eq_some.mpr same⟩
  have inside : written.1 ∈ report.modules.map Prod.fst := List.mem_map_of_mem member
  have live : written.1.path ∈ first.live := by
    rw [← writing.paths]
    exact List.mem_map_of_mem inside
  obtain ⟨script, found, checks⟩ := recorded _ _ picked (excludes.order.subset live)
  obtain ⟨script', after, found', made⟩ := writing.made written.1 inside
  rw [kept] at found'
  cases found.symm.trans found'
  refine ⟨made.looks rewritten.given checks, fun path owned other => ?_⟩
  rw [index] at owned
  obtain ⟨target, into, same, sets⟩ := rewritten.sets owned other
  obtain ⟨target', into', rfl⟩ := List.mem_map.mp into
  exact ⟨target', into', same, sets⟩

def checkedSources (owner : String) : Ledger String :=
  [(owner, "THREE.A = function () \x7b\x7d;"),
    ("b.js", "THREE.B = function (x) \x7b return x instanceof THREE.A; \x7d;")]

/-- A check against a function of the global object is recorded for a file, and the index leads from
the function to another file. -/
def Checked (report : Report) (scripts : List Script) (path type owner : String) : Prop :=
  .typeChecked path type false ∈ report.trace.entries.map TraceEntry.event ∧
    report.index.owner? type = some owner ∧
    ((scriptAt? scripts owner).bind fun provider => provider.provides.get? type).map Provide.kind =
      some .function

instance (report : Report) (scripts : List Script) (path type owner : String) :
    Decidable (Checked report scripts path type owner) :=
  inferInstanceAs (Decidable (_ ∧ _ ∧ _))

theorem evaluate_checkedSources : ((evaluate {} (checkedSources "a.js") false).any
    fun (report, final) => decide (Checked report final.scripts "./b.js" "A" "./a.js" ∧
      ∃ written ∈ report.modules, written.1.path = "./b.js")) = true := by
  decide +kernel

theorem checks_marked_checkedSources : ∃ report final written,
    Ran {} (checkedSources "a.js") false [] report final ∧ written ∈ report.modules ∧
      Checked report final.scripts written.1.path "A" "./a.js" ∧
      Marked {} report final.scripts written.1 "A" := by
  obtain ⟨⟨report, final⟩, evaluated, holds⟩ := (Option.any_eq_true _ _).mp evaluate_checkedSources
  obtain ⟨checked, written, member, path⟩ := of_decide_eq_true holds
  have ran := ran_of_evaluate evaluated
  rw [← path] at checked
  exact ⟨report, final, written, ran, member, checked,
    checks_marked Settings.accepted_standard ran written member "A" checked.1⟩

theorem evaluate_root_checkedSources : ((evaluate {} (checkedSources "Three.js") false).any
    fun (report, final) => decide (Checked report final.scripts "./b.js" "A" "./Three.js" ∧
      (report.modules.map fun written => written.1.path) = ["./Three.js", "./b.js"] ∧
      ∀ target ∈ report.modules, target.1.path = "./Three.js" →
        ∀ child ∈ target.1.program.children,
          (child.at? [0, 0, 1]).map Node.form ≠ some (.propertyName ("is" ++ "A")))) = true := by
  decide +kernel

/-- The module of the file that creates the global object sets no marker. -/
theorem root_unmarked : ∃ report final,
    Ran {} (checkedSources "Three.js") false [] report final ∧
      Checked report final.scripts "./b.js" "A" "./Three.js" ∧
      (report.modules.map fun written => written.1.path) = ["./Three.js", "./b.js"] ∧
      ∀ target ∈ report.modules, target.1.path = "./Three.js" →
        ¬SetsMarker target.1.program "A" .function := by
  obtain ⟨⟨report, final⟩, evaluated, holds⟩ :=
    (Option.any_eq_true _ _).mp evaluate_root_checkedSources
  obtain ⟨checked, live, unmarked⟩ := of_decide_eq_true holds
  refine ⟨report, final, ran_of_evaluate evaluated, checked, live, fun target member path => ?_⟩
  rintro ⟨bound, statements⟩
  exact unmarked target member path _ (statements.subset List.mem_cons_self) rfl

end Conversion

end ScriptModules
