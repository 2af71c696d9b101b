import ScriptModules.Proofs.Conversion.Growth
import ScriptModules.Proofs.Module.Locality

/-!
# Dropped files

A file that is dropped leaves no trace in the modules of the others and in the entry point if every name
that it shares with them is provided by one behind it, too (`modules_without_dropped`).

The corpora with and without the file keep the same files, which have the same owners. So the modules are
written in lockstep: each is written from the same script, in surroundings that agree in what it requires
(`Counterpart.agreeFor`), and behind it this holds again (`lockstep_writeFile`).
-/

namespace ScriptModules

open Dependency (scriptAt? requiredNames Requires Closed)

namespace Dependency

variable {index index' : Index} {scripts scripts' : List Script}

theorem requires_iff {source target : String} : Requires index scripts source target ↔
    ∃ name ∈ requiredNames scripts source, index.owner? name = some target := by
  unfold Requires requiredNames
  cases scriptAt? scripts source with
  | none => simp
  | some script => simp [mem_successors]

theorem Closed.of_requires {files : Set String} (closed : Closed (requiredNames scripts) index files)
    {source target : String} (member : source ∈ files)
    (required : Requires index scripts source target) : target ∈ files := by
  obtain ⟨name, needed, owned⟩ := requires_iff.mp required
  obtain ⟨owner, inside, owned'⟩ := closed source member name needed
  cases owned.symm.trans owned'
  exact inside

theorem reaches_congr {files : Set String} (closed : Closed (requiredNames scripts) index files)
    (same : ∀ source ∈ files, ∀ target,
      Requires index' scripts' source target ↔ Requires index scripts source target)
    {source : String} (member : source ∈ files) (target : String) :
    reaches index' scripts' source target = reaches index scripts source target := by
  have leads {first second : String → String → Prop}
      (step : ∀ source ∈ files, ∀ target, first source target → second source target ∧ target ∈ files)
      (path : Relation.TransGen first source target) : Relation.TransGen second source target := by
    induction path using Relation.TransGen.head_induction_on with
    | single required => exact .single (step _ member _ required).1
    | head required _ ih =>
        obtain ⟨required, inside⟩ := step _ member _ required
        exact .head required (ih inside)
  rw [Bool.eq_iff_iff, reaches_iff, reaches_iff]
  constructor
  · refine leads fun source member target required => ?_
    have required := (same source member target).mp required
    exact ⟨required, closed.of_requires member required⟩
  · exact leads fun source member target required =>
      ⟨(same source member target).mpr required, closed.of_requires member required⟩

end Dependency

theorem Surroundings.provides_numbered {around other : Surroundings} (live : other.live = around.live)
    (scripts : ∀ path ∈ around.live, ∃ script id, scriptAt? around.scripts path = some script ∧
      scriptAt? other.scripts path = some (script.numbered id)) (path name : String) :
    other.Provides path name ↔ around.Provides path name := by
  rw [Provides, Provides, live]
  refine and_congr_right fun member => ?_
  obtain ⟨script, id, found, found'⟩ := scripts path member
  rw [found, found']
  simp only [Option.some.injEq, exists_eq_left']
  rfl

/-- Workspaces with the same converted files: their scripts differ in the numbers at most, and the same
files own the names that they require. -/
structure Counterpart (before before' : Workspace) : Prop where
  settings : before'.settings = before.settings
  live : before'.live = before.live
  entry : before'.entry = before.entry
  scripts : ∀ path ∈ before.live, ∃ script id, scriptAt? before.scripts path = some script ∧
    scriptAt? before'.scripts path = some (script.numbered id)
  owners : ∀ path ∈ before.live, ∀ name ∈ requiredNames before.scripts path,
    before'.index.owner? name = before.index.owner? name

namespace Counterpart

variable {before before' after after' : Workspace}

theorem of_core (counterpart : Counterpart before before') (same : after.core = before.core)
    (same' : after'.core = before'.core) : Counterpart after after' where
  settings := by rw [Workspace.settings_eq same, Workspace.settings_eq same', counterpart.settings]
  live := by rw [Workspace.live_eq same, Workspace.live_eq same', counterpart.live]
  entry := by rw [Workspace.entry_eq same, Workspace.entry_eq same', counterpart.entry]
  scripts := by
    rw [Workspace.live_eq same, Workspace.scripts_eq same, Workspace.scripts_eq same']
    exact counterpart.scripts
  owners := by
    rw [Workspace.live_eq same, Workspace.scripts_eq same, Workspace.index_eq same,
      Workspace.index_eq same']
    exact counterpart.owners

theorem requires_iff (counterpart : Counterpart before before') {source : String}
    (live : source ∈ before.live) (target : String) :
    Requires before'.index before'.scripts source target ↔
      Requires before.index before.scripts source target := by
  obtain ⟨script, id, found, found'⟩ := counterpart.scripts source live
  rw [Dependency.requires_iff, Dependency.requires_iff,
    Dependency.requiredNames_numbered found found']
  refine exists_congr fun name => and_congr_right fun needed => ?_
  rw [counterpart.owners source live name needed]

theorem agreeFor (counterpart : Counterpart before before')
    (closed : Closed (requiredNames before.scripts) before.index {path | path ∈ before.live})
    {path : String} (live : path ∈ before.live) {script : Script}
    (found : scriptAt? before.scripts path = some script) :
    before.surroundings.AgreeFor before'.surroundings script where
  settings := counterpart.settings
  owners := fun name needed => by
    refine counterpart.owners path live name ?_
    rw [requiredNames, found]
    exact needed
  files := fun owner member => by
    have inside : owner ∈ before.live := closed.of_requires live ⟨script, found, member⟩
    obtain ⟨provider, id, there, there'⟩ := counterpart.scripts owner inside
    refine ⟨⟨provider, id, ?_, ?_⟩, fun target => Dependency.reaches_congr closed
      (fun source live target => counterpart.requires_iff live target) inside target⟩
    · rw [Draft.converted, show scriptAt? before.surroundings.scripts owner = _ from there]
      exact if_pos (List.contains_iff_mem.mpr inside)
    · rw [Draft.converted, show scriptAt? before'.surroundings.scripts owner = _ from there']
      exact if_pos (List.contains_iff_mem.mpr (counterpart.live.symm ▸ inside :
        owner ∈ before'.live))

theorem putScript (counterpart : Counterpart before before') {script old : Script}
    (found : scriptAt? before.scripts script.path = some old)
    (outline : script.outline = old.outline) (id : Nat) :
    Counterpart (before.putScript script) (before'.putScript (script.numbered id)) where
  settings := counterpart.settings
  live := counterpart.live
  entry := counterpart.entry
  scripts := fun path inside => by
    obtain ⟨other, number, here, here'⟩ := counterpart.scripts path inside
    by_cases own : path = script.path
    · subst own
      have there : scriptAt? before'.scripts (script.numbered id).path = _ := here'
      exact ⟨script, id, Dependency.scriptAt?_putScript_self here,
        Dependency.scriptAt?_putScript_self there⟩
    · have own' : path ≠ (script.numbered id).path := own
      refine ⟨other, number, ?_, ?_⟩
      · rw [Dependency.scriptAt?_putScript_of_ne before own, here]
      · rw [Dependency.scriptAt?_putScript_of_ne before' own', here']
  owners := fun path inside name needed => by
    refine counterpart.owners path inside name ?_
    exact (Surroundings.Alike.putScript found outline).requiredNames path ▸ needed

end Counterpart

/-! ## One file -/

namespace Work

variable {before before' : Workspace}

theorem lockstep_onDraft (counterpart : Counterpart before before') {path : String}
    {script : Script} (found : scriptAt? before.scripts path = some script) {id : Nat}
    (found' : scriptAt? before'.scripts path = some (script.numbered id)) {α : Type}
    {task other : Draft.Drafting α} (lockstep : Lockstep (Draft.Renumbered id) task { script }
      other { script := script.numbered id })
    (outline : ∀ value draft, Ends task { script } value draft →
      draft.script.outline = script.outline) :
    Lockstep Counterpart (onDraft path task) before (onDraft path other) before' := by
  intro value after ends
  obtain ⟨start, draft, here, drafted, same⟩ := ends_onDraft ends
  cases found.symm.trans here
  obtain ⟨draft', drafted', renumbered⟩ := lockstep value draft drafted
  have confined : Confined (fun _ => False) (onDraft path other) before' :=
    confined_onDraft found' (.of_ends drafted')
  obtain ⟨value', after', ends'⟩ := confined.exists_ends
  obtain ⟨start', draft'', here', drafted'', same'⟩ := ends_onDraft ends'
  cases found'.symm.trans here'
  obtain ⟨same_value, rfl⟩ := drafted'.unique drafted''
  rw [same_value] at ends'
  refine ⟨after', ends', Counterpart.of_core ?_ same same'⟩
  have shape := outline value draft drafted
  have path : draft.script.path = path :=
    (show draft.script.outline.path = script.outline.path from congrArg _ shape).trans
      (Dependency.path_of_scriptAt? found).2
  rw [renumbered.script]
  exact counterpart.putScript (path ▸ found) shape id

theorem lockstep_render (counterpart : Counterpart before before') (program : Tree.Node)
    (path : String) :
    Lockstep Counterpart (render program path) before (render program path) before' := by
  intro code after ends
  obtain ⟨code', after', ends'⟩ :=
    (confined_render program path before' : Confined (fun _ => False) _ _).exists_ends
  obtain ⟨rfl, same⟩ := ends_render ends
  obtain ⟨rfl, same'⟩ := ends_render ends'
  rw [counterpart.settings] at ends'
  exact ⟨after', ends', counterpart.of_core same same'⟩

end Work

namespace Conversion

open Work

variable {settings : Settings} {sources : Ledger String} {first first' before before' : Workspace}

theorem lockstep_writeFile (accepted : settings.Accepted)
    (linked : first.surroundings.Linked settings sources) {done : List String} {modules : List Module}
    (writing : Writing settings sources first done modules before) {path : String} (fresh : path ∉ done)
    (live : path ∈ first.live) (counterpart : Counterpart before before') :
    Lockstep Counterpart (writeFile path) before (writeFile path) before' := by
  obtain ⟨start, found, surveyed⟩ := linked.surveyed path live
  replace found : scriptAt? before.scripts path = some start := (writing.rest path fresh).trans found
  have given : before.surroundings.settings = settings := writing.alike.settings.trans linked.given
  rw [← show before.live = first.live from writing.alike.live] at live
  obtain ⟨script, id, here, found'⟩ := counterpart.scripts path live
  cases found.symm.trans here
  have agree := counterpart.agreeFor (writing.alike.closed linked.closed) live found
  have outline (written : Module) (draft : Draft)
      (ends : Ends (Draft.write before.surroundings) { script := start } written draft) :
      draft.script.outline = start.outline :=
    (write_made (by rwa [given]) (by rwa [given]) ends).2.1
  refine .bind ?_ fun written _ _ _ counterpart =>
    .bind (lockstep_render counterpart _ _) fun _ _ _ _ counterpart => .pure counterpart _
  refine .get_bind (.bind (lockstep_onDraft counterpart found found'
    (Draft.lockstep_write agree id) outline) fun written between between' drafted counterpart => ?_)
  obtain ⟨-, draft, -, -, same⟩ := ends_onDraft drafted
  rw [← show between.live = before.live from (Workspace.live_eq same).trans rfl] at live
  obtain ⟨provider, number, there, there'⟩ := counterpart.scripts path live
  exact .bind_of_ends (ends_scriptAt.mpr ⟨there, rfl⟩) (ends_scriptAt.mpr ⟨there', rfl⟩)
    (.bind (.onPart counterpart.entry fun entry => { counterpart with entry := rfl })
      fun _ _ _ _ counterpart => .pure counterpart written)

/-! ## All files -/

section

variable {sources' : Ledger String} {raw text path : String}
  (reads : Corpus.Reads settings (sources ++ sources') raw text path)
  (yields : Yields (provides settings (sources ++ sources')) path
    (((provides settings (sources ++ (raw, text) :: sources')).get? path).getD []))

include reads yields

/-- With a file that is dropped and takes over no name the same files are left as without it. -/
theorem left_of_dropped (passed : Passed settings (sources ++ sources') first)
    (passed' : Passed settings (sources ++ (raw, text) :: sources') first')
    (dropped : path ∉ first'.live) : first'.live = first.live ∧
      ∀ other ∈ first.live, ∃ script id, scriptAt? first.scripts other = some script ∧
        scriptAt? first'.scripts other = some (script.numbered id) := by
  obtain ⟨corpus, analysed, audited⟩ := passed.audited
  obtain ⟨larger, analysed', audited'⟩ := passed'.audited
  obtain ⟨larger', read, gains⟩ := Corpus.read?_gains reads audited.read
  cases audited'.read.symm.trans read
  have fresh := audited.fresh reads
  constructor
  · exact eq_of_ascending passed'.ordered.ascending_live passed.ordered.ascending_live fun other =>
      ⟨audited.subset_live audited' gains fresh dropped other,
        audited.live_subset audited' gains fresh yields other⟩
  · intro other member
    have inside := audited.left.1.1 other member
    rw [audited.scripts, audited'.scripts]
    exact (audited.shared audited' gains (audited.ne_of_live fresh inside) (.inl inside)).2

theorem counterpart_of_dropped (passed : Passed settings (sources ++ sources') first)
    (passed' : Passed settings (sources ++ (raw, text) :: sources') first')
    (dropped : path ∉ first'.live) : Counterpart first first' := by
  obtain ⟨live, scripts⟩ := left_of_dropped reads yields passed passed' dropped
  have linked := passed.linked
  have linked' := passed'.linked
  have provides (name other : String) :
      first'.surroundings.Provides other name ↔ first.surroundings.Provides other name :=
    Surroundings.provides_numbered live scripts other name
  refine ⟨linked'.given.trans linked.given.symm, live, passed'.opening.trans passed.opening.symm,
    scripts, fun other member name needed => ?_⟩
  obtain ⟨script, id, found, found'⟩ := scripts other member
  obtain ⟨owner, -, owned⟩ : ∃ owner ∈ first.live, first.index.owner? name = some owner :=
    linked.closed other member name needed
  obtain ⟨owner', -, owned'⟩ : ∃ owner ∈ first'.live, first'.index.owner? name = some owner := by
    rw [← Dependency.requiredNames_numbered found found'] at needed
    exact linked'.closed other (live.symm ▸ member : other ∈ first'.live) name needed
  rw [owned, owned', linked.owner_unique linked'.toOwning passed.ordered.ascending_live
    passed'.ordered.ascending_live (provides name) owned owned']

/-- A corpus with a file that is dropped and takes over no name is converted to the same modules and
the same entry point as the corpus without it. -/
theorem modules_without_dropped (accepted : settings.Accepted)
    {withGraph withGraph' : Bool} {log log' : List LogLine} {report report' : Report}
    {final final' : Workspace} (ran : Ran settings (sources ++ sources') withGraph log report final)
    (ran' : Ran settings (sources ++ (raw, text) :: sources') withGraph' log' report' final')
    (dropped : path ∈ report'.excluded.map ExcludedFile.path) :
    report'.modules = report.modules ∧ report'.entryCode = report.entryCode := by
  obtain ⟨first, phases⟩ := ran.phases
  obtain ⟨first', phases'⟩ := ran'.phases
  have lost : path ∉ first'.live := by
    obtain ⟨corpus, between, -, accounted⟩ := files_accounted accepted ran'
    rw [← (phases'.writing accepted).paths, ← names_outputs]
    exact fun survived => (List.nodup_append.mp accounted.distinct).2.2 path survived path dropped rfl
  have counterpart := counterpart_of_dropped reads yields phases.passed phases'.passed lost
  obtain ⟨start, last, started, ends, finished⟩ := phases.written
  obtain ⟨start', last', started', ends', finished'⟩ := phases'.written
  have linked := phases.passed.linked
  have lockstep : Lockstep Counterpart (first.live.mapM writeFile) start
      (first.live.mapM writeFile) start' := by
    refine .mapM ?_ (counterpart.of_core started started')
    intro done other todo modules between between' parts behind counterpart
    have ahead : done <+: first.live := parts ▸ List.prefix_append done _
    exact lockstep_writeFile accepted linked (writing_writeFiles linked accepted started ahead behind)
      (not_mem_behind linked.live parts) (by simp [parts]) counterpart
  obtain ⟨last'', ends'', related⟩ := lockstep report.modules last ends
  rw [counterpart.live] at ends'
  obtain ⟨modules, rfl⟩ := ends''.unique ends'
  refine ⟨modules, ?_⟩
  have related := related.of_core finished finished'
  rw [phases.entryCode, phases'.entryCode, related.entry, related.settings]

end

def sharedSources : Ledger String :=
  [("a.js", "THREE.A = 1;"), ("c.js", "THREE.A = 2;")]

def overtakenSources : Ledger String :=
  sharedSources.take 1 ++ ("b.js", "THREE.A = THREE.B;") :: sharedSources.drop 1

theorem evaluate_overtakenSources :
    ((evaluate {} sharedSources false).any fun (report, _) =>
      decide (report.outputs.names = ["./a.js", "./c.js"])) = true ∧
    ((evaluate {} overtakenSources false).any fun (report, _) =>
      decide ("./b.js" ∈ report.excluded.map ExcludedFile.path)) = true ∧
    (∀ name ∈ ((provides {} overtakenSources).get? "./b.js").getD [],
      ∀ entry ∈ provides {} sharedSources, name ∈ entry.2 →
        ∃ later ∈ provides {} sharedSources, "./b.js" < later.1 ∧ name ∈ later.2) ∧
    Path.normalize? "b.js" = some "./b.js" ∧
    (∀ other ∈ sharedSources.map Prod.fst, Path.normalize? other ≠ some "./b.js") ∧
    (Tree.Node.parse? "THREE.A = THREE.B;").isSome = true := by
  decide +kernel

theorem modules_without_dropped_overtakenSources : ∃ report final report' final',
    Ran {} sharedSources false [] report final ∧ report.outputs.names = ["./a.js", "./c.js"] ∧
      Ran {} overtakenSources false [] report' final' ∧
        report'.modules = report.modules ∧ report'.entryCode = report.entryCode := by
  obtain ⟨shared, overtaken, yields, normal, fresh, parsed⟩ := evaluate_overtakenSources
  obtain ⟨⟨report, final⟩, evaluated, names⟩ := (Option.any_eq_true _ _).mp shared
  obtain ⟨⟨report', final'⟩, evaluated', dropped⟩ := (Option.any_eq_true _ _).mp overtaken
  have reads : Corpus.Reads {} (sharedSources.take 1 ++ sharedSources.drop 1) "b.js"
      "THREE.A = THREE.B;" "./b.js" := ⟨normal, fresh, by decide, by decide, parsed⟩
  have ran := ran_of_evaluate evaluated
  have ran' := ran_of_evaluate evaluated'
  exact ⟨report, final, report', final', ran, of_decide_eq_true names, ran',
    modules_without_dropped reads yields Settings.accepted_standard ran ran'
      (of_decide_eq_true dropped)⟩

-- a file that takes a name over for good takes along the files that require the name
example : (evaluate {} [("a.js", "THREE.A = 1;"), ("c.js", "THREE.A;")] false).map
      (fun result => result.1.outputs.names) = some ["./a.js", "./c.js"] ∧
    (evaluate {} [("a.js", "THREE.A = 1;"), ("b.js", "THREE.A = THREE.B;"), ("c.js", "THREE.A;")]
      false).map (fun result => result.1.outputs.names) = some ["./a.js"] := by
  decide +kernel

end Conversion

end ScriptModules
