import ScriptModules.Proofs.Conversion.Merging
import ScriptModules.Proofs.Corpus.Ingest

namespace ScriptModules

open Dependency (scriptAt?)

/-! ## What is known of the files -/

/-- A script that the analysis starts from: it was read, and the shader chunks were added to their
table. -/
def Script.Merged (settings : Settings) (sources : Ledger String) (script : Script) : Prop :=
  ∃ log corpus log' merged, Ends (Corpus.ingest settings sources) log corpus log' ∧
    Ends Conversion.mergePhase
      { Workspace.ofCorpus settings corpus with
        trace := Conversion.readingTrace sources.length, log := log' } ⟨⟩ merged ∧
    scriptAt? merged.scripts script.path = some script

structure Script.Surveyed (settings : Settings) (sources : Ledger String) (script : Script) : Prop
    extends Access.Analysed settings script, Script.Filed settings sources script where
  origin : ∃ read : Script, read.Opened settings sources ∧ read.Merged settings sources ∧
    read.Becomes settings script none

theorem Script.Opened.unread_checked {settings : Settings} {sources : Ledger String}
    {read checked : Script} {events : List Event} (opened : read.Opened settings sources)
    (replaced : TypeCheck.replace settings read = .ok (checked, events)) :
    Access.Unread checked where
  sound := (TypeCheck.replace_checked opened.sound opened.taken replaced).sound
  taken := (TypeCheck.replace_checked opened.sound opened.taken replaced).taken
  provides := by
    rw [TypeCheck.replace_same replaced]
    exact opened.provides
  requires := by
    rw [TypeCheck.replace_same replaced]
    exact opened.requires

theorem Script.Opened.surveyed {settings : Settings} {sources : Ledger String}
    {read result : Script} (opened : read.Opened settings sources)
    (merged : read.Merged settings sources) (becomes : read.Becomes settings result none) :
    result.Surveyed settings sources := by
  have same := becomes.same
  have ⟨checked, events, replaced, classified⟩ := becomes
  have kept := TypeCheck.replace_checked opened.sound opened.taken replaced
  have helpers : ∀ helper ∈ checked.helpers, TypeCheck.IsHelperDeclaration settings helper := by
    obtain ⟨more, whole, declared, -⟩ := kept.helpers
    rw [whole, opened.helpers]
    exact declared
  obtain ⟨analysed, form⟩ :=
    Access.classify_analysed (opened.unread_checked replaced) helpers classified
  have path : result.path = read.path := by rw [same]
  exact
    { analysed with
      rooted := by rw [path, ← opened.rooted, same]
      ends := path ▸ opened.ends
      source := path ▸ opened.source
      program := form.trans (kept.form.trans opened.program)
      origin := ⟨read, opened, merged, becomes⟩ }

namespace Surroundings

structure Ingested (settings : Settings) (sources : Ledger String) (around : Surroundings) : Prop
    where
  given : around.settings = settings
  unique : (around.scripts.map Script.path).Nodup
  live : around.live.Nodup
  opened : ∀ path ∈ around.live, ∃ script, scriptAt? around.scripts path = some script ∧
    script.Opened settings sources
  index : around.index = {}

/-- The index leads from a name to the last live file that provides it. -/
structure Owning (around : Surroundings) : Prop where
  distinct : around.index.owners.names.Nodup
  provided : ∀ name path, around.index.owner? name = some path → path ∈ around.live ∧
    ∃ script, scriptAt? around.scripts path = some script ∧ name ∈ script.provides.names
  last : ∀ name path, around.index.owner? name = some path →
    ∀ other, [path, other].Sublist around.live →
      ∀ script, scriptAt? around.scripts other = some script → name ∉ script.provides.names

structure Surveyed (settings : Settings) (sources : Ledger String) (around : Surroundings) : Prop
    extends around.Owning where
  given : around.settings = settings
  unique : (around.scripts.map Script.path).Nodup
  live : around.live.Nodup
  surveyed : ∀ path ∈ around.live, ∃ script, scriptAt? around.scripts path = some script ∧
    script.Surveyed settings sources

/-- Some of the files that were live at first are analysed; the others wait as they were read. -/
structure Surveying (settings : Settings) (sources : Ledger String) (paths done : List String)
    (around : Surroundings) : Prop extends around.Owning where
  given : around.settings = settings
  unique : (around.scripts.map Script.path).Nodup
  live : around.live.Sublist paths
  opened : ∀ path ∈ paths, path ∉ done → path ∈ around.live ∧
    ∃ script, scriptAt? around.scripts path = some script ∧ script.Opened settings sources ∧
      script.Merged settings sources
  surveyed : ∀ path ∈ around.live, path ∈ done → ∃ script,
    scriptAt? around.scripts path = some script ∧ script.Surveyed settings sources
  behind : ∀ name path, around.index.owner? name = some path → path ∈ done

end Surroundings

open Surroundings

/-! ## One file -/

namespace Surroundings

variable {settings : Settings} {sources : Ledger String} {paths done todo : List String}
  {workspace : Workspace} {script result : Script}

theorem Surveying.not_owner (held : workspace.surroundings.Surveying settings sources paths done)
    {path : String} (fresh : path ∉ done) (name : String) :
    workspace.index.owner? name ≠ some path :=
  fun owned => fresh (held.behind name path owned)

theorem Surveying.drop (held : workspace.surroundings.Surveying settings sources paths done)
    (fresh : result.path ∉ done) :
    ((workspace.putScript result).drop result.path).surroundings.Surveying settings sources paths
      (done ++ [result.path]) := by
  have elsewhere {path : String} (other : path ≠ result.path) :=
    Dependency.scriptAt?_putScript_of_ne workspace other
  have kept {path : String} : path ∈ ((workspace.putScript result).drop result.path).live ↔
      path ∈ workspace.live ∧ path ≠ result.path := by
    simp [Workspace.drop, Workspace.putScript]
  have less : ((workspace.putScript result).drop result.path).live.Sublist workspace.live :=
    List.filter_sublist
  refine
    { given := held.given
      unique := (workspace.path_putScript result).symm ▸ held.unique
      live := less.trans held.live
      distinct := held.distinct
      provided := ?_
      last := ?_
      opened := ?_
      surveyed := ?_
      behind := fun name path owned => List.mem_append_left _ (held.behind name path owned) }
  · intro name path owned
    obtain ⟨live, script, found, provides⟩ := held.provided name path owned
    have other : path ≠ result.path := by
      rintro rfl
      exact held.not_owner fresh name owned
    exact ⟨kept.mpr ⟨live, other⟩, script, (elsewhere other).trans found, provides⟩
  · intro name path owned other later script found
    obtain ⟨-, distinct⟩ := kept.mp (later.subset (List.mem_cons_of_mem _ List.mem_cons_self))
    exact held.last name path owned other (later.trans less) script
      ((elsewhere distinct).symm.trans found)
  · intro path member outside
    obtain ⟨outside, other⟩ := not_or.mp (mt List.mem_append.mpr outside)
    rw [List.mem_singleton] at other
    obtain ⟨live, script, found, waits⟩ := held.opened path member outside
    exact ⟨kept.mpr ⟨live, other⟩, script, (elsewhere other).trans found, waits⟩
  · intro path live member
    obtain ⟨live, other⟩ := kept.mp live
    have behind := (List.mem_append.mp member).resolve_right (mt List.mem_singleton.mp other)
    obtain ⟨script, found, surveyed⟩ := held.surveyed path live behind
    exact ⟨script, (elsewhere other).trans found, surveyed⟩

theorem Surveying.owning_register
    (held : workspace.surroundings.Surveying settings sources paths done)
    (distinct : paths.Nodup) (parts : paths = done ++ result.path :: todo)
    (found : scriptAt? workspace.scripts result.path = some script) :
    Owning { (workspace.putScript result).surroundings with
      index := workspace.index.registerAll result.path result.provides.names } := by
  have elsewhere {path : String} (other : path ≠ result.path) :=
    Dependency.scriptAt?_putScript_of_ne workspace other
  have here := Dependency.scriptAt?_putScript_self found
  have fresh := not_mem_behind distinct parts
  refine ⟨Index.nodup_registerAll held.distinct _ _, ?_, ?_⟩
  · intro name path owner
    rcases Index.owner?_registerAll_eq_some owner with ⟨rfl, provides⟩ | ⟨-, owner⟩
    · exact ⟨(held.opened result.path (by simp [parts]) fresh).1, result, here, provides⟩
    · obtain ⟨live, script, found, provides⟩ := held.provided name path owner
      have other : path ≠ result.path := by
        rintro rfl
        exact held.not_owner fresh name owner
      exact ⟨live, script, (elsewhere other).trans found, provides⟩
  · intro name path owner other later script found
    rcases Index.owner?_registerAll_eq_some owner with ⟨rfl, provides⟩ | ⟨unprovided, owner⟩
    · -- the files behind this one wait, so they provide nothing yet
      have ahead := mem_ahead distinct parts (later.trans held.live)
      have waits : other ∉ done ++ [result.path] := by
        rw [parts, List.append_cons] at distinct
        exact fun behind => (List.nodup_append.mp distinct).2.2 other behind other ahead rfl
      obtain ⟨waits, apart⟩ := not_or.mp (mt List.mem_append.mpr waits)
      obtain ⟨-, script', found', opened, -⟩ :=
        held.opened other (by rw [parts]; simp [ahead]) waits
      cases ((elsewhere (by simpa using apart)).symm.trans found).symm.trans found'
      simp [opened.provides]
    · by_cases own : other = result.path
      · subst own
        cases here.symm.trans found
        exact unprovided
      · exact held.last name path owner other later script ((elsewhere own).symm.trans found)

theorem Surveying.register (held : workspace.surroundings.Surveying settings sources paths done)
    (distinct : paths.Nodup) (parts : paths = done ++ result.path :: todo)
    (found : scriptAt? workspace.scripts result.path = some script)
    (surveyed : result.Surveyed settings sources) :
    Surveying settings sources paths (done ++ [result.path])
      { (workspace.putScript result).surroundings with
        index := workspace.index.registerAll result.path result.provides.names } := by
  have elsewhere {path : String} (other : path ≠ result.path) :=
    Dependency.scriptAt?_putScript_of_ne workspace other
  have here := Dependency.scriptAt?_putScript_self found
  refine
    { held.owning_register distinct parts found with
      given := held.given
      unique := (workspace.path_putScript result).symm ▸ held.unique
      live := held.live
      opened := ?_
      surveyed := ?_
      behind := ?_ }
  · intro path member outside
    obtain ⟨outside, other⟩ := not_or.mp (mt List.mem_append.mpr outside)
    rw [List.mem_singleton] at other
    obtain ⟨live, script, found, waits⟩ := held.opened path member outside
    exact ⟨live, script, (elsewhere other).trans found, waits⟩
  · intro path live member
    by_cases own : path = result.path
    · subst own
      exact ⟨result, here, surveyed⟩
    · have behind := (List.mem_append.mp member).resolve_right (mt List.mem_singleton.mp own)
      obtain ⟨script, found, surveyed⟩ := held.surveyed path live behind
      exact ⟨script, (elsewhere own).trans found, surveyed⟩
  · intro name path owner
    rcases Index.owner?_registerAll_eq_some owner with ⟨rfl, -⟩ | ⟨-, owner⟩
    · simp
    · exact List.mem_append_left _ (held.behind name path owner)

theorem Ingested.surveying {around : Surroundings} (ingested : around.Ingested settings sources)
    (merged : ∀ path script, scriptAt? around.scripts path = some script →
      script.Merged settings sources) :
    around.Surveying settings sources around.live [] where
  given := ingested.given
  unique := ingested.unique
  live := .refl _
  distinct := by
    rw [ingested.index]
    exact List.nodup_nil
  provided := by
    rw [ingested.index]
    intro name path owned
    cases owned
  last := by
    rw [ingested.index]
    intro name path owned
    cases owned
  opened := fun path live _ => by
    obtain ⟨script, found, opened⟩ := ingested.opened path live
    exact ⟨live, script, found, opened, merged path script found⟩
  surveyed := fun _ _ none => by cases none
  behind := by
    rw [ingested.index]
    intro name path owned
    cases owned

theorem Surveying.finish {around : Surroundings} (distinct : paths.Nodup)
    (held : around.Surveying settings sources paths paths) :
    around.Surveyed settings sources where
  distinct := held.distinct
  provided := held.provided
  last := held.last
  given := held.given
  unique := held.unique
  live := held.live.nodup distinct
  surveyed := fun path live => held.surveyed path live (held.live.subset live)

end Surroundings

/-! ## The phases -/

namespace Conversion

variable {settings : Settings} {sources : Ledger String} {before after : Workspace}

theorem ends_mergeChunks {count : Nat} (ends : Ends Work.mergeChunks before count after) :
    after.core = before.core ∨ ∃ script ∈ before.scripts, ∃ tree,
      Chunks.Keeps script.tree tree ∧
        after.core = (before.putScript { script with tree }).core := by
  rcases mergeChunks_cases before with ⟨script, tree, found, -, table, added, merged⟩ | ⟨-, log, merged⟩
  · obtain ⟨-, rfl⟩ := merged.unique ends
    have member := List.mem_of_mem_filter (Dependency.path_of_scriptAt? found).1
    exact .inr ⟨script, member, tree, Chunks.addAll_keeps table added, rfl⟩
  · obtain ⟨-, rfl⟩ := merged.unique ends
    exact .inl rfl

theorem mergePhase_core {value : Unit} (ends : Ends mergePhase before value after) :
    ∃ start last count, start.core = before.core ∧ Ends Work.mergeChunks start count last ∧
      after.core = last.core := by
  simp only [mergePhase, Ends.bind_iff, Ends.get_iff] at ends
  obtain ⟨_, before, ⟨rfl, rfl⟩, ends⟩ := ends
  obtain ⟨start, last, started, ends, finished⟩ := ends_phase ends
  obtain ⟨count, between, merged, ends⟩ := (Ends.bind_iff _ _ _ _ _).mp ends
  refine ⟨start, between, count, started, merged, finished.trans ?_⟩
  split at ends
  · exact Work.core_note ends
  · rw [((Ends.pure_iff _ _ _ _).mp ends).2]

theorem entry_mergePhase {value : Unit} (ends : Ends mergePhase before value after) :
    after.entry = before.entry := by
  obtain ⟨start, last, count, started, merged, finished⟩ := mergePhase_core ends
  rw [Workspace.entry_eq finished, ← Workspace.entry_eq started]
  rcases ends_mergeChunks merged with unchanged | ⟨script, -, tree, -, changed⟩
  · exact Workspace.entry_eq unchanged
  · exact (Workspace.entry_eq changed).trans rfl

theorem ends_mergePhase {value : Unit} (ingested : before.surroundings.Ingested settings sources)
    (ends : Ends mergePhase before value after) :
    after.surroundings.Ingested settings sources := by
  obtain ⟨start, last, count, started, merged, finished⟩ := mergePhase_core ends
  rw [← Workspace.surroundings_eq started] at ingested
  rw [Workspace.surroundings_eq finished]
  rcases ends_mergeChunks merged with unchanged | ⟨script, member, tree, keeps, changed⟩
  · rw [Workspace.surroundings_eq unchanged]
    exact ingested
  · rw [Workspace.surroundings_eq changed]
    refine
      { given := ingested.given
        unique := (Workspace.path_putScript start _).symm ▸ ingested.unique
        live := ingested.live
        opened := fun path live => ?_
        index := ingested.index }
    obtain ⟨other, found, opened⟩ := ingested.opened path live
    have here := Dependency.scriptAt?_of_mem ingested.unique member
    by_cases own : path = script.path
    · subst own
      cases here.symm.trans found
      refine ⟨{ script with tree }, Dependency.scriptAt?_putScript_self found, ?_⟩
      exact
        { opened with
          sound := keeps.sound opened.sound
          taken := fun name member => opened.taken name (keeps.names name member)
          program := keeps.form.trans opened.program }
    · refine ⟨other, ?_, opened⟩
      exact (Dependency.scriptAt?_putScript_of_ne start (by exact own)).trans found

theorem ends_analyzeFile {path : String} {files : List ExcludedFile}
    (ends : Ends (analyzeFile path) before files after) :
    ∃ exclusion? between, Ends (Work.analyze path) before exclusion? between ∧
      files = exclusion?.toList.map (fun exclusion => { path, reason := exclusion.reason }) ∧
        after.core = between.core := by
  obtain ⟨exclusion?, between, analysed, ends⟩ := (Ends.bind_iff _ _ _ _ _).mp ends
  refine ⟨exclusion?, between, analysed, ?_⟩
  split at ends
  · simp only [Ends.bind_iff, Ends.pure_iff] at ends
    obtain ⟨_, _, excluded, rfl, rfl⟩ := ends
    obtain ⟨rfl, same⟩ := ends_exclude excluded
    exact ⟨rfl, same⟩
  · obtain ⟨rfl, rfl⟩ := (Ends.pure_iff _ _ _ _).mp ends
    exact ⟨rfl, rfl⟩

theorem surveying_analyzeFile {paths done todo : List String} {path : String}
    {files : List ExcludedFile} (distinct : paths.Nodup) (parts : paths = done ++ path :: todo)
    (held : before.surroundings.Surveying settings sources paths done)
    (ends : Ends (analyzeFile path) before files after) :
    after.surroundings.Surveying settings sources paths (done ++ [path]) := by
  obtain ⟨exclusion?, between, analysed, -, same⟩ := ends_analyzeFile ends
  obtain ⟨read, result, found, becomes, rfl, settled⟩ := Work.ends_analyze analysed
  have fresh := not_mem_behind distinct parts
  obtain ⟨-, read', found', opened, merged⟩ :=
    held.opened result.path (by simp [parts]) fresh
  cases found.symm.trans found'
  rw [Workspace.surroundings_eq (same.trans settled)]
  cases exclusion? with
  | some exclusion => exact held.drop fresh
  | none =>
      refine held.register distinct parts found (opened.surveyed merged ?_)
      rw [← show before.settings = settings from held.given]
      exact becomes

theorem analysisPhase_core {files : List ExcludedFile}
    (ends : Ends analysisPhase before files after) :
    ∃ (start last : Workspace) (excluded : List (List ExcludedFile)), start.core = before.core ∧
      Ends (start.live.mapM analyzeFile) start excluded last ∧ after.core = last.core := by
  obtain ⟨start, last, started, ends, finished⟩ := ends_phase ends
  simp only [Ends.bind_iff, Ends.get_iff, Ends.pure_iff] at ends
  obtain ⟨_, start, ⟨rfl, rfl⟩, excluded, _, analysed, _, between, ⟨rfl, rfl⟩, _, _, noted, -,
    rfl⟩ := ends
  exact ⟨start, between, excluded, started, analysed, finished.trans (Work.core_note noted)⟩

theorem entry_analysisPhase {files : List ExcludedFile}
    (ends : Ends analysisPhase before files after) : after.entry = before.entry := by
  obtain ⟨start, last, _, started, analysed, finished⟩ := analysisPhase_core ends
  rw [Workspace.entry_eq finished, ← Workspace.entry_eq started]
  refine Ends.mapM_invariant (fun _ _ (workspace : Workspace) => workspace.entry = start.entry) ?_
    analysed rfl
  intro _ _ _ _ _ _ _ _ same ends
  obtain ⟨exclusion?, between, analysed, -, quiet⟩ := ends_analyzeFile ends
  obtain ⟨read, result, -, -, -, settled⟩ := Work.ends_analyze analysed
  rw [Workspace.entry_eq (quiet.trans settled), ← same]
  cases exclusion? <;> rfl

theorem surveying_analyzeFiles (ingested : before.surroundings.Ingested settings sources)
    (merged : ∀ path script, scriptAt? before.scripts path = some script →
      script.Merged settings sources) {done : List String} (ahead : done <+: before.live)
    {files : List (List ExcludedFile)} (ends : Ends (done.mapM analyzeFile) before files after) :
    after.surroundings.Surveying settings sources before.live done := by
  obtain ⟨last, whole⟩ := ahead
  refine Ends.mapM_invariant (fun done _ (workspace : Workspace) =>
    workspace.surroundings.Surveying settings sources before.live done) ?_ ends
      (ingested.surveying merged)
  intro behind path todo _ between _ after parts held ends
  have parts' : before.live = behind ++ path :: (todo ++ last) := by
    rw [← whole, parts, List.append_assoc]
    rfl
  exact surveying_analyzeFile ingested.live parts' held ends

theorem ends_analysisPhase {files : List ExcludedFile}
    (ingested : before.surroundings.Ingested settings sources)
    (merged : ∀ path script, scriptAt? before.scripts path = some script →
      script.Merged settings sources)
    (ends : Ends analysisPhase before files after) :
    after.surroundings.Surveyed settings sources := by
  obtain ⟨start, last, _, started, analysed, finished⟩ := analysisPhase_core ends
  rw [← Workspace.surroundings_eq started] at ingested
  rw [← Workspace.scripts_eq started] at merged
  rw [Workspace.surroundings_eq finished]
  exact (surveying_analyzeFiles ingested merged (List.prefix_refl _) analysed).finish ingested.live

end Conversion

end ScriptModules
