import ScriptModules.Proofs.Conversion.Exclusion

namespace ScriptModules

open Dependency (scriptAt?)

namespace Dependency

def numberAt? (scripts : List Script) (path : String) : Option Nat :=
  (scriptAt? scripts path).map Script.id

theorem numberAt?_of_mem {scripts : List Script} (distinct : (scripts.map Script.path).Nodup)
    {script : Script} (member : script ∈ scripts) :
    numberAt? scripts script.path = some script.id := by
  rw [numberAt?, scriptAt?_of_mem distinct member, Option.map_some]

theorem eq_of_numberAt? {scripts : List Script} (numbered : (scripts.map Script.id).Nodup)
    {path other : String} {number : Nat} (here : numberAt? scripts path = some number)
    (there : numberAt? scripts other = some number) : path = other := by
  obtain ⟨script, found, rfl⟩ := Option.map_eq_some_iff.mp here
  obtain ⟨script', found', same⟩ := Option.map_eq_some_iff.mp there
  obtain ⟨member, rfl⟩ := path_of_scriptAt? found
  obtain ⟨member', rfl⟩ := path_of_scriptAt? found'
  rw [List.inj_on_of_nodup_map numbered member member' same.symm]

end Dependency

/-! ## Paths and numbers -/

structure SameFiles (before after : Workspace) : Prop where
  paths : after.scripts.map Script.path = before.scripts.map Script.path
  numbers : after.scripts.map Script.id = before.scripts.map Script.id

namespace SameFiles

variable {before between after : Workspace}

theorem of_scripts (same : after.scripts = before.scripts) : SameFiles before after :=
  ⟨by rw [same], by rw [same]⟩

theorem of_core (same : after.core = before.core) : SameFiles before after :=
  of_scripts (Workspace.scripts_eq same)

theorem trans (first : SameFiles before between) (second : SameFiles between after) :
    SameFiles before after :=
  ⟨second.paths.trans first.paths, second.numbers.trans first.numbers⟩

theorem putScript (unique : (before.scripts.map Script.path).Nodup) {script old : Script}
    (found : scriptAt? before.scripts script.path = some old) (same : script.id = old.id) :
    SameFiles before (before.putScript script) where
  paths := before.path_putScript script
  numbers := by
    rw [Workspace.putScript, List.map_map]
    refine List.map_congr_left fun other member => ?_
    by_cases own : other.path = script.path
    · have here := Dependency.scriptAt?_of_mem unique member
      rw [own, found, Option.some.injEq] at here
      subst here
      simp [own, same]
    · simp [own]

end SameFiles

theorem Surroundings.Alike.sameFiles {before after : Workspace}
    (alike : before.surroundings.Alike after.surroundings)
    (unique : (before.scripts.map Script.path).Nodup)
    (paths : after.scripts.map Script.path = before.scripts.map Script.path) :
    SameFiles before after := by
  have number (path : String) : Dependency.numberAt? after.scripts path =
      Dependency.numberAt? before.scripts path := by
    have same := congrArg (Option.map Script.id) (alike.scripts path)
    rwa [Option.map_map, Option.map_map] at same
  have read (workspace : Workspace) (distinct : (workspace.scripts.map Script.path).Nodup) :
      (workspace.scripts.map Script.id).map some =
        (workspace.scripts.map Script.path).map (Dependency.numberAt? workspace.scripts) := by
    rw [List.map_map, List.map_map]
    exact List.map_congr_left fun script member =>
      (Dependency.numberAt?_of_mem distinct member).symm
  refine ⟨paths, List.map_injective_iff.mpr (Option.some_injective Nat) ?_⟩
  rw [read after (paths ▸ unique), read before unique, paths]
  exact List.map_congr_left fun path _ => number path

/-! ## Ordered files -/

theorem eq_of_ascending {items more : List String} (ascending : items.Pairwise (· < ·))
    (ascending' : more.Pairwise (· < ·)) (same : ∀ item, item ∈ items ↔ item ∈ more) :
    items = more := by
  have distinct {items : List String} (ascending : items.Pairwise (· < ·)) : items.Nodup :=
    ascending.imp fun less => ne_of_lt less
  refine List.Perm.eq_of_pairwise (fun _ _ _ _ less greater => absurd less greater.asymm)
    ascending ascending' ?_
  exact (List.perm_ext_iff_of_nodup (distinct ascending) (distinct ascending')).mpr same

structure Workspace.Ordered (workspace : Workspace) : Prop where
  ascending : (workspace.scripts.map Script.path).Pairwise (· < ·)
  numbered : (workspace.scripts.map Script.id).Nodup
  live : workspace.live.Sublist (workspace.scripts.map Script.path)

namespace Workspace.Ordered

variable {before after : Workspace}

theorem unique (ordered : before.Ordered) : (before.scripts.map Script.path).Nodup :=
  ordered.ascending.imp fun less => ne_of_lt less

theorem keep (ordered : before.Ordered) (same : SameFiles before after)
    (live : after.live.Sublist before.live) : after.Ordered where
  ascending := same.paths ▸ ordered.ascending
  numbered := same.numbers ▸ ordered.numbered
  live := same.paths ▸ live.trans ordered.live

theorem ascending_live (ordered : before.Ordered) : before.live.Pairwise (· < ·) :=
  ordered.ascending.sublist ordered.live

theorem path_liveScripts (ordered : before.Ordered) :
    before.liveScripts.map Script.path = before.live := by
  have kept : before.liveScripts.map Script.path =
      (before.scripts.map Script.path).filter before.live.contains := by
    rw [List.filter_map]
    rfl
  refine kept.trans (eq_of_ascending (ordered.ascending.filter before.live.contains)
    ordered.ascending_live fun path => ?_)
  simp only [List.mem_filter, List.contains_iff_mem, and_iff_right_iff_imp]
  exact fun live => ordered.live.subset live

end Workspace.Ordered

/-! ## Phases -/

namespace Corpus

theorem ingest_numbered {settings : Settings} {sources : Ledger String}
    {before after : List LogLine} {corpus : Corpus}
    (ends : Ends (ingest settings sources) before corpus after) :
    corpus.scripts.map Script.id = List.range corpus.scripts.length := by
  simp only [ingest, Ends.bind_iff, Ends.liftM_iff] at ends
  obtain ⟨normal, _, ⟨run, rfl⟩, ends⟩ := ends
  refine Ends.foldlM_invariant (fun _ corpus =>
    corpus.scripts.map Script.id = List.range corpus.scripts.length) ?_ ends rfl
  rintro done ⟨path, text⟩ todo corpus before next after - numbered ends
  unfold addSource at ends
  split at ends
  · obtain ⟨rfl, -⟩ := (Ends.pure_iff _ _ _ _).mp ends
    exact numbered
  · split at ends
    · simp only [Ends.bind_iff, Ends.pure_iff] at ends
      obtain ⟨tree, _, read, rfl, -⟩ := ends
      simp [numbered, List.range_succ]
    · obtain ⟨rfl, -⟩ := (Ends.pure_iff _ _ _ _).mp ends
      exact numbered

end Corpus

namespace Conversion

variable {settings : Settings} {sources : Ledger String} {before after : Workspace}

theorem ordered_ofCorpus {corpus : Corpus} {log log' : List LogLine}
    (ends : Ends (Corpus.ingest settings sources) log corpus log') (trace : Trace) :
    { Workspace.ofCorpus settings corpus with trace, log := log' }.Ordered where
  ascending := Corpus.ingest_ascending ends
  numbered := by
    change (corpus.scripts.map Script.id).Nodup
    rw [Corpus.ingest_numbered ends]
    exact List.nodup_range
  live := .refl _

theorem ordered_mergePhase (ordered : before.Ordered) (ends : Ends mergePhase before ⟨⟩ after) :
    after.Ordered := by
  refine ordered.keep ?_ (live_mergePhase ends ▸ .refl _)
  obtain ⟨start, last, count, started, merged, finished⟩ := mergePhase_core ends
  refine ((SameFiles.of_core started).trans ?_).trans (.of_core finished)
  rcases ends_mergeChunks merged with unchanged | ⟨script, member, tree, -, changed⟩
  · exact .of_core unchanged
  · have unique : (start.scripts.map Script.path).Nodup :=
      Workspace.scripts_eq started ▸ ordered.unique
    have found : scriptAt? start.scripts ({ script with tree } : Script).path = some script :=
      Dependency.scriptAt?_of_mem unique member
    exact (SameFiles.putScript unique found rfl).trans (.of_core changed)

theorem sameFiles_analyzeFile (unique : (before.scripts.map Script.path).Nodup) {path : String}
    {files : List ExcludedFile} (ends : Ends (analyzeFile path) before files after) :
    SameFiles before after := by
  obtain ⟨exclusion?, between, analysed, -, same⟩ := ends_analyzeFile ends
  obtain ⟨read, result, found, becomes, rfl, settled⟩ := Work.ends_analyze analysed
  have number : result.id = read.id := by rw [becomes.same]
  exact (SameFiles.putScript unique found number).trans
    ((SameFiles.of_scripts (Work.scripts_settle ..)).trans (.of_core (same.trans settled)))

theorem ordered_analysisPhase (ordered : before.Ordered) {files : List ExcludedFile}
    (ends : Ends analysisPhase before files after) : after.Ordered := by
  have distinct : before.live.Nodup := ordered.unique.sublist ordered.live
  refine ordered.keep ?_ (excludes_analysisPhase distinct ends).1.order
  obtain ⟨start, last, _, started, analysed, finished⟩ := analysisPhase_core ends
  refine ((SameFiles.of_core started).trans ?_).trans (.of_core finished)
  have unique : (start.scripts.map Script.path).Nodup :=
    Workspace.scripts_eq started ▸ ordered.unique
  refine Ends.mapM_invariant (fun _ _ workspace => SameFiles start workspace) ?_ analysed
    (.of_scripts rfl)
  intro _ _ _ _ workspace _ _ _ same ends
  exact same.trans (sameFiles_analyzeFile (same.paths ▸ unique) ends)

theorem ordered_integrityPhase (ordered : before.Ordered) {files : List ExcludedFile}
    (ends : Ends integrityPhase before files after) : after.Ordered := by
  obtain ⟨excludes, scripts, -⟩ :=
    excludes_integrityPhase (ordered.unique.sublist ordered.live) ends
  exact ordered.keep (.of_scripts scripts) excludes.order

theorem Writing.ordered {first : Workspace} {done : List String} {modules : List Module}
    (writing : Writing settings sources first done modules after) (ordered : first.Ordered) :
    after.Ordered := by
  have same : after.live = first.live := writing.alike.live
  exact ordered.keep (writing.alike.sameFiles ordered.unique writing.scripts) (same ▸ .refl _)

theorem Passed.ordered (passed : Passed settings sources after) : after.Ordered := by
  obtain ⟨log, corpus, log', merged, unclassified, between, dangling, ingesting, merging, analysed,
    checked⟩ := passed
  exact ordered_integrityPhase (ordered_analysisPhase
    (ordered_mergePhase (ordered_ofCorpus ingesting _) merging) analysed) checked

theorem Ran.ordered (accepted : settings.Accepted) {withGraph : Bool} {log : List LogLine}
    {report : Report} {final : Workspace} (ran : Ran settings sources withGraph log report final) :
    final.Ordered := by
  obtain ⟨first, phases⟩ := ran.phases
  exact (phases.writing accepted).ordered phases.passed.ordered

end Conversion

end ScriptModules
