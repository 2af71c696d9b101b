import ScriptModules.Proofs.Conversion.Faults
import ScriptModules.Proofs.Conversion.Order
import ScriptModules.Proofs.Corpus.Growth

/-!
# More files

A file that is converted stays converted if a file with other names joins the corpus
(`survivors_grow`).

What the analysis makes of a file depends on that file alone (`Examined`), so the files of the
smaller corpus require and provide the same names in the larger one. The owner of a name is the last
file that provides it. So the owners are the same in both corpora if the new file provides none of
these names, or if a later file provides each of them too (`Yields`). Then a set of files that is
closed in the smaller corpus is closed in the larger one, and the check of integrity leaves the
greatest such set.
-/

namespace ScriptModules

open Dependency (scriptAt? requiredNames Closed)

/-! ## The analysis of a file -/

namespace Script

def withChunks (settings : Settings) (chunks : Ledger String) (script : Script) : Script :=
  if script.path = settings.chunkTablePath ∧ chunks.isEmpty = false ∧
      Chunks.holdsTable script.tree = true then
    match Chunks.addAll script.tree chunks with
    | .ok tree => { script with tree }
    | .error _ => script
  else script

def analyse (settings : Settings) (script : Script) : Except Fault (Script × Option Exclusion) := do
  let (checked, _) ← TypeCheck.replace settings script
  Access.classify settings checked

def providedNames (settings : Settings) (script : Script) : List String :=
  ((script.analyse settings).toOption.map fun result => result.1.provides.names).getD []

variable {settings : Settings}

theorem becomes_iff {read result : Script} {exclusion? : Option Exclusion} :
    read.Becomes settings result exclusion? ↔
      read.analyse settings = .ok (result, exclusion?) := by
  refine Iff.trans ?_ bind_eq_ok_iff.symm
  constructor
  · rintro ⟨checked, events, replaced, classified⟩
    exact ⟨(checked, events), replaced, classified⟩
  · rintro ⟨⟨checked, events⟩, replaced, classified⟩
    exact ⟨checked, events, replaced, classified⟩

theorem Becomes.providedNames {read result : Script} {exclusion? : Option Exclusion}
    (becomes : read.Becomes settings result exclusion?) :
    read.providedNames settings = result.provides.names := by
  rw [Script.providedNames, becomes_iff.mp becomes]
  rfl

theorem Becomes.numbered {read result : Script} {exclusion? : Option Exclusion}
    (becomes : read.Becomes settings result exclusion?) (id : Nat) :
    (read.numbered id).Becomes settings (result.numbered id) exclusion? := by
  obtain ⟨checked, events, replaced, classified⟩ := becomes
  exact ⟨checked.numbered id, events, TypeCheck.replace_numbered replaced id,
    Access.classify_numbered classified id⟩

theorem Becomes.provides_of_excluded {read result : Script} {exclusion : Exclusion}
    (becomes : read.Becomes settings result (some exclusion)) : result.provides = [] := by
  obtain ⟨checked, events, -, run⟩ := becomes
  unfold Access.classify at run
  dsimp only at run
  split at run
  · cases run
    rfl
  · split at run
    · cases run
    · obtain ⟨⟨marked, found⟩, -, run⟩ := bind_eq_ok_iff.mp run
      cases found with
      | none => cases run
      | some found =>
          cases run
          rfl

/-- An excluded file provides no name. So a file owns the names that it provides in any case. -/
theorem Becomes.index_settle {read result : Script} {exclusion? : Option Exclusion}
    (becomes : read.Becomes settings result exclusion?) (before : Workspace) :
    (Work.settle before result exclusion?).index =
      before.index.registerAll result.path result.provides.names := by
  cases exclusion? with
  | none => rfl
  | some exclusion =>
      rw [becomes.provides_of_excluded]
      rfl

@[simp] theorem path_withChunks (chunks : Ledger String) (script : Script) :
    (script.withChunks settings chunks).path = script.path := by
  unfold withChunks
  split
  · split <;> rfl
  · rfl

theorem withChunks_of_ne {script : Script} (apart : script.path ≠ settings.chunkTablePath)
    (chunks : Ledger String) : script.withChunks settings chunks = script := by
  rw [withChunks, if_neg fun table => apart table.1]

theorem withChunks_numbered (chunks : Ledger String) (script : Script) (id : Nat) :
    (script.numbered id).withChunks settings chunks =
      (script.withChunks settings chunks).numbered id := by
  unfold withChunks
  rw [path_numbered, tree_numbered]
  split
  · split <;> rfl
  · rfl

end Script

/-- The names that the files of a corpus provide. A file that the analysis excludes provides none. -/
def Conversion.provides (settings : Settings) (sources : Ledger String) : Ledger (List String) :=
  ((Corpus.read? settings sources).map fun corpus => corpus.scripts.map fun script =>
    (script.path, (script.withChunks settings corpus.chunks).providedNames settings)).getD []

theorem Dependency.scriptAt?_map {change : Script → Script}
    (same : ∀ script, (change script).path = script.path) (scripts : List Script) (path : String) :
    scriptAt? (scripts.map change) path = (scriptAt? scripts path).map change := by
  rw [scriptAt?, List.find?_map]
  congr 2
  funext script
  simp [same]

theorem sublist_of_ascending {items : List String} (ascending : items.Pairwise (· < ·))
    {first second : String} (member : first ∈ items) (member' : second ∈ items)
    (less : first < second) : [first, second].Sublist items := by
  obtain ⟨done, todo, rfl⟩ := List.append_of_mem member
  rcases List.mem_append.mp member' with behind | ahead
  · have greater := (List.pairwise_append.mp ascending).2.2 second behind first List.mem_cons_self
    exact absurd less greater.asymm
  · rcases List.mem_cons.mp ahead with rfl | ahead
    · exact absurd less (lt_irrefl _)
    · exact (List.Sublist.cons_cons first (List.singleton_sublist.mpr ahead)).trans
        (List.sublist_append_right done _)

namespace Surroundings

def Provides (around : Surroundings) (path name : String) : Prop :=
  path ∈ around.live ∧
    ∃ script, scriptAt? around.scripts path = some script ∧ name ∈ script.provides.names

theorem Owning.le_owner {around : Surroundings} (owning : around.Owning)
    (ascending : around.live.Pairwise (· < ·)) {name owner rival : String}
    (owned : around.index.owner? name = some owner) (provides : around.Provides rival name) :
    rival ≤ owner := by
  refine not_lt.mp fun behind => ?_
  obtain ⟨live, script, found, provided⟩ := provides
  have order :=
    sublist_of_ascending ascending (owning.provided name owner owned).1 live behind
  exact owning.last name owner owned rival order script found provided

theorem Owning.owner_unique {around other : Surroundings} (owning : around.Owning)
    (owning' : other.Owning) (ascending : around.live.Pairwise (· < ·))
    (ascending' : other.live.Pairwise (· < ·)) {name owner owner' : String}
    (provides : ∀ path, other.Provides path name ↔ around.Provides path name)
    (owned : around.index.owner? name = some owner)
    (owned' : other.index.owner? name = some owner') : owner' = owner := by
  have below := owning.le_owner ascending owned
    ((provides owner').mp (owning'.provided name owner' owned'))
  have above := owning'.le_owner ascending' owned'
    ((provides owner).mpr (owning.provided name owner owned))
  exact le_antisymm below above

end Surroundings

theorem Dependency.requiredNames_numbered {scripts scripts' : List Script} {path : String}
    {script : Script} {id : Nat} (found : scriptAt? scripts path = some script)
    (found' : scriptAt? scripts' path = some (script.numbered id)) :
    requiredNames scripts' path = requiredNames scripts path := by
  rw [requiredNames, requiredNames, found, found']
  rfl

theorem Dependency.Closed.transfer {scripts scripts' : List Script} {index index' : Index}
    {files : Set String} (closed : Closed (requiredNames scripts) index files)
    (names : ∀ path ∈ files, requiredNames scripts' path = requiredNames scripts path)
    (owners : ∀ owner ∈ files, ∀ name, index.owner? name = some owner →
      index'.owner? name = some owner) : Closed (requiredNames scripts') index' files := by
  intro path member name needed
  rw [names path member] at needed
  obtain ⟨owner, inside, owned⟩ := closed path member name needed
  exact ⟨owner, inside, owners owner inside name owned⟩

namespace Conversion

variable {settings : Settings} {sources : Ledger String} {before after : Workspace}

/-! ## The analysis of a corpus -/

theorem liveScripts_eq (all : before.live = before.scripts.map Script.path) :
    before.liveScripts = before.scripts := by
  refine List.filter_eq_self.mpr fun script member => List.contains_iff_mem.mpr ?_
  rw [all]
  exact List.mem_map_of_mem member

theorem ends_mergeChunks_scripts (unique : (before.scripts.map Script.path).Nodup)
    (all : before.live = before.scripts.map Script.path) {count : Nat}
    (ends : Ends Work.mergeChunks before count after) : after.core =
      { before with
        scripts := before.scripts.map (Script.withChunks before.settings before.chunks) }.core := by
  rcases mergeChunks_cases before with
    ⟨script, tree, found, filled, table, added, merged⟩ | ⟨nowhere, log, merged⟩
  · obtain ⟨-, rfl⟩ := merged.unique ends
    rw [liveScripts_eq all] at found
    obtain ⟨member, path⟩ := Dependency.path_of_scriptAt? found
    refine congrArg (fun scripts => { before with scripts }.core) ?_
    apply List.map_congr_left
    intro other inside
    by_cases own : other.path = script.path
    · cases List.inj_on_of_nodup_map unique inside member own
      rw [if_pos own, Script.withChunks, if_pos ⟨path, by simpa using filled, table⟩, added]
    · rw [if_neg own, Script.withChunks_of_ne (path ▸ own)]
  · obtain ⟨-, rfl⟩ := merged.unique ends
    rw [liveScripts_eq all] at nowhere
    have still : before.scripts.map (Script.withChunks before.settings before.chunks) =
        before.scripts := by
      refine (List.map_congr_left fun script member => ?_).trans (List.map_id _)
      rw [Script.withChunks, if_neg, id]
      rintro ⟨path, filled, table⟩
      have found := Dependency.scriptAt?_of_mem unique member
      rw [nowhere script (path ▸ found) (by simpa using filled)] at table
      cases table
    rw [still]
    rfl

theorem ends_mergePhase_scripts (unique : (before.scripts.map Script.path).Nodup)
    (all : before.live = before.scripts.map Script.path)
    (ends : Ends mergePhase before ⟨⟩ after) : after.core =
      { before with
        scripts := before.scripts.map (Script.withChunks before.settings before.chunks) }.core := by
  obtain ⟨start, last, count, started, merged, finished⟩ := mergePhase_core ends
  have scripts := Workspace.scripts_eq started
  have live := Workspace.live_eq started
  have settings := Workspace.settings_eq started
  have chunks : start.chunks = before.chunks :=
    show start.core.chunks = before.core.chunks from congrArg _ started
  have filled : start.scripts.map (Script.withChunks start.settings start.chunks) =
      before.scripts.map (Script.withChunks before.settings before.chunks) := by
    rw [scripts, settings, chunks]
  rw [finished, ends_mergeChunks_scripts (scripts ▸ unique) (by rw [live, scripts, all]) merged,
    filled]
  exact congrArg (fun core : Workspace => { core with
    scripts := before.scripts.map (Script.withChunks before.settings before.chunks) }) started

structure Examined (settings : Settings) (corpus : Corpus) (analysed : Workspace) : Prop where
  script : ∀ path read, scriptAt? corpus.scripts path = some read → ∃ result exclusion?,
    (read.withChunks settings corpus.chunks).Becomes settings result exclusion? ∧
      scriptAt? analysed.scripts path = some result ∧
        (path ∈ analysed.live ↔ exclusion? = none)
  known : ∀ path ∈ analysed.live, ∃ read, scriptAt? corpus.scripts path = some read
  owned : ∀ path script, scriptAt? analysed.scripts path = some script → path ∈ analysed.live →
    ∀ name ∈ script.provides.names, ∃ owner, analysed.index.owner? name = some owner

structure Examining (settings : Settings) (start : Workspace) (done : List String)
    (workspace : Workspace) : Prop where
  given : workspace.settings = settings
  script : ∀ path ∈ done, ∃ read result exclusion?, scriptAt? start.scripts path = some read ∧
    read.Becomes settings result exclusion? ∧ scriptAt? workspace.scripts path = some result ∧
      (path ∈ workspace.live ↔ exclusion? = none)
  rest : ∀ path, path ∉ done → scriptAt? workspace.scripts path = scriptAt? start.scripts path
  live : ∀ path, path ∉ done → (path ∈ workspace.live ↔ path ∈ start.live)
  owned : ∀ path ∈ done, ∀ script, scriptAt? workspace.scripts path = some script →
    ∀ name ∈ script.provides.names, ∃ owner, workspace.index.owner? name = some owner

theorem Examining.analyzeFile {start : Workspace} {done : List String} {path : String}
    {files : List ExcludedFile} (held : Examining settings start done before) (fresh : path ∉ done)
    (live : path ∈ start.live) (ends : Ends (analyzeFile path) before files after) :
    Examining settings start (done ++ [path]) after := by
  obtain ⟨exclusion?, between, analysed, -, same⟩ := ends_analyzeFile ends
  obtain ⟨read, result, found, becomes, rfl, settled⟩ := Work.ends_analyze analysed
  replace settled := same.trans settled
  have was := (held.rest _ fresh).symm.trans found
  have scripts : after.scripts = (before.putScript result).scripts :=
    (Workspace.scripts_eq settled).trans (Work.scripts_settle ..)
  have here : scriptAt? after.scripts result.path = some result :=
    scripts ▸ Dependency.scriptAt?_putScript_self found
  have elsewhere {other : String} (distinct : other ≠ result.path) :
      scriptAt? after.scripts other = scriptAt? before.scripts other :=
    scripts ▸ Dependency.scriptAt?_putScript_of_ne before distinct
  have lives (other : String) : other ∈ after.live ↔
      other ∈ before.live ∧ (other = result.path → exclusion? = none) := by
    rw [Workspace.live_eq settled, Work.mem_live_settle]
  have index : after.index = before.index.registerAll result.path result.provides.names :=
    (Workspace.index_eq settled).trans (becomes.index_settle before)
  have split {other : String} :
      other ∈ done ++ [result.path] ↔ other ∈ done ∨ other = result.path := by
    simp
  have apart {other : String} (behind : other ∈ done) : other ≠ result.path :=
    ne_of_mem_of_not_mem behind fresh
  refine ⟨?given, fun other member => ?script, fun other outside => ?rest,
    fun other outside => ?live, fun other member script found name provided => ?owned⟩
  case given => rw [Workspace.settings_eq settled, Work.settings_settle, held.given]
  case script =>
    rcases split.mp member with behind | rfl
    · obtain ⟨read', result', exclusion', was', becomes', found', live'⟩ :=
        held.script other behind
      exact ⟨read', result', exclusion', was', becomes', (elsewhere (apart behind)).trans found',
        (lives other).trans ((and_iff_left fun own => absurd own (apart behind)).trans live')⟩
    · refine ⟨read, result, exclusion?, was, held.given ▸ becomes, here, (lives _).trans ?_⟩
      simp [(held.live _ fresh).mpr live]
  case rest =>
    obtain ⟨outside, distinct⟩ := not_or.mp (mt split.mpr outside)
    exact (elsewhere distinct).trans (held.rest other outside)
  case live =>
    obtain ⟨outside, distinct⟩ := not_or.mp (mt split.mpr outside)
    exact (lives other).trans ((and_iff_left fun own => absurd own distinct).trans
      (held.live other outside))
  case owned =>
    -- what is owned stays owned, and what the file provides is owned by it
    rw [index, Index.owner?_registerAll]
    split_ifs with provides
    · exact ⟨_, rfl⟩
    · rcases split.mp member with behind | rfl
      · rw [elsewhere (apart behind)] at found
        exact held.owned other behind script found name provided
      · cases here.symm.trans found
        exact absurd provided provides

structure Audited (settings : Settings) (sources : Ledger String) (corpus : Corpus)
    (analysed first : Workspace) : Prop where
  read : Corpus.read? settings sources = some corpus
  examined : Examined settings corpus analysed
  surveyed : analysed.surroundings.Surveyed settings sources
  ordered : analysed.Ordered
  scripts : first.scripts = analysed.scripts
  left : IsGreatest {files | (∀ path ∈ files, path ∈ analysed.live) ∧
    Closed (requiredNames analysed.scripts) analysed.index files} {path | path ∈ first.live}

theorem examined_analysisPhase {corpus : Corpus} {merged : Workspace} (ordered : merged.Ordered)
    (given : merged.settings = settings) (all : merged.live = corpus.scripts.map Script.path)
    (scripts : merged.scripts = corpus.scripts.map (Script.withChunks settings corpus.chunks))
    {files : List ExcludedFile} (ends : Ends analysisPhase merged files after) :
    Examined settings corpus after := by
  have found (path : String) : scriptAt? merged.scripts path =
      (scriptAt? corpus.scripts path).map (Script.withChunks settings corpus.chunks) := by
    rw [scripts]
    exact Dependency.scriptAt?_map (Script.path_withChunks corpus.chunks) _ _
  have known (path : String) :
      path ∈ merged.live ↔ ∃ read, scriptAt? corpus.scripts path = some read := by
    rw [all]
    constructor
    · intro member
      obtain ⟨read, inside, rfl⟩ := List.mem_map.mp member
      cases here : scriptAt? corpus.scripts read.path with
      | some other => exact ⟨other, rfl⟩
      | none => exact absurd (beq_self_eq_true read.path) (List.find?_eq_none.mp here read inside)
    · rintro ⟨read, here⟩
      obtain ⟨inside, rfl⟩ := Dependency.path_of_scriptAt? here
      exact List.mem_map_of_mem inside
  have fewer := (excludes_analysisPhase (ordered.unique.sublist ordered.live) ends).1.order
  obtain ⟨start, between, _, started, analysed, same⟩ := analysisPhase_core ends
  have live : start.live = merged.live := Workspace.live_eq started
  have held : Examining settings start start.live between := by
    refine Ends.mapM_invariant (fun done _ workspace => Examining settings start done workspace) ?_
      analysed ⟨(Workspace.settings_eq started).trans given, by simp, fun _ _ => rfl,
        fun _ _ => .rfl, by simp⟩
    intro done path todo _ workspace files next parts held ends
    refine held.analyzeFile (not_mem_behind ?_ parts) (by simp [parts]) ends
    exact live ▸ ordered.unique.sublist ordered.live
  refine ⟨fun path read here => ?_, fun path left => ?_, fun path script here left => ?_⟩
  · have inside : path ∈ start.live := live ▸ (known path).mpr ⟨read, here⟩
    obtain ⟨read', result, exclusion?, was, becomes, found', lives⟩ := held.script path inside
    rw [Workspace.scripts_eq started, found, here, Option.map_some, Option.some.injEq] at was
    subst was
    rw [← Workspace.scripts_eq same] at found'
    rw [← Workspace.live_eq same] at lives
    exact ⟨result, exclusion?, becomes, found', lives⟩
  · exact (known path).mp (fewer.subset left)
  · rw [Workspace.scripts_eq same] at here
    rw [Workspace.index_eq same]
    exact held.owned path (live ▸ fewer.subset left) script here

theorem ends_integrityPhase_isGreatest (surveyed : before.surroundings.Surveyed settings sources)
    {files : List ExcludedFile} (ends : Ends integrityPhase before files after) :
    IsGreatest {files | (∀ path ∈ files, path ∈ before.live) ∧
      Closed (requiredNames before.scripts) before.index files} {path | path ∈ after.live} := by
  rw [Workspace.live_eq (integrityPhase_core ends)]
  exact Dependency.checkIntegrity_isGreatest _ (Dependency.nodup_paths surveyed.live)
    surveyed.distinct

theorem audited_of_ends {log log' : List LogLine} {corpus : Corpus}
    {merged analysed : Workspace} {unclassified dangling : List ExcludedFile}
    (ingesting : Ends (Corpus.ingest settings sources) log corpus log')
    (merging : Ends mergePhase
      { Workspace.ofCorpus settings corpus with
        trace := readingTrace sources.length, log := log' } ⟨⟩ merged)
    (analysing : Ends analysisPhase merged unclassified analysed)
    (checking : Ends integrityPhase analysed dangling after) :
    Audited settings sources corpus analysed after := by
  obtain ⟨ingested, known⟩ := ingested_mergePhase ingesting merging
  have surveyed := ends_analysisPhase ingested known analysing
  have opening := ordered_ofCorpus ingesting (readingTrace sources.length)
  have ordered := ordered_mergePhase opening merging
  have same := ends_mergePhase_scripts opening.unique rfl merging
  refine ⟨(Corpus.ends_ingest_iff.mp ingesting).1, ?_, surveyed,
    ordered_analysisPhase ordered analysing,
    (Workspace.scripts_eq (integrityPhase_core checking)).trans rfl,
    ends_integrityPhase_isGreatest surveyed checking⟩
  exact examined_analysisPhase ordered ingested.given (Workspace.live_eq same)
    (Workspace.scripts_eq same) analysing

theorem Passed.audited (passed : Passed settings sources after) :
    ∃ corpus analysed, Audited settings sources corpus analysed after := by
  obtain ⟨log, corpus, log', merged, unclassified, analysed, dangling, ingesting, merging, analysing,
    checking⟩ := passed
  exact ⟨corpus, analysed, audited_of_ends ingesting merging analysing checking⟩

theorem exists_passed {corpus : Corpus} (read : Corpus.read? settings sources = some corpus) :
    ∃ first, Passed settings sources first := by
  have ingesting : Ends (Corpus.ingest settings sources) [] corpus [] :=
    Corpus.ends_ingest_iff.mpr ⟨read, rfl⟩
  let start := { Workspace.ofCorpus settings corpus with
    trace := readingTrace sources.length, log := [] }
  obtain ⟨⟨⟩, merged, merging⟩ := (confined_mergePhase start).exists_ends
  obtain ⟨ingested, known⟩ := ingested_mergePhase ingesting merging
  obtain ⟨unclassified, analysed, analysing⟩ := (confined_analysisPhase ingested known).exists_ends
  obtain ⟨dangling, first, checking⟩ := (confined_integrityPhase analysed).exists_ends
  exact ⟨first, [], corpus, [], merged, _, analysed, _, ingesting, merging, analysing, checking⟩

/-! ## Names that files provide -/

variable {corpus larger : Corpus} {analysed first analysed' first' : Workspace} {more : Ledger String}

theorem Audited.unique (audited : Audited settings sources corpus analysed first) :
    (corpus.scripts.map Script.path).Nodup :=
  (Corpus.ends_ingest (Corpus.ends_ingest_iff.mpr ⟨audited.read, rfl⟩ :
    Ends (Corpus.ingest settings sources) [] corpus [])).1

theorem Audited.get?_provides (audited : Audited settings sources corpus analysed first)
    {path : String} {read result : Script} (found : scriptAt? corpus.scripts path = some read)
    (here : scriptAt? analysed.scripts path = some result) :
    (provides settings sources).get? path = some result.provides.names := by
  obtain ⟨result', exclusion?, becomes, here', -⟩ := audited.examined.script path read found
  cases here.symm.trans here'
  obtain ⟨member, rfl⟩ := Dependency.path_of_scriptAt? found
  rw [provides, audited.read, Option.map_some, Option.getD_some]
  refine Ledger.get?_of_mem ?_ ?_
  · rw [Ledger.names, List.map_map]
    exact audited.unique
  · rw [← becomes.providedNames]
    exact List.mem_map_of_mem member

theorem Audited.provides_of_entry (audited : Audited settings sources corpus analysed first)
    {entry : String × List String} (member : entry ∈ provides settings sources) {name : String}
    (own : name ∈ entry.2) : analysed.surroundings.Provides entry.1 name := by
  rw [provides, audited.read] at member
  obtain ⟨read, inside, rfl⟩ := List.mem_map.mp member
  have found := Dependency.scriptAt?_of_mem audited.unique inside
  obtain ⟨result, exclusion?, becomes, here, live⟩ := audited.examined.script read.path read found
  rw [becomes.providedNames] at own
  cases exclusion? with
  | none => exact ⟨live.mpr rfl, result, here, own⟩
  | some exclusion =>
      rw [becomes.provides_of_excluded] at own
      cases own

theorem Audited.owned (audited : Audited settings sources corpus analysed first) {path name : String}
    (provides : analysed.surroundings.Provides path name) :
    ∃ owner, analysed.index.owner? name = some owner := by
  obtain ⟨live, script, found, provided⟩ := provides
  exact audited.examined.owned path script found live name provided

theorem Audited.le_owner (audited : Audited settings sources corpus analysed first)
    {name owner rival : String} (owned : analysed.index.owner? name = some owner)
    (provides : analysed.surroundings.Provides rival name) : rival ≤ owner :=
  audited.surveyed.le_owner audited.ordered.ascending_live owned provides

theorem Audited.ne_of_live (audited : Audited settings sources corpus analysed first) {path : String}
    (fresh : scriptAt? corpus.scripts path = none) {other : String} (live : other ∈ analysed.live) :
    other ≠ path := by
  rintro rfl
  obtain ⟨read, found⟩ := audited.examined.known other live
  cases found.symm.trans fresh

/-- Every name that a file shares with others is provided by one behind it, too. -/
def Yields (others : Ledger (List String)) (path : String) (names : List String) : Prop :=
  ∀ name ∈ names, ∀ entry ∈ others, name ∈ entry.2 → ∃ later ∈ others, path < later.1 ∧ name ∈ later.2

section

variable {path : String} (audited : Audited settings sources corpus analysed first)
  (audited' : Audited settings more larger analysed' first') (gains : Corpus.Gains path corpus larger)

include audited audited' gains

theorem Audited.shared {other : String} (distinct : other ≠ path)
    (live : other ∈ analysed.live ∨ other ∈ analysed'.live) :
    (other ∈ analysed.live ∧ other ∈ analysed'.live) ∧ ∃ result id,
      scriptAt? analysed.scripts other = some result ∧
      scriptAt? analysed'.scripts other = some (result.numbered id) := by
  have same := gains.others other distinct
  obtain ⟨read, found⟩ : ∃ read, scriptAt? corpus.scripts other = some read := by
    rcases live with here | there
    · exact audited.examined.known other here
    · obtain ⟨read', found'⟩ := audited'.examined.known other there
      obtain ⟨id, found⟩ := Dependency.scriptAt?_of_unnumberedAt? same.symm found'
      exact ⟨_, found⟩
  obtain ⟨id, found'⟩ := Dependency.scriptAt?_of_unnumberedAt? same found
  obtain ⟨result, exclusion?, becomes, here, lives⟩ := audited.examined.script other read found
  obtain ⟨result', exclusion', becomes', here', lives'⟩ := audited'.examined.script other _ found'
  rw [gains.chunks, Script.withChunks_numbered] at becomes'
  have both := (Script.becomes_iff.mp (becomes.numbered id)).symm.trans
    (Script.becomes_iff.mp becomes')
  cases both
  rw [lives, lives', or_self_iff] at live
  exact ⟨⟨lives.mpr live, lives'.mpr live⟩, result, id, here, here'⟩

theorem Audited.provides_iff {other : String} (distinct : other ≠ path) (name : String) :
    analysed'.surroundings.Provides other name ↔ analysed.surroundings.Provides other name := by
  constructor
  · rintro ⟨live, script, found, provided⟩
    obtain ⟨⟨live', -⟩, result, id, here, here'⟩ := audited.shared audited' gains distinct (.inr live)
    cases found.symm.trans here'
    exact ⟨live', result, here, provided⟩
  · rintro ⟨live, script, found, provided⟩
    obtain ⟨⟨-, live'⟩, result, id, here, here'⟩ := audited.shared audited' gains distinct (.inl live)
    cases found.symm.trans here
    exact ⟨live', _, here', provided⟩

variable (fresh : scriptAt? corpus.scripts path = none)

include fresh

theorem Audited.owner_of_larger {name owner : String} (distinct : owner ≠ path)
    (owned' : analysed'.index.owner? name = some owner) : analysed.index.owner? name = some owner := by
  have provides := (audited.provides_iff audited' gains distinct name).mp
    (audited'.surveyed.provided name owner owned')
  obtain ⟨rival, owned⟩ := audited.owned provides
  have rivals := audited.surveyed.provided name rival owned
  have rivals' := (audited.provides_iff audited' gains
    (audited.ne_of_live fresh rivals.1) name).mpr rivals
  rwa [le_antisymm (audited.le_owner owned provides) (audited'.le_owner owned' rivals')]

theorem Audited.owner_of_smaller (yields : Yields (provides settings sources) path
      (((provides settings more).get? path).getD []))
    {name owner : String} (owned : analysed.index.owner? name = some owner) :
    analysed'.index.owner? name = some owner := by
  have provides := audited.surveyed.provided name owner owned
  have provides' := (audited.provides_iff audited' gains
    (audited.ne_of_live fresh provides.1) name).mpr provides
  obtain ⟨rival, owned'⟩ := audited'.owned provides'
  have distinct : rival ≠ path := by
    rintro rfl
    obtain ⟨live, script, found, provided⟩ := audited'.surveyed.provided name rival owned'
    obtain ⟨read', found'⟩ := audited'.examined.known rival live
    obtain ⟨own, script, here, shares⟩ := provides
    obtain ⟨read, there⟩ := audited.examined.known owner own
    obtain ⟨later, known, behind, takes⟩ := yields name
      (by rwa [audited'.get?_provides found' found]) _
      (Ledger.mem_of_get? (audited.get?_provides there here)) shares
    have takes' := (audited.provides_iff audited' gains behind.ne' name).mpr
      (audited.provides_of_entry known takes)
    exact absurd (audited'.le_owner owned' takes') behind.not_ge
  have owned'' := audited.owner_of_larger audited' gains fresh distinct owned'
  cases owned.symm.trans owned''
  exact owned'

/-- What is left of the smaller corpus is left of the larger one if the new file takes over no name. -/
theorem Audited.live_subset (yields : Yields (provides settings sources) path
      (((provides settings more).get? path).getD [])) :
    ∀ other ∈ first.live, other ∈ first'.live := by
  have known {other : String} (member : other ∈ first.live) := audited.shared audited' gains
    (audited.ne_of_live fresh (audited.left.1.1 other member))
    (.inl (audited.left.1.1 other member))
  refine audited'.left.2 ⟨fun other member => (known member).1.2, ?_⟩
  refine audited.left.1.2.transfer (fun other member => ?_) fun owner _ name owned =>
    audited.owner_of_smaller audited' gains fresh yields owned
  obtain ⟨-, result, id, here, here'⟩ := known member
  exact Dependency.requiredNames_numbered here here'

/-- What is left of the larger corpus is left of the smaller one if the new file is dropped. -/
theorem Audited.subset_live (dropped : path ∉ first'.live) :
    ∀ other ∈ first'.live, other ∈ first.live := by
  have distinct {other : String} (member : other ∈ first'.live) : other ≠ path := by
    rintro rfl
    exact dropped member
  have known {other : String} (member : other ∈ first'.live) := audited.shared audited' gains
    (distinct member) (.inr (audited'.left.1.1 other member))
  refine audited.left.2 ⟨fun other member => (known member).1.1, ?_⟩
  refine audited'.left.1.2.transfer (fun other member => ?_) fun owner member name owned =>
    audited.owner_of_larger audited' gains fresh (distinct member) owned
  obtain ⟨-, result, id, here, here'⟩ := known member
  exact (Dependency.requiredNames_numbered here here').symm

end

theorem Audited.fresh {sources' : Ledger String} {raw text path : String}
    (reads : Corpus.Reads settings (sources ++ sources') raw text path)
    (audited : Audited settings (sources ++ sources') corpus analysed first) :
    scriptAt? corpus.scripts path = none := by
  refine List.find?_eq_none.mpr fun script member own => ?_
  have ingesting : Ends (Corpus.ingest settings (sources ++ sources')) [] corpus [] :=
    Corpus.ends_ingest_iff.mpr ⟨audited.read, rfl⟩
  obtain ⟨other, known, normal⟩ := ((Corpus.ends_ingest ingesting).2 script member).source
  exact reads.fresh other known (eq_of_beq own ▸ normal)

/-- The survivors of a corpus survive in a corpus with one more file that provides none of the names
that the others provide. -/
theorem survivors_grow (accepted : settings.Accepted) {sources sources' : Ledger String}
    {raw text path : String}
    (reads : Corpus.Reads settings (sources ++ sources') raw text path)
    (apart : ∀ name ∈ ((provides settings (sources ++ (raw, text) :: sources')).get? path).getD [],
      ∀ entry ∈ provides settings (sources ++ sources'), name ∉ entry.2)
    {withGraph : Bool} {log : List LogLine} {report : Report} {final : Workspace}
    (ran : Ran settings (sources ++ sources') withGraph log report final) :
    (∃ first, Passed settings (sources ++ (raw, text) :: sources') first ∧
      ∀ other ∈ report.outputs.names, other ∈ first.live) ∧
    ∀ withGraph' log' report' final',
      Ran settings (sources ++ (raw, text) :: sources') withGraph' log' report' final' →
        ∀ other ∈ report.outputs.names, other ∈ report'.outputs.names := by
  have survives {first' : Workspace}
      (passed' : Passed settings (sources ++ (raw, text) :: sources') first') :
      ∀ other ∈ report.outputs.names, other ∈ first'.live := by
    intro other survived
    obtain ⟨first, phases⟩ := ran.phases
    obtain ⟨corpus, analysed, audited⟩ := phases.passed.audited
    obtain ⟨larger', analysed', audited'⟩ := passed'.audited
    obtain ⟨larger, read, gains⟩ := Corpus.read?_gains reads audited.read
    cases audited'.read.symm.trans read
    rw [names_outputs, (phases.writing accepted).paths] at survived
    refine audited.live_subset audited' gains (audited.fresh reads) ?_ other survived
    exact fun name member entry known own => absurd own (apart name member entry known)
  constructor
  · obtain ⟨first, phases⟩ := ran.phases
    obtain ⟨corpus, analysed, audited⟩ := phases.passed.audited
    obtain ⟨larger, read, -⟩ := Corpus.read?_gains reads audited.read
    obtain ⟨first', passed'⟩ := exists_passed read
    exact ⟨first', passed', survives passed'⟩
  · intro withGraph' log' report' final' ran' other survived
    obtain ⟨first', phases'⟩ := ran'.phases
    rw [names_outputs, (phases'.writing accepted).paths]
    exact survives phases'.passed other survived

def danglingSources : Ledger String :=
  cyclicSources.take 2 ++ ("bb.js", "THREE.D = THREE.E;") :: cyclicSources.drop 2

theorem evaluate_danglingSources :
    (∀ name ∈ ((provides {} danglingSources).get? "./bb.js").getD [],
      ∀ entry ∈ provides {} cyclicSources, name ∉ entry.2) ∧
    Path.normalize? "bb.js" = some "./bb.js" ∧
    (∀ other ∈ cyclicSources.map Prod.fst, Path.normalize? other ≠ some "./bb.js") ∧
    (Tree.Node.parse? "THREE.D = THREE.E;").isSome = true := by
  decide +kernel

theorem survivors_grow_danglingSources : ∃ report final first,
    Ran {} cyclicSources false [] report final ∧ Passed {} danglingSources first ∧
      "./c.js" ∈ report.outputs.names ∧ "./c.js" ∈ first.live := by
  obtain ⟨report, final, ran, -, ⟨written, member, path, -⟩, -⟩ := ran_cyclicSources
  obtain ⟨apart, normal, fresh, parsed⟩ := evaluate_danglingSources
  have reads : Corpus.Reads {} (cyclicSources.take 2 ++ cyclicSources.drop 2) "bb.js"
      "THREE.D = THREE.E;" "./bb.js" := ⟨normal, fresh, by decide, by decide, parsed⟩
  obtain ⟨⟨first, passed, survive⟩, -⟩ :=
    survivors_grow Settings.accepted_standard reads apart ran
  have survived : "./c.js" ∈ report.outputs.names := by
    rw [names_outputs, ← path]
    exact List.mem_map_of_mem (List.mem_map_of_mem member)
  exact ⟨report, final, first, ran, passed, survived, survive _ survived⟩

end Conversion

end ScriptModules
