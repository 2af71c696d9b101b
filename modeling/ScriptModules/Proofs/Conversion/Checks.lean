import ScriptModules.Proofs.Analysis.Recast
import ScriptModules.Proofs.Conversion.Growth

namespace ScriptModules

open Dependency (scriptAt?)
open TypeCheck (checks helperName Recasts)

def Script.Fresh (settings : Settings) (sources : Ledger String) (script : Script) : Prop :=
  (∃ log corpus log', Ends (Corpus.ingest settings sources) log corpus log' ∧
    script ∈ corpus.scripts) ∨ script.Merged settings sources

variable {settings : Settings} {sources : Ledger String}

theorem Script.Merged.opened {script : Script} (merged : script.Merged settings sources) :
    script.Opened settings sources := by
  obtain ⟨log, corpus, log', after, ingesting, merging, found⟩ := merged
  have ordered := Conversion.ordered_ofCorpus ingesting (Conversion.readingTrace sources.length)
  have scripts := Workspace.scripts_eq (Conversion.ends_mergePhase_scripts ordered.unique rfl merging)
  have known : script.path ∈ corpus.scripts.map Script.path := by
    have found := found
    rw [scripts, Dependency.scriptAt?_map (path_withChunks _)] at found
    obtain ⟨read, found, rfl⟩ := Option.map_eq_some_iff.mp found
    rw [path_withChunks]
    exact List.mem_map_of_mem (Dependency.path_of_scriptAt? found).1
  have live : script.path ∈ after.live := by
    rw [Conversion.live_mergePhase merging]
    exact known
  obtain ⟨script', found', opened⟩ :=
    (Conversion.ingested_mergePhase ingesting merging).1.opened script.path live
  cases found.symm.trans found'
  exact opened

theorem Script.Fresh.opened {script : Script} (fresh : script.Fresh settings sources) :
    script.Opened settings sources := by
  rcases fresh with ⟨log, corpus, log', ingesting, member⟩ | merged
  · exact (Corpus.ends_ingest ingesting).2 script member
  · exact merged.opened

theorem Workspace.putScript_of_scripts {workspace before : Workspace} {script : Script}
    (scripts : workspace.scripts = (before.putScript script).scripts) :
    workspace.putScript script = workspace := by
  have twice : (workspace.putScript script).scripts = workspace.scripts := by
    have again := congrArg Workspace.scripts
      (before.putScript_putScript (rfl : script.path = script.path))
    rwa [putScript, ← scripts] at again
  change { workspace with scripts := (workspace.putScript script).scripts } = workspace
  rw [twice]

namespace Work

variable {before : Workspace} {path : String} {script checked : Script} {events : List Event}

theorem exists_replaceChecks (found : scriptAt? before.scripts path = some script)
    (replaced : TypeCheck.replace before.settings script = .ok (checked, events)) :
    ∃ after, Ends (replaceChecks path) before events.length after ∧
      after.core = (before.putScript checked).core := by
  have confined : Confined (fun _ => False) (events.forM record) (before.putScript checked) :=
    .forM fun _ _ _ => confined_record _ _
  obtain ⟨⟨⟩, after, recorded⟩ := confined.exists_ends
  exact ⟨after, ends_replaceChecks_iff.mpr ⟨script, checked, events, found, replaced, recorded, rfl⟩,
    core_records recorded⟩

theorem ends_replaceChecks_settled (found : scriptAt? before.scripts path = some script)
    (replaced : TypeCheck.replace before.settings script = .ok (script, []))
    (put : before.putScript script = before) : Ends (replaceChecks path) before 0 before :=
  ends_replaceChecks_iff.mpr
    ⟨script, script, [], found, replaced, Ends.forM_nil_iff.mpr put.symm, rfl⟩

end Work

namespace Conversion

variable {before : Workspace} {read : Script}

/-- The type checks of a file are replaced as by the recursion, and their number is returned. A second
pass finds none and changes nothing. -/
theorem checks_recast (fresh : read.Fresh settings sources) (given : before.settings = settings)
    (found : scriptAt? before.scripts read.path = some read) :
    ∃ checked after,
      Ends (Work.replaceChecks read.path) before (checks settings read.tree).length after ∧
      scriptAt? after.scripts read.path = some checked ∧ Recasts settings read checked ∧
      Ends (Work.replaceChecks read.path) after 0 after := by
  have opened := fresh.opened
  obtain ⟨checked, replaced, recasts, again⟩ :=
    @TypeCheck.replace_recasts settings read opened.sound opened.taken
      (by rw [opened.program]; decide)
  subst given
  obtain ⟨after, ends, same⟩ := Work.exists_replaceChecks found replaced
  have path : checked.path = read.path := by rw [TypeCheck.replace_same replaced]
  have scripts : after.scripts = (before.putScript checked).scripts := Workspace.scripts_eq same
  have here : scriptAt? after.scripts read.path = some checked := by
    rw [scripts, ← path]
    exact Dependency.scriptAt?_putScript_self (path.symm ▸ found)
  rw [List.length_map, List.length_reverse] at ends
  refine ⟨checked, after, ends, here, recasts, Work.ends_replaceChecks_settled here ?_
    (Workspace.putScript_of_scripts scripts)⟩
  rw [Workspace.settings_eq same]
  exact again

def ingested (settings : Settings) (sources : Ledger String) : List Script :=
  match (Corpus.ingest settings sources).run.run [] with
  | (.ok corpus, _) => corpus.scripts
  | _ => []

theorem fresh_of_mem_ingested (member : read ∈ ingested settings sources) :
    read.Fresh settings sources := by
  unfold ingested at member
  split at member
  · rename_i corpus log ingesting
    exact .inl ⟨[], corpus, log, ingesting, member⟩
  · cases member

def single (settings : Settings) (script : Script) : Workspace :=
  { settings, scripts := [script], live := [script.path], entry := { path := "", extension := "" } }

theorem scriptAt?_single (settings : Settings) (script : Script) :
    scriptAt? (single settings script).scripts script.path = some script := by
  simp [single, scriptAt?]

/-- A check whose operand is a check, in a function that stands in the operand of a third check. -/
def nestedChecks : Ledger String :=
  [("a.js",
    "x(function (a) \x7b return a instanceof THREE.A instanceof Function; \x7d) instanceof Array;")]

theorem evaluate_nestedChecks : ((ingested {} nestedChecks).any fun read =>
    decide (checks {} read.tree = [⟨"Array", true⟩, ⟨"Function", true⟩, ⟨"A", false⟩])) = true := by
  decide +kernel

theorem checks_recast_nestedChecks : ∃ read checked after, read.Fresh {} nestedChecks ∧
    Ends (Work.replaceChecks read.path) (single {} read) 3 after ∧
    scriptAt? after.scripts read.path = some checked ∧ Recasts {} read checked ∧
    Ends (Work.replaceChecks read.path) after 0 after := by
  obtain ⟨read, member, found⟩ := List.any_eq_true.mp evaluate_nestedChecks
  have fresh := fresh_of_mem_ingested member
  obtain ⟨checked, after, ends, recast⟩ := checks_recast fresh rfl (scriptAt?_single {} read)
  rw [of_decide_eq_true found] at ends
  exact ⟨read, checked, after, fresh, ends, recast⟩

end Conversion

end ScriptModules
