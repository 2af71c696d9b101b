import ScriptModules.Conversion.Report
import ScriptModules.Proofs.Analysis.Access
import ScriptModules.Proofs.Corpus.Index
import ScriptModules.Proofs.Dependency.Reachability
import ScriptModules.Proofs.Task

namespace ScriptModules

namespace Dependency

theorem scriptAt?_putScript (workspace : Workspace) (script : Script) (path : String) :
    scriptAt? (workspace.putScript script).scripts path =
      (scriptAt? workspace.scripts path).map fun old =>
        if old.path = script.path then script else old := by
  have same : (fun old : Script => old.path == path) ∘
      (fun old => if old.path = script.path then script else old) = fun old => old.path == path := by
    funext old
    by_cases own : old.path = script.path <;> simp [own]
  rw [Workspace.putScript, scriptAt?, List.find?_map, same]
  rfl

theorem scriptAt?_putScript_self {workspace : Workspace} {script old : Script}
    (found : scriptAt? workspace.scripts script.path = some old) :
    scriptAt? (workspace.putScript script).scripts script.path = some script := by
  rw [scriptAt?_putScript, found, Option.map_some, if_pos (path_of_scriptAt? found).2]

theorem scriptAt?_putScript_of_ne (workspace : Workspace) {script : Script} {path : String}
    (other : path ≠ script.path) :
    scriptAt? (workspace.putScript script).scripts path = scriptAt? workspace.scripts path := by
  rw [scriptAt?_putScript]
  cases found : scriptAt? workspace.scripts path with
  | none => rfl
  | some old =>
      obtain ⟨-, rfl⟩ := path_of_scriptAt? found
      rw [Option.map_some, if_neg other]

end Dependency

theorem Workspace.path_putScript (workspace : Workspace) (script : Script) :
    (workspace.putScript script).scripts.map Script.path =
      workspace.scripts.map Script.path := by
  rw [putScript, List.map_map]
  refine List.map_congr_left fun old _ => ?_
  by_cases own : old.path = script.path <;> simp [own]

theorem Workspace.putScript_putScript (workspace : Workspace) {first second : Script}
    (same : first.path = second.path) :
    (workspace.putScript first).putScript second = workspace.putScript second := by
  have twice : (fun old : Script => if old.path = second.path then second else old) ∘
      (fun old => if old.path = first.path then first else old) =
        fun old => if old.path = second.path then second else old := by
    funext old
    by_cases own : old.path = second.path <;> simp [same, own]
  simp only [putScript, List.map_map, twice]

/-- What the analysis of a file makes of its script: the type checks are replaced, then the accesses
are classified. -/
def Script.Becomes (settings : Settings) (read result : Script) (exclusion? : Option Exclusion) :
    Prop :=
  ∃ checked events, TypeCheck.replace settings read = .ok (checked, events) ∧
    Access.classify settings checked = .ok (result, exclusion?)

theorem Script.Becomes.same {settings : Settings} {read result : Script}
    {exclusion? : Option Exclusion} (becomes : read.Becomes settings result exclusion?) : result =
      { read with
        tree := result.tree, names := result.names, provides := result.provides
        requires := result.requires, helpers := result.helpers } := by
  obtain ⟨checked, events, replaced, classified⟩ := becomes
  have same := Access.classify_same classified
  rw [TypeCheck.replace_same replaced] at same
  rw [same]

def Workspace.survey (workspace : Workspace) : Dependency.Survey :=
  Dependency.checkIntegrity (Dependency.requiredNames workspace.scripts) workspace.live
    workspace.index

def Workspace.core (workspace : Workspace) : Workspace :=
  { workspace with trace := {}, log := [] }

section

variable {workspace other : Workspace} (same : workspace.core = other.core)

include same

theorem Workspace.surroundings_eq : workspace.surroundings = other.surroundings :=
  show workspace.core.surroundings = other.core.surroundings from congrArg _ same

theorem Workspace.settings_eq : workspace.settings = other.settings :=
  congrArg Surroundings.settings (surroundings_eq same)

theorem Workspace.scripts_eq : workspace.scripts = other.scripts :=
  congrArg Surroundings.scripts (surroundings_eq same)

theorem Workspace.index_eq : workspace.index = other.index :=
  congrArg Surroundings.index (surroundings_eq same)

theorem Workspace.live_eq : workspace.live = other.live :=
  congrArg Surroundings.live (surroundings_eq same)

theorem Workspace.survey_eq : workspace.survey = other.survey :=
  show workspace.core.survey = other.core.survey from congrArg _ same

theorem Workspace.entry_eq : workspace.entry = other.entry :=
  show workspace.core.entry = other.core.entry from congrArg _ same

end

namespace Work

variable {before after : Workspace}

theorem ends_scriptAt {path : String} {script : Script} :
    Ends (scriptAt path) before script after ↔
      Dependency.scriptAt? before.scripts path = some script ∧ after = before := by
  simp only [scriptAt, Ends.bind_iff, Ends.get_iff]
  constructor
  · rintro ⟨_, _, ⟨rfl, rfl⟩, ends⟩
    split at ends
    · rename_i found
      obtain ⟨rfl, rfl⟩ := (Ends.pure_iff _ _ _ _).mp ends
      exact ⟨found, rfl⟩
    · exact ((Ends.throw_iff _ _ _ _).mp ends).elim
  · rintro ⟨found, rfl⟩
    refine ⟨after, after, ⟨rfl, rfl⟩, ?_⟩
    simp [found]

theorem core_logged {α : Type} {task : Logged α} {value : α}
    (ends : Ends (logged task) before value after) : after.core = before.core := by
  obtain ⟨log, -, rfl⟩ := (Ends.onPart_iff _ _ _ _ _ _).mp ends
  rfl

theorem core_note {level : Level} {message : String} {value : Unit}
    (ends : Ends (note level message) before value after) : after.core = before.core :=
  core_logged ends

theorem core_record {event : Event} {value : Unit}
    (ends : Ends (record event) before value after) : after.core = before.core := by
  rw [record, Ends.modify_iff] at ends
  subst ends
  rfl

theorem core_records {events : List Event} (ends : Ends (events.forM record) before ⟨⟩ after) :
    after.core = before.core := by
  refine Ends.forM_invariant (fun _ after => after.core = before.core) ?_ ends rfl
  intro done event todo between after parts same ends
  exact (core_record ends).trans same

theorem ends_render {program : Tree.Node} {path code : String}
    (ends : Ends (render program path) before code after) :
    code = program.render before.settings.indent ∧ after.core = before.core := by
  simp only [render, Ends.bind_iff, Ends.get_iff] at ends
  obtain ⟨_, _, ⟨rfl, rfl⟩, ends⟩ := ends
  refine ⟨?_, core_logged ends⟩
  obtain ⟨log, written, -⟩ := (Ends.onPart_iff _ _ _ _ _ _).mp ends
  exact ((Ends.pure_iff _ _ _ _).mp written).1

theorem ends_replaceChecks_iff {path : String} {count : Nat} :
    Ends (replaceChecks path) before count after ↔
      ∃ script checked events, Dependency.scriptAt? before.scripts path = some script ∧
        TypeCheck.replace before.settings script = .ok (checked, events) ∧
          Ends (events.forM record) (before.putScript checked) ⟨⟩ after ∧
            events.length = count := by
  simp only [replaceChecks, Ends.bind_iff, Ends.get_iff, ends_scriptAt, Ends.liftM_iff,
    Ends.modify_iff, Ends.pure_iff]
  constructor
  · rintro ⟨_, _, ⟨rfl, rfl⟩, script, _, ⟨found, rfl⟩, ⟨checked, events⟩, _, ⟨replaced, rfl⟩, _, _,
      rfl, _, _, recorded, rfl, rfl⟩
    exact ⟨script, checked, events, found, replaced, recorded, rfl⟩
  · rintro ⟨script, checked, events, found, replaced, recorded, rfl⟩
    exact ⟨_, _, ⟨rfl, rfl⟩, script, _, ⟨found, rfl⟩, (checked, events), _, ⟨replaced, rfl⟩, ⟨⟩, _,
      rfl, ⟨⟩, _, recorded, rfl, rfl⟩

theorem ends_replaceChecks {path : String} {count : Nat}
    (ends : Ends (replaceChecks path) before count after) :
    ∃ script checked events, Dependency.scriptAt? before.scripts path = some script ∧
      TypeCheck.replace before.settings script = .ok (checked, events) ∧
        after.core = (before.putScript checked).core := by
  obtain ⟨script, checked, events, found, replaced, recorded, -⟩ := ends_replaceChecks_iff.mp ends
  exact ⟨script, checked, events, found, replaced, core_records recorded⟩

theorem ends_checkIntegrity_iff {dropped : List (String × String)} :
    Ends checkIntegrity before dropped after ↔ dropped = before.survey.dropped ∧
      after = { before with live := before.survey.live, index := before.survey.index } := by
  rw [checkIntegrity, Ends.get_bind_iff]
  simp only [Ends.bind_iff, Ends.set_iff, Ends.pure_iff]
  constructor
  · rintro ⟨_, _, rfl, rfl, rfl⟩
    exact ⟨rfl, rfl⟩
  · rintro ⟨rfl, rfl⟩
    exact ⟨⟨⟩, _, rfl, rfl, rfl⟩

theorem core_register {path name : String} {value : Unit}
    (ends : Ends (register path name) before value after) :
    after.core = { before.core with index := (before.index.register name path).1 } := by
  simp only [register, Ends.bind_iff, Ends.get_iff, Ends.modify_iff] at ends
  obtain ⟨_, _, ⟨rfl, rfl⟩, _, between, changed, ends⟩ := ends
  have same : after.core = between.core := by
    split at ends
    · rw [((Ends.pure_iff _ _ _ _).mp ends).2]
    · obtain ⟨_, _, noted, recorded⟩ := (Ends.bind_iff _ _ _ _ _).mp ends
      exact (core_record recorded).trans (core_note noted)
  rw [same, changed]
  rfl

theorem core_registers {path : String} {names : List String}
    (ends : Ends (names.forM (register path)) before ⟨⟩ after) :
    after.core = { before.core with index := before.index.registerAll path names } := by
  refine Ends.forM_invariant (fun done after => after.core =
    { before.core with index := before.index.registerAll path done }) ?_ ends rfl
  intro done name todo between after parts same ends
  have index : between.index = before.index.registerAll path done :=
    @Workspace.index_eq between { before with index := _ } same
  rw [core_register ends, same, index, Index.registerAll, Index.registerAll, List.foldl_append]
  rfl

/-! ## Analysing a file -/

def settle (workspace : Workspace) (result : Script) : Option Exclusion → Workspace
  | some _ => (workspace.putScript result).drop result.path
  | none => { workspace.putScript result with
      index := workspace.index.registerAll result.path result.provides.names }

section Settling

variable (before : Workspace) (result : Script) (exclusion? : Option Exclusion)

@[simp] theorem settings_settle :
    (settle before result exclusion?).settings = before.settings := by
  cases exclusion? <;> rfl

@[simp] theorem scripts_settle :
    (settle before result exclusion?).scripts = (before.putScript result).scripts := by
  cases exclusion? <;> rfl

@[simp] theorem mem_live_settle (path : String) :
    path ∈ (settle before result exclusion?).live ↔
      path ∈ before.live ∧ (path = result.path → exclusion? = none) := by
  cases exclusion? <;> simp [settle, Workspace.drop, Workspace.putScript]

end Settling

theorem ends_analyze {path : String} {exclusion? : Option Exclusion}
    (ends : Ends (analyze path) before exclusion? after) :
    ∃ read result, Dependency.scriptAt? before.scripts path = some read ∧
      read.Becomes before.settings result exclusion? ∧ result.path = path ∧
        after.core = (settle before result exclusion?).core := by
  simp only [analyze, Ends.bind_iff, Ends.get_iff, ends_scriptAt, Ends.liftM_iff,
    Ends.modify_iff] at ends
  obtain ⟨_, _, replacing, _, _, ⟨rfl, rfl⟩, checked', _, ⟨found', rfl⟩, ⟨result, exclusion⟩,
    between, ⟨classified, rfl⟩, _, last, put, ends⟩ := ends
  obtain ⟨read, checked, events, found, replaced, same⟩ := ends_replaceChecks replacing
  obtain ⟨-, rfl⟩ := Dependency.path_of_scriptAt? found
  have path : checked.path = read.path := by rw [TypeCheck.replace_same replaced]
  have scripts : between.scripts = (before.putScript checked).scripts := Workspace.scripts_eq same
  have settings : between.settings = before.settings := (Workspace.settings_eq same).trans rfl
  have here := Dependency.scriptAt?_putScript_self (path.symm ▸ found)
  rw [← scripts, path, found'] at here
  cases here
  rw [settings] at classified
  have becomes : read.Becomes before.settings result exclusion :=
    ⟨checked', events, replaced, classified⟩
  have samePath : result.path = read.path := by rw [becomes.same]
  have exchanged : last.core = (before.putScript result).core := by
    have whole : last.core = (between.core.putScript result) := by
      rw [put]
      rfl
    rw [whole, same]
    exact Workspace.putScript_putScript before.core (path.trans samePath.symm)
  refine ⟨read, result, found, ?_⟩
  cases exclusion with
  | some exclusion =>
      simp only [Ends.bind_iff, Ends.modify_iff, Ends.pure_iff] at ends
      obtain ⟨_, _, rfl, rfl, rfl⟩ := ends
      refine ⟨becomes, samePath, ?_⟩
      change last.core.drop read.path = _
      rw [exchanged, settle, samePath]
      rfl
  | none =>
      simp only [Ends.bind_iff, Ends.pure_iff] at ends
      obtain ⟨_, _, registered, rfl, rfl⟩ := ends
      refine ⟨becomes, samePath, ?_⟩
      have index : last.index = before.index := (Workspace.index_eq exchanged).trans rfl
      rw [core_registers registered, exchanged, index, settle, samePath]
      rfl

end Work

namespace Conversion

variable {before after : Workspace}

theorem ends_phase {α : Type} {name detail : String} {task : Work α} {value : α}
    (ends : Ends (phase name detail task) before value after) :
    ∃ start last, start.core = before.core ∧ Ends task start value last ∧
      after.core = last.core := by
  simp only [phase, Ends.bind_iff, Ends.modify_iff, Ends.pure_iff] at ends
  obtain ⟨_, start, started, _, last, ends, _, _, rfl, rfl, rfl⟩ := ends
  refine ⟨start, last, ?_, ends, rfl⟩
  rw [started]
  rfl

theorem ends_exclude {path reason : String} {file : ExcludedFile}
    (ends : Ends (exclude path reason) before file after) :
    file = { path, reason } ∧ after.core = before.core := by
  simp only [exclude, Ends.bind_iff, Ends.pure_iff] at ends
  obtain ⟨_, between, noted, _, _, recorded, rfl, rfl⟩ := ends
  exact ⟨rfl, (Work.core_record recorded).trans (Work.core_note noted)⟩

end Conversion

end ScriptModules
