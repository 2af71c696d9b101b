import ScriptModules.Proofs.Command.Delivery
import ScriptModules.Proofs.Frame

/-!
# How the command comes out

The command writes only behind a conversion, so a failure that it reports with exit code 1 leaves the
files as they were. Not every failure is reported: settings that are wrong and sources that are no
programs are, but faults of four other kinds leave the command (`Escapes`). These leave the files alone,
too; only a file that cannot be written stops the command half way (`convert_outcome`).
-/

namespace ScriptModules

def Fault.isWriting : Fault → Bool
  | fileInTheWay _ | notADirectory _ | isADirectory _ | sameFile _ | noDirectory _ => true
  | _ => false

namespace FileTree

variable {tree : FileTree} {path : FilePath} {fault : Fault}

theorem makeDirectoriesFrom_fault {names : List String} {location : Location}
    (stopped : tree.makeDirectoriesFrom location names = .error fault) : fault.isWriting = true := by
  induction names generalizing tree location with
  | nil => cases stopped
  | cons name names ih =>
      unfold makeDirectoriesFrom at stopped
      split at stopped
      · exact ih stopped
      · dsimp only at stopped
        split at stopped
        · exact ih stopped
        · cases stopped
          split <;> rfl
        · exact ih stopped

theorem writeFile_fault {content : ByteArray} (stopped : tree.writeFile path content = .error fault) :
    fault.isWriting = true := by
  unfold writeFile at stopped
  split at stopped
  · cases stopped
    rfl
  · split at stopped
    · cases stopped
      rfl
    · split at stopped
      all_goals cases stopped
      all_goals rfl

end FileTree

namespace Command

open CommandState (files)

variable {before after : CommandState} {fault : Fault} {α : Type}

/-! ## Before a file is written -/

theorem spares_logged (task : Logged α) : Spares files (logged task) := by
  refine .onPart ?_ task
  exact fun _ _ => rfl

theorem spares_settingsFor (input : FilePath) (overrides : Ledger Value) :
    Spares files (settingsFor input overrides) := by
  refine .bind .get fun state => .bind (.tryCatch ?_ fun fault => ?_) fun result => ?_
  · exact .bind (spares_logged _) fun _ => .pure _
  · split
    · exact .bind (spares_logged _) fun _ => .pure _
    · exact .bind (.throw _) fun _ => .pure _
  · cases result <;> exact .pure _

theorem spares_convertDirectory (settings : Settings) (input : FilePath) (withGraph : Bool) :
    Spares files (convertDirectory settings input withGraph) := by
  refine .bind .get fun state => .bind (.liftM _) fun sources =>
    .bind (.tryCatch ?_ fun fault => ?_) fun result => ?_
  · exact .bind (spares_logged _) fun _ => .pure _
  · split
    · exact .bind (spares_logged _) fun _ => .pure _
    · exact .bind (.throw _) fun _ => .pure _
  · cases result <;> exact .pure _

theorem stops_rethrown {β : Type} {given : Fault} {next : β → Task α}
    (stops : Stops (throw given >>= next) before fault after) : fault = given ∧ after = before := by
  simpa only [Stops.bind_iff, Stops.throw_iff, Ends.throw_iff, false_and, exists_false, or_false]
    using stops

theorem stops_settingsFor {input : FilePath} {overrides : Ledger Value}
    (stops : Stops (settingsFor input overrides) before fault after) :
    spoilsSettings fault = false ∧ ∃ log log',
      Stops (Settings.load before.files input overrides) log fault log' := by
  simp only [settingsFor, logged, Stops.bind_iff, Stops.get_iff, Stops.tryCatch_iff,
    Stops.return_iff, Stops.onPart_iff, Ends.get_iff, and_false, exists_false, or_false,
    false_or] at stops
  obtain ⟨_, _, ⟨rfl, rfl⟩, ⟨given, between, ⟨log, loads, rfl⟩, handled⟩ | ⟨result, _, -, stops⟩⟩ :=
    stops
  · split at handled
    · simp [note, logged, Logged.note, Stops.return_iff] at handled
    · rename_i other
      obtain ⟨rfl, -⟩ := stops_rethrown handled
      exact ⟨Bool.eq_false_iff.mpr other, _, log, loads⟩
  · cases result
    all_goals cases stops

theorem stops_convertDirectory {settings : Settings} {input : FilePath} {withGraph : Bool}
    (stops : Stops (convertDirectory settings input withGraph) before fault after) :
    Corpus.readSources before.files input settings = .error fault ∨
      abortedAt? fault = none ∧ ∃ sources log log',
        Corpus.readSources before.files input settings = .ok sources ∧
          Stops (Conversion.run settings sources withGraph) log fault log' := by
  simp only [convertDirectory, logged, Stops.bind_iff, Stops.get_iff, Stops.liftM_iff,
    Stops.tryCatch_iff, Stops.return_iff, Stops.onPart_iff, Ends.get_iff, Ends.liftM_iff, and_false,
    exists_false, or_false, false_or] at stops
  obtain ⟨_, _, ⟨rfl, rfl⟩, ⟨unread, -⟩ | ⟨sources, _, ⟨read, rfl⟩, ⟨given, between,
    ⟨log, converts, rfl⟩, handled⟩ | ⟨result, _, -, stops⟩⟩⟩ := stops
  · exact .inl unread
  · split at handled
    · simp [note, logged, Logged.note, Stops.return_iff] at handled
    · rename_i other
      obtain ⟨rfl, -⟩ := stops_rethrown handled
      exact .inr ⟨other, sources, _, log, read, converts⟩
  · cases result
    all_goals cases stops

/-! ## Writing -/

theorem confined_note (level : Level) (message : String) (before : CommandState) :
    Confined (fun fault => fault.isWriting = true) (note level message) before := by
  unfold note logged Logged.note
  exact .onPart (.modify _)

theorem confined_changeFiles {change : FileTree → Except Fault FileTree}
    (known : ∀ fault, change before.files = .error fault → fault.isWriting = true) :
    Confined (fun fault => fault.isWriting = true) (changeFiles change) before := by
  refine .bind_of_ends (.get_same _) ?_
  exact .bind (.liftM known) fun _ _ _ => .modify _

theorem confined_writeText (path : FilePath) (text : String) (before : CommandState) :
    Confined (fun fault => fault.isWriting = true) (writeText path text) before :=
  .bind (confined_changeFiles fun _ => FileTree.makeDirectoriesFrom_fault) fun _ _ _ =>
    .bind (confined_changeFiles fun _ => FileTree.writeFile_fault) fun _ _ _ => confined_note _ _ _

theorem confined_copyTemplate (settings : Settings) (output : FilePath) (name : String)
    (before : CommandState) :
    Confined (fun fault => fault.isWriting = true) (copyTemplate settings output name) before := by
  refine .bind_of_ends (.get_same _) ?_
  split
  · rename_i file
    refine .bind (confined_changeFiles fun _ => FileTree.makeDirectoriesFrom_fault)
      fun _ between made => .bind (confined_changeFiles fun fault stopped => ?_) fun _ _ _ =>
        confined_note _ _ _
    -- the template is still there behind the directories that are made
    unfold FileTree.isFile at file
    split at file
    · rename_i content here
      have touches := FileTree.makeDirectories_touches (ends_changeFiles made)
      rcases touches.lookUp here with stays | ⟨_, impossible, -⟩
      · unfold copyFile at stopped
        rw [stays] at stopped
        dsimp only at stopped
        split at stopped
        · cases stopped
          rfl
        · exact FileTree.writeFile_fault stopped
      · cases impossible
    · cases file
  · exact confined_note _ _ _

theorem confined_close (report : Report) (before : CommandState) :
    Confined (fun fault => fault.isWriting = true) (close report) before := by
  unfold close
  split
  · exact confined_note _ _ _
  · exact .modify _

theorem confined_deliver (request : Request) (settings : Settings) (report : Report)
    (before : CommandState) :
    Confined (fun fault => fault.isWriting = true) (deliver request settings report) before := by
  refine .bind (confined_note _ _ _) fun _ _ _ =>
    .bind (.forM fun _ _ _ => confined_writeText _ _ _) fun _ _ _ =>
    .bind (confined_writeText _ _ _) fun _ _ _ =>
    .bind (.forM fun _ _ _ => confined_copyTemplate _ _ _ _) fun _ _ _ => ?_
  dsimp only
  have closes := confined_close report
  split
  · refine .bind (confined_writeText _ _ _) fun _ _ _ => ?_
    split
    · exact .bind (confined_writeText _ _ _) fun _ _ _ => closes _
    · exact closes _
  · split
    · exact .bind (confined_writeText _ _ _) fun _ _ _ => closes _
    · exact closes _

/-! ## The command -/

/-- The faults that leave the command before it writes: of a number among the arguments, of a settings
file, of the bytes or the path of a source file, and of a conversion, unless it is about a program that
cannot be read or written. -/
inductive Escapes (request : Request) (tree : FileTree) : Fault → Prop where
  | argument {fault log log'} (stops : Stops (Settings.ofItems request.settings) log fault log') :
    Escapes request tree fault
  | settings {overrides fault log log'} (other : spoilsSettings fault = false)
    (stops : Stops (Settings.load tree request.input overrides) log fault log') :
    Escapes request tree fault
  | source {settings fault} (unread : Corpus.readSources tree request.input settings = .error fault) :
    Escapes request tree fault
  | conversion {settings sources fault log log'} (accepted : settings.Accepted)
    (read : Corpus.readSources tree request.input settings = .ok sources)
    (other : abortedAt? fault = none)
    (stops : Stops (Conversion.run settings sources request.graph.isSome) log fault log') :
    Escapes request tree fault

theorem ends_convert {request : Request} {code : Nat}
    (ends : Ends (convert request) before code after) :
    code = 0 ∨ code = 1 ∧ after.files = before.files := by
  simp only [convert, Ends.bind_iff, Ends.get_iff] at ends
  obtain ⟨overrides, _, given, _, opened, ⟨rfl, rfl⟩, ends⟩ := ends
  have kept := (spares_logged _).leaves _ _ _ given
  split at ends
  · obtain ⟨settings?, _, loaded, ends⟩ := (Ends.bind_iff _ _ _ _ _).mp ends
    have kept := ((spares_settingsFor _ _).leaves _ _ _ loaded).trans kept
    cases settings? with
    | none =>
        obtain ⟨rfl, rfl⟩ := (Ends.pure_iff _ _ _ _).mp ends
        exact .inr ⟨rfl, kept⟩
    | some settings =>
        obtain ⟨report?, _, converted, ends⟩ := (Ends.bind_iff _ _ _ _ _).mp ends
        have kept := ((spares_convertDirectory _ _ _).leaves _ _ _ converted).trans kept
        cases report? with
        | none =>
            obtain ⟨rfl, rfl⟩ := (Ends.pure_iff _ _ _ _).mp ends
            exact .inr ⟨rfl, kept⟩
        | some report =>
            obtain ⟨_, _, -, ends⟩ := (Ends.bind_iff _ _ _ _ _).mp ends
            exact .inl ((Ends.pure_iff _ _ _ _).mp ends).1
  · obtain ⟨_, _, noted, ends⟩ := (Ends.bind_iff _ _ _ _ _).mp ends
    obtain ⟨rfl, rfl⟩ := (Ends.pure_iff _ _ _ _).mp ends
    exact .inr ⟨rfl, (ends_note noted).trans kept⟩

theorem stops_convert {request : Request} (stops : Stops (convert request) before fault after) :
    fault.isWriting = true ∨ after.files = before.files ∧ Escapes request before.files fault := by
  simp only [convert, Stops.bind_iff, Stops.get_iff, Ends.get_iff, false_or] at stops
  rcases stops with stops | ⟨overrides, _, given, _, opened, ⟨rfl, rfl⟩, stops⟩
  · obtain ⟨log, argument, -⟩ := (Stops.onPart_iff _ _ _ _ _ _).mp stops
    exact .inr ⟨(spares_logged _).stops _ _ _ stops, .argument argument⟩
  have kept := (spares_logged _).leaves _ _ _ given
  split at stops
  · rcases (Stops.bind_iff _ _ _ _ _).mp stops with stops | ⟨settings?, _, loaded, stops⟩
    · obtain ⟨other, log, log', stops'⟩ := stops_settingsFor stops
      rw [kept] at stops'
      exact .inr ⟨((spares_settingsFor _ _).stops _ _ _ stops).trans kept, .settings other stops'⟩
    have kept := ((spares_settingsFor _ _).leaves _ _ _ loaded).trans kept
    cases settings? with
    | none => exact ((Stops.pure_iff _ _ _ _).mp stops).elim
    | some settings =>
        rcases (Stops.bind_iff _ _ _ _ _).mp stops with stops | ⟨report?, _, -, stops⟩
        · refine .inr ⟨((spares_convertDirectory _ _ _).stops _ _ _ stops).trans kept, ?_⟩
          have failed := stops_convertDirectory stops
          rw [kept] at failed
          rcases failed with unread | ⟨other, sources, log, log', read, stops⟩
          · exact .source unread
          · exact .conversion (ends_settingsFor loaded) read other stops
        · cases report? with
          | none => exact ((Stops.pure_iff _ _ _ _).mp stops).elim
          | some report =>
              rcases (Stops.bind_iff _ _ _ _ _).mp stops with stops | ⟨_, _, -, stops⟩
              · exact .inl (confined_deliver _ _ _ _ _ _ stops)
              · exact ((Stops.pure_iff _ _ _ _).mp stops).elim
  · rcases (Stops.bind_iff _ _ _ _ _).mp stops with stops | ⟨_, _, -, stops⟩
    · simp [note, logged, Logged.note] at stops
    · exact ((Stops.pure_iff _ _ _ _).mp stops).elim

theorem convert_outcome (request : Request) (before : CommandState) :
    (∃ code after, Ends (convert request) before code after ∧
      (code = 0 ∨ code = 1 ∧ after.files = before.files)) ∨
    ∃ fault after, Stops (convert request) before fault after ∧
      (fault.isWriting = true ∨ after.files = before.files ∧ Escapes request before.files fault) :=
  (ends_or_stops (convert request) before).imp
    (fun ⟨code, after, ends⟩ => ⟨code, after, ends, ends_convert ends⟩)
    fun ⟨fault, after, stops⟩ => ⟨fault, after, stops, stops_convert stops⟩

example : ((convert { input := { parts := ["in"] }, output := { parts := ["out"] }
                      settings := ["indent=²"] }).run.run
      { files := { entries := [(["in"], .directory)] } }).1 = .error (.notANumber "²") := by
  decide +kernel

end Command

end ScriptModules
