import ScriptModules.Proofs.Result
import ScriptModules.Proofs.Task

namespace ScriptModules

variable {σ τ α β : Type}

def Stops (task : ExceptT Fault (StateM σ) α) (before : σ) (fault : Fault) (after : σ) : Prop :=
  task.run.run before = (.error fault, after)

theorem ends_or_stops (task : ExceptT Fault (StateM σ) α) (before : σ) :
    (∃ value after, Ends task before value after) ∨ ∃ fault after, Stops task before fault after := by
  cases run : task.run.run before with
  | mk result after =>
      cases result with
      | ok value => exact .inl ⟨value, after, run⟩
      | error fault => exact .inr ⟨fault, after, run⟩

theorem Ends.tryCatch_iff {task : ExceptT Fault (StateM σ) α}
    {handler : Fault → ExceptT Fault (StateM σ) α} {before : σ} {value : α} {after : σ} :
    Ends (tryCatch task handler) before value after ↔ Ends task before value after ∨
      ∃ fault between, Stops task before fault between ∧
        Ends (handler fault) between value after := by
  unfold Ends Stops
  rw [ExceptT.run_tryCatch, StateT.run_bind]
  cases task.run.run before with
  | mk result between =>
      cases result with
      | ok given =>
          constructor
          · exact .inl
          · rintro (ends | ⟨fault, last, impossible, -⟩)
            · exact ends
            · cases impossible
      | error given =>
          constructor
          · exact fun ends => .inr ⟨given, between, rfl, ends⟩
          · rintro (impossible | ⟨fault, last, stops, ends⟩)
            · cases impossible
            · cases stops
              exact ends

theorem Ends.return_iff {ρ : Type} {given : ρ} {before : σ} {value : Except ρ α} {after : σ} :
    Ends (EarlyReturnT.return given : ExceptT ρ (ExceptT Fault (StateM σ)) α) before value after ↔
      value = .error given ∧ after = before :=
  Ends.pure_iff (.error given) value before after

theorem Stops.tryCatch_iff {task : ExceptT Fault (StateM σ) α}
    {handler : Fault → ExceptT Fault (StateM σ) α} {before : σ} {fault : Fault} {after : σ} :
    Stops (tryCatch task handler) before fault after ↔
      ∃ given between, Stops task before given between ∧
        Stops (handler given) between fault after := by
  unfold Stops
  rw [ExceptT.run_tryCatch, StateT.run_bind]
  cases task.run.run before with
  | mk result between =>
      cases result with
      | ok given =>
          constructor
          · intro stops
            cases stops
          · rintro ⟨given', between', impossible, -⟩
            cases impossible
      | error given =>
          constructor
          · exact fun stops => ⟨given, between, rfl, stops⟩
          · rintro ⟨given', between', same, stops⟩
            cases same
            exact stops

theorem Stops.return_iff {ρ : Type} {given : ρ} {before : σ} {fault : Fault} {after : σ} :
    Stops (EarlyReturnT.return given : ExceptT ρ (ExceptT Fault (StateM σ)) α) before fault after ↔
      False :=
  iff_of_false (fun stops => by cases stops) id

namespace Stops

@[simp] theorem pure_iff (value : α) (before : σ) (fault : Fault) (after : σ) :
    Stops (pure value) before fault after ↔ False :=
  iff_of_false (fun stops => by cases stops) id

@[simp] theorem bind_iff (task : ExceptT Fault (StateM σ) α)
    (next : α → ExceptT Fault (StateM σ) β) (before : σ) (fault : Fault) (after : σ) :
    Stops (task >>= next) before fault after ↔ Stops task before fault after ∨
      ∃ result between, Ends task before result between ∧
        Stops (next result) between fault after := by
  unfold Stops
  rw [run_bind]
  constructor
  · intro stops
    split at stops
    · rename_i result between run
      exact .inr ⟨result, between, run, stops⟩
    · rename_i given between run
      cases stops
      exact .inl run
  · rintro (run | ⟨result, between, run, stops⟩)
    · rw [run]
    · rw [show task.run.run before = (.ok result, between) from run]
      exact stops

@[simp] theorem get_iff (before : σ) (fault : Fault) (after : σ) :
    Stops get before fault after ↔ False :=
  iff_of_false (fun stops => by cases stops) id

@[simp] theorem set_iff (given before : σ) (fault : Fault) (after : σ) :
    Stops (set given) before fault after ↔ False :=
  iff_of_false (fun stops => by cases stops) id

@[simp] theorem modify_iff (change : σ → σ) (before : σ) (fault : Fault) (after : σ) :
    Stops (modify change) before fault after ↔ False :=
  iff_of_false (fun stops => by cases stops) id

@[simp] theorem throw_iff (given : Fault) (before : σ) (fault : Fault) (after : σ) :
    Stops (throw given : ExceptT Fault (StateM σ) α) before fault after ↔
      fault = given ∧ after = before := by
  constructor
  · intro stops
    cases stops
    exact ⟨rfl, rfl⟩
  · rintro ⟨rfl, rfl⟩
    rfl

@[simp] theorem liftM_iff (result : Except Fault α) (before : σ) (fault : Fault) (after : σ) :
    Stops (liftM result) before fault after ↔ result = .error fault ∧ after = before := by
  cases result with
  | ok value => exact iff_of_false (fun stops => by cases stops) (fun stops => by cases stops.1)
  | error given =>
      constructor
      · intro stops
        cases stops
        exact ⟨rfl, rfl⟩
      · rintro ⟨same, rfl⟩
        cases same
        rfl

@[simp] theorem onPart_iff (read : σ → τ) (write : τ → σ → σ)
    (task : ExceptT Fault (StateM τ) α) (before : σ) (fault : Fault) (after : σ) :
    Stops (onPart read write task) before fault after ↔
      ∃ part, Stops task (read before) fault part ∧ after = write part before := by
  unfold Stops
  rw [run_onPart]
  constructor
  · intro stops
    obtain ⟨result, changed⟩ := Prod.mk.inj stops
    exact ⟨_, Prod.ext result rfl, changed.symm⟩
  · rintro ⟨part, run, rfl⟩
    rw [run]

theorem mapM_iff {task : α → ExceptT Fault (StateM σ) β} {items : List α} {before after : σ}
    {fault : Fault} : Stops (items.mapM task) before fault after ↔
      ∃ done item todo values between, items = done ++ item :: todo ∧
        Ends (done.mapM task) before values between ∧ Stops (task item) between fault after := by
  induction items generalizing before with
  | nil =>
      rw [List.mapM_nil, pure_iff]
      constructor
      · exact False.elim
      · rintro ⟨done, item, todo, -, -, parts, -⟩
        simp at parts
  | cons first items ih =>
      rw [List.mapM_cons]
      simp only [bind_iff, pure_iff, and_false, exists_false, or_false, ih]
      constructor
      · rintro (stops | ⟨value, between, ends, done, item, todo, values, last, rfl, behind, stops⟩)
        · exact ⟨[], first, items, [], before, rfl, (Ends.pure_iff _ _ _ _).mpr ⟨rfl, rfl⟩, stops⟩
        · exact ⟨first :: done, item, todo, value :: values, last, rfl,
            (Ends.mapM_cons_iff _ _ _ _ _ _).mpr ⟨value, between, values, ends, behind, rfl⟩, stops⟩
      · rintro ⟨done, item, todo, values, last, parts, behind, stops⟩
        cases done with
        | nil =>
            obtain ⟨-, rfl⟩ := (Ends.pure_iff _ _ _ _).mp behind
            cases parts
            exact .inl stops
        | cons _ done =>
            cases parts
            obtain ⟨value, between, rest, ends, later, rfl⟩ :=
              (Ends.mapM_cons_iff _ _ _ _ _ _).mp behind
            exact .inr ⟨value, between, ends, done, item, todo, rest, last, rfl, later, stops⟩

theorem forM_iff {task : α → ExceptT Fault (StateM σ) PUnit} {items : List α} {before after : σ}
    {fault : Fault} : Stops (items.forM task) before fault after ↔
      ∃ done item todo between, items = done ++ item :: todo ∧
        Ends (done.forM task) before ⟨⟩ between ∧ Stops (task item) between fault after := by
  induction items generalizing before with
  | nil =>
      refine (pure_iff PUnit.unit before fault after).trans ?_
      constructor
      · exact False.elim
      · rintro ⟨done, item, todo, -, parts, -⟩
        simp at parts
  | cons first items ih =>
      rw [show (first :: items).forM task = (task first >>= fun _ => items.forM task) from rfl]
      simp only [bind_iff, ih]
      constructor
      · rintro (stops | ⟨⟨⟩, between, ends, done, item, todo, last, rfl, behind, stops⟩)
        · exact ⟨[], first, items, before, rfl, Ends.forM_nil_iff.mpr rfl, stops⟩
        · exact ⟨first :: done, item, todo, last, rfl,
            Ends.forM_cons_iff.mpr ⟨between, ends, behind⟩, stops⟩
      · rintro ⟨done, item, todo, last, parts, behind, stops⟩
        cases done with
        | nil =>
            cases Ends.forM_nil_iff.mp behind
            cases parts
            exact .inl stops
        | cons _ done =>
            cases parts
            obtain ⟨between, ends, later⟩ := Ends.forM_cons_iff.mp behind
            exact .inr ⟨⟨⟩, between, ends, done, item, todo, last, rfl, later, stops⟩

end Stops

/-! ## Confined faults -/

def Confined (allowed : Fault → Prop) (task : ExceptT Fault (StateM σ) α) (before : σ) : Prop :=
  ∀ fault after, Stops task before fault after → allowed fault

namespace Confined

variable {allowed : Fault → Prop} {before : σ}

theorem exists_ends {task : ExceptT Fault (StateM σ) α}
    (confined : Confined (fun _ => False) task before) : ∃ value after, Ends task before value after :=
  (ends_or_stops task before).resolve_right fun ⟨fault, after, stops⟩ => confined fault after stops

theorem of_ends {task : ExceptT Fault (StateM σ) α} {value : α} {after : σ}
    (ends : Ends task before value after) : Confined allowed task before := by
  intro fault last stops
  cases ends.symm.trans stops

theorem pure (value : α) : Confined allowed (Pure.pure value) before :=
  of_ends ((Ends.pure_iff _ _ _ _).mpr ⟨rfl, rfl⟩)

theorem get : Confined allowed MonadState.get before :=
  fun _ _ stops => ((Stops.get_iff _ _ _).mp stops).elim

theorem set (given : σ) : Confined allowed (MonadStateOf.set given) before :=
  fun _ _ stops => ((Stops.set_iff _ _ _ _).mp stops).elim

theorem modify (change : σ → σ) : Confined allowed (modify change) before :=
  fun _ _ stops => ((Stops.modify_iff _ _ _ _).mp stops).elim

theorem throw {fault : Fault} (known : allowed fault) :
    Confined allowed (MonadExcept.throw fault : ExceptT Fault (StateM σ) α) before := by
  intro other after stops
  rw [((Stops.throw_iff _ _ _ _).mp stops).1]
  exact known

theorem liftM {result : Except Fault α} (known : ∀ fault, result = .error fault → allowed fault) :
    Confined allowed (MonadLiftT.monadLift result : ExceptT Fault (StateM σ) α) before :=
  fun fault _ stops => known fault ((Stops.liftM_iff _ _ _ _).mp stops).1

theorem onPart {read : σ → τ} {write : τ → σ → σ} {task : ExceptT Fault (StateM τ) α}
    (confined : Confined allowed task (read before)) :
    Confined allowed (ScriptModules.onPart read write task) before := by
  intro fault after stops
  obtain ⟨part, stops, -⟩ := (Stops.onPart_iff _ _ _ _ _ _).mp stops
  exact confined fault part stops

theorem bind {task : ExceptT Fault (StateM σ) α} {next : α → ExceptT Fault (StateM σ) β}
    (first : Confined allowed task before)
    (second : ∀ value between, Ends task before value between →
      Confined allowed (next value) between) : Confined allowed (task >>= next) before := by
  intro fault after stops
  rcases (Stops.bind_iff _ _ _ _ _).mp stops with stops | ⟨value, between, ends, stops⟩
  · exact first fault after stops
  · exact second value between ends fault after stops

theorem bind_of_ends {task : ExceptT Fault (StateM σ) α} {next : α → ExceptT Fault (StateM σ) β}
    {value : α} {between : σ} (first : Ends task before value between)
    (second : Confined allowed (next value) between) : Confined allowed (task >>= next) before := by
  refine .bind (.of_ends first) fun other last ends => ?_
  obtain ⟨rfl, rfl⟩ := first.unique ends
  exact second

theorem mapM {task : α → ExceptT Fault (StateM σ) β} {items : List α}
    (each : ∀ done item todo values between, items = done ++ item :: todo →
      Ends (done.mapM task) before values between → Confined allowed (task item) between) :
    Confined allowed (items.mapM task) before := by
  intro fault after stops
  obtain ⟨done, item, todo, values, between, parts, behind, stops⟩ := Stops.mapM_iff.mp stops
  exact each done item todo values between parts behind fault after stops

theorem forM {task : α → ExceptT Fault (StateM σ) PUnit} {items : List α}
    (each : ∀ item ∈ items, ∀ between, Confined allowed (task item) between) :
    Confined allowed (items.forM task) before := by
  intro fault after stops
  obtain ⟨done, item, todo, between, parts, -, stops⟩ := Stops.forM_iff.mp stops
  exact each item (by simp [parts]) between fault after stops

end Confined

/-! ## Internal faults -/

/-- Whether a fault is a contradiction to an earlier phase: a required name has no owner, a file is not
converted, or a node is not where it was met. -/
def Fault.isInternal : Fault → Bool
  | unprovided _ _ | missingFile _ | notAChild _ _ => true
  | _ => false

namespace Tree.Template

theorem statement_fault {text : String} {holes : List Node} {fault : Fault}
    (stopped : statement text holes = .error fault) : fault.isInternal = false := by
  unfold statement at stopped
  split at stopped
  · cases stopped
    rfl
  · split at stopped
    · cases stopped
      rfl
    · split at stopped
      · cases stopped
      · unfold fill at stopped
        dsimp only at stopped
        split at stopped
        · cases stopped
        · cases stopped
          rfl

theorem expression_fault {text : String} {holes : List Node} {fault : Fault}
    (stopped : expression text holes = .error fault) : fault.isInternal = false := by
  rcases bind_eq_error_iff.mp stopped with stopped | ⟨value, -, stopped⟩
  · rcases bind_eq_error_iff.mp stopped with stopped | ⟨statement, -, stopped⟩
    · exact statement_fault stopped
    · unfold valueOf at stopped
      split at stopped
      all_goals cases stopped
      rfl
  · split at stopped
    · cases stopped
    · cases stopped
      rfl

end Tree.Template

theorem quotedSpecifier_fault {source target extension : String} {fault : Fault}
    (stopped : quotedSpecifier source target extension = .error fault) :
    fault.isInternal = false := by
  unfold quotedSpecifier at stopped
  split at stopped
  · cases stopped
  · cases stopped
    rfl

end ScriptModules
