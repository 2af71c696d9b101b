import ScriptModules.Proofs.Stop

namespace ScriptModules

variable {σ τ ρ α β : Type}

def Leaves (part : σ → τ) (task : ExceptT Fault (StateM σ) α) : Prop :=
  ∀ before value after, Ends task before value after → part after = part before

namespace Leaves

variable {part : σ → τ}

theorem pure (value : α) : Leaves part (Pure.pure value) := by
  intro before result after ends
  rw [((Ends.pure_iff _ _ _ _).mp ends).2]

theorem get : Leaves part MonadState.get := by
  intro before value after ends
  rw [((Ends.get_iff _ _ _).mp ends).2]

theorem throw (fault : Fault) : Leaves part (MonadExcept.throw fault : ExceptT Fault (StateM σ) α) :=
  fun before value after ends => ((Ends.throw_iff fault before value after).mp ends).elim

theorem liftM (result : Except Fault α) :
    Leaves part (MonadLiftT.monadLift result : ExceptT Fault (StateM σ) α) := by
  intro before value after ends
  rw [((Ends.liftM_iff _ _ _ _).mp ends).2]

theorem modify {change : σ → σ} (same : ∀ state, part (change state) = part state) :
    Leaves part (modify change : ExceptT Fault (StateM σ) PUnit) := by
  intro before value after ends
  rw [(Ends.modify_iff _ _ _ _).mp ends, same]

theorem onPart {read : σ → ρ} {write : ρ → σ → σ}
    (same : ∀ written state, part (write written state) = part state)
    (task : ExceptT Fault (StateM ρ) α) : Leaves part (ScriptModules.onPart read write task) := by
  intro before value after ends
  obtain ⟨written, -, rfl⟩ := (Ends.onPart_iff _ _ _ _ _ _).mp ends
  exact same written before

theorem bind_of_ends {task : ExceptT Fault (StateM σ) α} {next : α → ExceptT Fault (StateM σ) β}
    (first : Leaves part task)
    (second : ∀ before value between, Ends task before value between → Leaves part (next value)) :
    Leaves part (task >>= next) := by
  intro before value after ends
  obtain ⟨result, between, run, ends⟩ := (Ends.bind_iff _ _ _ _ _).mp ends
  exact (second before result between run _ _ _ ends).trans (first _ _ _ run)

theorem bind {task : ExceptT Fault (StateM σ) α} {next : α → ExceptT Fault (StateM σ) β}
    (first : Leaves part task) (second : ∀ value, Leaves part (next value)) :
    Leaves part (task >>= next) :=
  first.bind_of_ends fun _ value _ _ => second value

theorem mapM {task : α → ExceptT Fault (StateM σ) β} {items : List α}
    (each : ∀ item ∈ items, Leaves part (task item)) : Leaves part (items.mapM task) := by
  intro before values after ends
  refine Ends.mapM_invariant (fun _ _ after => part after = part before) ?_ ends rfl
  intro done item todo values between value after parts same ends
  exact (each item (by simp [parts]) _ _ _ ends).trans same

theorem forM {task : α → ExceptT Fault (StateM σ) PUnit} {items : List α}
    (each : ∀ item ∈ items, Leaves part (task item)) : Leaves part (items.forM task) := by
  intro before value after ends
  refine Ends.forM_invariant (fun _ after => part after = part before) ?_ ends rfl
  intro done item todo between after parts same ends
  exact (each item (by simp [parts]) _ _ _ ends).trans same

end Leaves

/-- A task leaves a part of the state as it is, whether it ends or stops. -/
structure Spares (part : σ → τ) (task : ExceptT Fault (StateM σ) α) : Prop where
  leaves : Leaves part task
  stops : ∀ before fault after, Stops task before fault after → part after = part before

namespace Spares

variable {part : σ → τ}

theorem pure (value : α) : Spares part (Pure.pure value) :=
  ⟨.pure value, fun _ _ _ stops => ((Stops.pure_iff _ _ _ _).mp stops).elim⟩

theorem get : Spares part MonadState.get :=
  ⟨.get, fun _ _ _ stops => ((Stops.get_iff _ _ _).mp stops).elim⟩

theorem throw (fault : Fault) :
    Spares part (MonadExcept.throw fault : ExceptT Fault (StateM σ) α) :=
  ⟨.throw fault, fun _ _ _ stops => by rw [((Stops.throw_iff _ _ _ _).mp stops).2]⟩

theorem liftM (result : Except Fault α) :
    Spares part (MonadLiftT.monadLift result : ExceptT Fault (StateM σ) α) :=
  ⟨.liftM result, fun _ _ _ stops => by rw [((Stops.liftM_iff _ _ _ _).mp stops).2]⟩

theorem onPart {read : σ → ρ} {write : ρ → σ → σ}
    (same : ∀ written state, part (write written state) = part state)
    (task : ExceptT Fault (StateM ρ) α) : Spares part (ScriptModules.onPart read write task) := by
  refine ⟨.onPart same task, fun before fault after stops => ?_⟩
  obtain ⟨written, -, rfl⟩ := (Stops.onPart_iff _ _ _ _ _ _).mp stops
  exact same written before

theorem bind {task : ExceptT Fault (StateM σ) α} {next : α → ExceptT Fault (StateM σ) β}
    (first : Spares part task) (second : ∀ value, Spares part (next value)) :
    Spares part (task >>= next) := by
  refine ⟨.bind first.leaves fun value => (second value).leaves, fun before fault after stops => ?_⟩
  rcases (Stops.bind_iff _ _ _ _ _).mp stops with stops | ⟨value, between, ends, stops⟩
  · exact first.stops _ _ _ stops
  · exact ((second value).stops _ _ _ stops).trans (first.leaves _ _ _ ends)

theorem tryCatch {task : ExceptT Fault (StateM σ) α}
    {handler : Fault → ExceptT Fault (StateM σ) α} (first : Spares part task)
    (second : ∀ fault, Spares part (handler fault)) :
    Spares part (MonadExcept.tryCatch task handler) := by
  constructor
  · intro before value after ends
    rcases Ends.tryCatch_iff.mp ends with ends | ⟨fault, between, stops, ends⟩
    · exact first.leaves _ _ _ ends
    · exact ((second fault).leaves _ _ _ ends).trans (first.stops _ _ _ stops)
  · intro before fault after stops
    obtain ⟨given, between, stops, stops'⟩ := Stops.tryCatch_iff.mp stops
    exact ((second given).stops _ _ _ stops').trans (first.stops _ _ _ stops)

end Spares

def Retains (Holds : σ → Prop) (task : ExceptT Fault (StateM σ) α) : Prop :=
  ∀ before value after, Ends task before value after → Holds before → Holds after

namespace Retains

variable {Holds : σ → Prop}

theorem of_leaves {part : σ → τ} {HoldsOf : τ → Prop} {task : ExceptT Fault (StateM σ) α}
    (leaves : Leaves part task) : Retains (fun state => HoldsOf (part state)) task := by
  intro before value after ends holds
  rwa [leaves before value after ends]

theorem bind_of_ends {task : ExceptT Fault (StateM σ) α} {next : α → ExceptT Fault (StateM σ) β}
    (first : Retains Holds task)
    (second : ∀ before value between, Ends task before value between → Holds between →
      Retains Holds (next value)) : Retains Holds (task >>= next) := by
  intro before value after ends holds
  obtain ⟨result, between, run, ends⟩ := (Ends.bind_iff _ _ _ _ _).mp ends
  have holds := first before result between run holds
  exact second before result between run holds between value after ends holds

theorem bind {task : ExceptT Fault (StateM σ) α} {next : α → ExceptT Fault (StateM σ) β}
    (first : Retains Holds task) (second : ∀ value, Retains Holds (next value)) :
    Retains Holds (task >>= next) :=
  first.bind_of_ends fun _ value _ _ _ => second value

theorem mapM {task : α → ExceptT Fault (StateM σ) β} {items : List α}
    (each : ∀ item ∈ items, Retains Holds (task item)) : Retains Holds (items.mapM task) := by
  intro before values after ends holds
  refine Ends.mapM_invariant (fun _ _ => Holds) ?_ ends holds
  intro done item todo values between value after parts holds ends
  exact each item (by simp [parts]) between value after ends holds

theorem forM {task : α → ExceptT Fault (StateM σ) PUnit} {items : List α}
    (each : ∀ item ∈ items, Retains Holds (task item)) : Retains Holds (items.forM task) := by
  intro before value after ends holds
  refine Ends.forM_invariant (fun _ => Holds) ?_ ends holds
  intro done item todo between after parts holds ends
  exact each item (by simp [parts]) between ⟨⟩ after ends holds

end Retains

end ScriptModules
