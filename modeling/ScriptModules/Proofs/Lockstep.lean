import ScriptModules.Proofs.Task

namespace ScriptModules

variable {σ τ ρ α β γ : Type}

/-- If the task ends, the other one ends with the same value and in a related state. -/
def Lockstep (Related : σ → τ → Prop) (task : ExceptT Fault (StateM σ) α) (before : σ)
    (other : ExceptT Fault (StateM τ) α) (before' : τ) : Prop :=
  ∀ value after, Ends task before value after →
    ∃ after', Ends other before' value after' ∧ Related after after'

namespace Lockstep

variable {Related : σ → τ → Prop} {before : σ} {before' : τ}

theorem pure (related : Related before before') (value : α) :
    Lockstep Related (Pure.pure value) before (Pure.pure value) before' := by
  intro result after ends
  obtain ⟨rfl, rfl⟩ := (Ends.pure_iff _ _ _ _).mp ends
  exact ⟨before', (Ends.pure_iff _ _ _ _).mpr ⟨rfl, rfl⟩, related⟩

theorem modify {change : σ → σ} {change' : τ → τ}
    (related : Related (change before) (change' before')) :
    Lockstep Related (modify change) before (modify change') before' := by
  intro result after ends
  obtain rfl := (Ends.modify_iff _ _ _ _).mp ends
  exact ⟨change' before', (Ends.modify_iff _ _ _ _).mpr rfl, related⟩

theorem liftM (related : Related before before') (result : Except Fault α) :
    Lockstep Related (MonadLiftT.monadLift result : ExceptT Fault (StateM σ) α) before
      (MonadLiftT.monadLift result : ExceptT Fault (StateM τ) α) before' := by
  intro value after ends
  obtain ⟨same, rfl⟩ := (Ends.liftM_iff _ _ _ _).mp ends
  exact ⟨before', .liftM_of same before', related⟩

theorem bind {task : ExceptT Fault (StateM σ) α} {next : α → ExceptT Fault (StateM σ) β}
    {other : ExceptT Fault (StateM τ) α} {next' : α → ExceptT Fault (StateM τ) β}
    (first : Lockstep Related task before other before')
    (second : ∀ value between between', Ends task before value between → Related between between' →
      Lockstep Related (next value) between (next' value) between') :
    Lockstep Related (task >>= next) before (other >>= next') before' := by
  intro value after ends
  obtain ⟨result, between, run, ends⟩ := (Ends.bind_iff _ _ _ _ _).mp ends
  obtain ⟨between', run', related⟩ := first result between run
  obtain ⟨after', ends', related⟩ := second result between between' run related value after ends
  exact ⟨after', (Ends.bind_iff _ _ _ _ _).mpr ⟨result, between', run', ends'⟩, related⟩

theorem bind_of_ends {task : ExceptT Fault (StateM σ) α} {next : α → ExceptT Fault (StateM σ) γ}
    {other : ExceptT Fault (StateM τ) β} {next' : β → ExceptT Fault (StateM τ) γ}
    {value : α} {value' : β} {between : σ} {between' : τ} (first : Ends task before value between)
    (first' : Ends other before' value' between')
    (second : Lockstep Related (next value) between (next' value') between') :
    Lockstep Related (task >>= next) before (other >>= next') before' := by
  intro result after ends
  obtain ⟨given, start, run, ends⟩ := (Ends.bind_iff _ _ _ _ _).mp ends
  obtain ⟨rfl, rfl⟩ := first.unique run
  obtain ⟨after', ends', related⟩ := second result after ends
  exact ⟨after', (Ends.bind_iff _ _ _ _ _).mpr ⟨value', between', first', ends'⟩, related⟩

theorem get_bind {next : σ → ExceptT Fault (StateM σ) α} {next' : τ → ExceptT Fault (StateM τ) α}
    (second : Lockstep Related (next before) before (next' before') before') :
    Lockstep Related (get >>= next) before (get >>= next') before' :=
  .bind_of_ends (.get_same before) (.get_same before') second

theorem onPart {read : σ → ρ} {write : ρ → σ → σ} {read' : τ → ρ} {write' : ρ → τ → τ}
    {task : ExceptT Fault (StateM ρ) α} (same : read' before' = read before)
    (related : ∀ part, Related (write part before) (write' part before')) :
    Lockstep Related (onPart read write task) before (onPart read' write' task) before' := by
  intro value after ends
  obtain ⟨part, run, rfl⟩ := (Ends.onPart_iff _ _ _ _ _ _).mp ends
  exact ⟨write' part before', (Ends.onPart_iff _ _ _ _ _ _).mpr ⟨part, same ▸ run, rfl⟩, related part⟩

theorem mapM {task : α → ExceptT Fault (StateM σ) β} {other : α → ExceptT Fault (StateM τ) β}
    {items : List α} (each : ∀ done item todo values between between', items = done ++ item :: todo →
      Ends (done.mapM task) before values between → Related between between' →
        Lockstep Related (task item) between (other item) between')
    (related : Related before before') :
    Lockstep Related (items.mapM task) before (items.mapM other) before' := by
  intro values after ends
  refine (Ends.mapM_invariant (fun done values between => Ends (done.mapM task) before values between ∧
    ∃ between', Ends (done.mapM other) before' values between' ∧ Related between between')
    ?_ ends ⟨Ends.mapM_nil before, before', Ends.mapM_nil before', related⟩).2
  rintro done item todo values between value next parts ⟨behind, between', behind', related⟩ ends
  obtain ⟨next', ends', related⟩ :=
    each done item todo values between between' parts behind related value next ends
  exact ⟨behind.mapM_snoc ends, next', behind'.mapM_snoc ends', related⟩

theorem forM {task : α → ExceptT Fault (StateM σ) PUnit} {other : α → ExceptT Fault (StateM τ) PUnit}
    {items : List α} (each : ∀ item ∈ items, ∀ between between', Related between between' →
      Lockstep Related (task item) between (other item) between')
    (related : Related before before') :
    Lockstep Related (items.forM task) before (items.forM other) before' := by
  induction items generalizing before before' with
  | nil => exact .pure related PUnit.unit
  | cons item items ih =>
      refine .bind (each item List.mem_cons_self before before' related) fun _ _ _ _ related => ?_
      exact ih (fun other member => each other (List.mem_cons_of_mem item member)) related

end Lockstep

end ScriptModules
