import ScriptModules.Conversion.Workspace

namespace ScriptModules

variable {σ τ α β : Type}

theorem run_bind (task : ExceptT Fault (StateM σ) α) (next : α → ExceptT Fault (StateM σ) β)
    (before : σ) : (task >>= next).run.run before =
      match task.run.run before with
      | (.ok result, between) => (next result).run.run between
      | (.error fault, between) => (.error fault, between) := by
  rw [ExceptT.run_bind]
  simp only [StateT.run_bind]
  cases task.run.run before with
  | mk result between => cases result <;> rfl

theorem run_onPart (read : σ → τ) (write : τ → σ → σ) (task : ExceptT Fault (StateM τ) α)
    (before : σ) : (onPart read write task).run.run before =
      ((task.run.run (read before)).1, write (task.run.run (read before)).2 before) := by
  cases run : (task.run.run (read before)).1 with
  | error fault =>
      change StateT.run (ExceptT.run
        (liftM (task.run.run (read before)).1 : ExceptT Fault (StateM σ) α)) _ = _
      rw [run]
      rfl
  | ok result =>
      change StateT.run (ExceptT.run
        (liftM (task.run.run (read before)).1 : ExceptT Fault (StateM σ) α)) _ = _
      rw [run]
      rfl

def Ends (task : ExceptT Fault (StateM σ) α) (before : σ) (value : α) (after : σ) : Prop :=
  task.run.run before = (.ok value, after)

namespace Ends

@[simp] theorem pure_iff (given value : α) (before after : σ) :
    Ends (pure given) before value after ↔ value = given ∧ after = before := by
  constructor
  · intro ends
    cases ends
    exact ⟨rfl, rfl⟩
  · rintro ⟨rfl, rfl⟩
    rfl

@[simp] theorem bind_iff (task : ExceptT Fault (StateM σ) α)
    (next : α → ExceptT Fault (StateM σ) β) (before : σ) (value : β) (after : σ) :
    Ends (task >>= next) before value after ↔
      ∃ result between, Ends task before result between ∧ Ends (next result) between value after := by
  unfold Ends
  rw [run_bind]
  constructor
  · intro ends
    split at ends
    · rename_i result between run
      exact ⟨result, between, run, ends⟩
    · cases ends
  · rintro ⟨result, between, run, ends⟩
    rw [run]
    exact ends

@[simp] theorem get_iff (before value after : σ) :
    Ends get before value after ↔ value = before ∧ after = before := by
  constructor
  · intro ends
    cases ends
    exact ⟨rfl, rfl⟩
  · rintro ⟨rfl, rfl⟩
    rfl

theorem get_same (state : σ) : Ends get state state state :=
  rfl

theorem get_bind_iff (next : σ → ExceptT Fault (StateM σ) α) (before : σ) (value : α)
    (after : σ) : Ends (get >>= next) before value after ↔ Ends (next before) before value after :=
  Iff.rfl

@[simp] theorem set_iff (given : σ) (before : σ) (value : PUnit) (after : σ) :
    Ends (set given) before value after ↔ after = given := by
  constructor
  · intro ends
    cases ends
    rfl
  · rintro rfl
    rfl

@[simp] theorem modify_iff (change : σ → σ) (before : σ) (value : PUnit) (after : σ) :
    Ends (modify change) before value after ↔ after = change before := by
  constructor
  · intro ends
    cases ends
    rfl
  · rintro rfl
    rfl

@[simp] theorem throw_iff (fault : Fault) (before : σ) (value : α) (after : σ) :
    Ends (throw fault) before value after ↔ False := by
  constructor
  · intro ends
    cases ends
  · exact False.elim

@[simp] theorem liftM_iff (result : Except Fault α) (before : σ) (value : α) (after : σ) :
    Ends (liftM result) before value after ↔ result = .ok value ∧ after = before := by
  cases result with
  | error fault =>
      constructor
      · intro ends
        cases ends
      · rintro ⟨impossible, -⟩
        cases impossible
  | ok given =>
      constructor
      · intro ends
        cases ends
        exact ⟨rfl, rfl⟩
      · rintro ⟨same, rfl⟩
        cases same
        rfl

@[simp] theorem onPart_iff (read : σ → τ) (write : τ → σ → σ)
    (task : ExceptT Fault (StateM τ) α) (before : σ) (value : α) (after : σ) :
    Ends (onPart read write task) before value after ↔
      ∃ part, Ends task (read before) value part ∧ after = write part before := by
  unfold Ends
  rw [run_onPart]
  constructor
  · intro ends
    obtain ⟨result, changed⟩ := Prod.mk.inj ends
    exact ⟨_, Prod.ext result rfl, changed.symm⟩
  · rintro ⟨part, run, rfl⟩
    rw [run]

@[simp] theorem map_iff (change : α → β) (task : ExceptT Fault (StateM σ) α) (before : σ)
    (value : β) (after : σ) :
    Ends (change <$> task) before value after ↔
      ∃ result, Ends task before result after ∧ value = change result := by
  rw [← bind_pure_comp, bind_iff]
  constructor
  · rintro ⟨result, between, run, ends⟩
    obtain ⟨rfl, rfl⟩ := (pure_iff _ _ _ _).mp ends
    exact ⟨result, run, rfl⟩
  · rintro ⟨result, run, rfl⟩
    exact ⟨result, after, run, rfl⟩

theorem liftM_of {result : Except Fault α} {value : α} (same : result = .ok value) (before : σ) :
    Ends (liftM result) before value before :=
  (liftM_iff _ _ _ _).mpr ⟨same, rfl⟩

theorem unique {task : ExceptT Fault (StateM σ) α} {before after after' : σ} {value value' : α}
    (ends : Ends task before value after) (ends' : Ends task before value' after') :
    value' = value ∧ after' = after := by
  obtain ⟨same, same'⟩ := Prod.mk.inj (ends'.symm.trans ends)
  exact ⟨Except.ok.inj same, same'⟩

/-! ## Lists of tasks -/

theorem mapM_cons_iff (task : α → ExceptT Fault (StateM σ) β) (item : α) (items : List α)
    (before : σ) (values : List β) (after : σ) :
    Ends ((item :: items).mapM task) before values after ↔
      ∃ value between rest, Ends (task item) before value between ∧
        Ends (items.mapM task) between rest after ∧ values = value :: rest := by
  rw [List.mapM_cons]
  simp only [bind_iff, pure_iff]
  constructor
  · rintro ⟨value, between, first, rest, last, ends, rfl, rfl⟩
    exact ⟨value, between, rest, first, ends, rfl⟩
  · rintro ⟨value, between, rest, first, ends, rfl⟩
    exact ⟨value, between, first, rest, after, ends, rfl, rfl⟩

theorem mapM_append_iff {task : α → ExceptT Fault (StateM σ) β} {items more : List α}
    {before after : σ} {values : List β} : Ends ((items ++ more).mapM task) before values after ↔
      ∃ first between rest, Ends (items.mapM task) before first between ∧
        Ends (more.mapM task) between rest after ∧ values = first ++ rest := by
  rw [List.mapM_append]
  simp only [bind_iff, pure_iff]
  constructor
  · rintro ⟨first, between, ends, rest, last, later, rfl, rfl⟩
    exact ⟨first, between, rest, ends, later, rfl⟩
  · rintro ⟨first, between, rest, ends, later, rfl⟩
    exact ⟨first, between, ends, rest, after, later, rfl, rfl⟩

theorem mapM_nil {task : α → ExceptT Fault (StateM σ) β} (before : σ) :
    Ends (([] : List α).mapM task) before [] before :=
  (pure_iff _ _ _ _).mpr ⟨rfl, rfl⟩

theorem mapM_snoc {task : α → ExceptT Fault (StateM σ) β} {items : List α} {item : α}
    {before between after : σ} {values : List β} {value : β}
    (behind : Ends (items.mapM task) before values between)
    (ends : Ends (task item) between value after) :
    Ends ((items ++ [item]).mapM task) before (values ++ [value]) after :=
  mapM_append_iff.mpr ⟨values, between, [value], behind,
    (mapM_cons_iff _ _ _ _ _ _).mpr ⟨value, after, [], ends, mapM_nil after, rfl⟩, rfl⟩

theorem exists_of_mem_mapM {task : α → ExceptT Fault (StateM σ) β} {items : List α}
    {before after : σ} {values : List β} (ends : Ends (items.mapM task) before values after)
    {value : β} (member : value ∈ values) : ∃ done item todo made between last,
      items = done ++ item :: todo ∧ Ends (done.mapM task) before made between ∧
        Ends (task item) between value last := by
  induction items generalizing before values with
  | nil =>
      obtain ⟨rfl, -⟩ := (pure_iff _ _ _ _).mp ends
      cases member
  | cons first items ih =>
      obtain ⟨result, between, rest, own, later, rfl⟩ := (mapM_cons_iff _ _ _ _ _ _).mp ends
      rcases List.mem_cons.mp member with rfl | member
      · exact ⟨[], first, items, [], before, between, rfl, (pure_iff _ _ _ _).mpr ⟨rfl, rfl⟩, own⟩
      · obtain ⟨done, item, todo, made, start, last, rfl, front, here⟩ := ih later member
        exact ⟨first :: done, item, todo, result :: made, start, last, rfl,
          (mapM_cons_iff _ _ _ _ _ _).mpr ⟨result, between, made, own, front, rfl⟩, here⟩

theorem forM_nil_iff {task : α → ExceptT Fault (StateM σ) PUnit} {before after : σ} :
    Ends (([] : List α).forM task) before ⟨⟩ after ↔ after = before :=
  (pure_iff _ _ _ _).trans (and_iff_right rfl)

theorem forM_cons_iff {task : α → ExceptT Fault (StateM σ) PUnit} {item : α} {items : List α}
    {before after : σ} : Ends ((item :: items).forM task) before ⟨⟩ after ↔
      ∃ between, Ends (task item) before ⟨⟩ between ∧ Ends (items.forM task) between ⟨⟩ after :=
  (bind_iff _ _ _ _ _).trans ⟨fun ⟨⟨⟩, rest⟩ => rest, fun rest => ⟨⟨⟩, rest⟩⟩

theorem forM_append_iff {task : α → ExceptT Fault (StateM σ) PUnit} {items more : List α}
    {before after : σ} : Ends ((items ++ more).forM task) before ⟨⟩ after ↔
      ∃ between, Ends (items.forM task) before ⟨⟩ between ∧
        Ends (more.forM task) between ⟨⟩ after := by
  induction items generalizing before with
  | nil =>
      simp only [List.nil_append, forM_nil_iff]
      exact ⟨fun ends => ⟨before, rfl, ends⟩, fun ⟨_, rfl, ends⟩ => ends⟩
  | cons item items ih =>
      simp only [List.cons_append, forM_cons_iff, ih]
      constructor
      · rintro ⟨first, ends, last, later, rest⟩
        exact ⟨last, ⟨first, ends, later⟩, rest⟩
      · rintro ⟨last, ⟨first, ends, later⟩, rest⟩
        exact ⟨first, ends, last, later, rest⟩

theorem mapM_invariant {task : α → ExceptT Fault (StateM σ) β} {items : List α}
    (Holds : List α → List β → σ → Prop)
    (step : ∀ done item todo values before value after, items = done ++ item :: todo →
      Holds done values before → Ends (task item) before value after →
      Holds (done ++ [item]) (values ++ [value]) after)
    {before after : σ} {values : List β} (ends : Ends (items.mapM task) before values after)
    (start : Holds [] [] before) : Holds items values after := by
  suffices carried : ∀ todo done made made' before,
      items = done ++ todo → Holds done made before → Ends (todo.mapM task) before made' after →
      Holds items (made ++ made') after from by
    simpa using carried items [] [] values before rfl start ends
  intro todo
  induction todo with
  | nil =>
      intro done made made' before parts holds ends
      rw [List.mapM_nil] at ends
      obtain ⟨rfl, rfl⟩ := (pure_iff _ _ _ _).mp ends
      simpa [parts] using holds
  | cons item todo ih =>
      intro done made made' before parts holds ends
      obtain ⟨value, between, rest, first, later, rfl⟩ := (mapM_cons_iff _ _ _ _ _ _).mp ends
      have next := step done item todo made before value between parts holds first
      have split : items = (done ++ [item]) ++ todo := by simp [parts]
      simpa using ih (done ++ [item]) (made ++ [value]) rest between split next later

theorem forM_invariant {task : α → ExceptT Fault (StateM σ) PUnit} {items : List α}
    (Holds : List α → σ → Prop)
    (step : ∀ done item todo before after, items = done ++ item :: todo →
      Holds done before → Ends (task item) before ⟨⟩ after → Holds (done ++ [item]) after)
    {before after : σ} (ends : Ends (items.forM task) before ⟨⟩ after)
    (start : Holds [] before) : Holds items after := by
  suffices carried : ∀ todo done before, items = done ++ todo → Holds done before →
      Ends (todo.forM task) before ⟨⟩ after → Holds items after from
    carried items [] before rfl start ends
  intro todo
  induction todo with
  | nil =>
      intro done before parts holds ends
      rw [forM_nil_iff.mp ends]
      simpa [parts] using holds
  | cons item todo ih =>
      intro done before parts holds ends
      obtain ⟨between, first, later⟩ := forM_cons_iff.mp ends
      have next := step done item todo before between parts holds first
      exact ih (done ++ [item]) between (by simp [parts]) next later

theorem foldlM_invariant {task : β → α → ExceptT Fault (StateM σ) β} {items : List α}
    (Holds : List α → β → Prop)
    (step : ∀ done item todo value before value' after, items = done ++ item :: todo →
      Holds done value → Ends (task value item) before value' after → Holds (done ++ [item]) value')
    {first last : β} {before after : σ} (ends : Ends (items.foldlM task first) before last after)
    (start : Holds [] first) : Holds items last := by
  suffices carried : ∀ todo done value before, items = done ++ todo → Holds done value →
      Ends (todo.foldlM task value) before last after → Holds items last from
    carried items [] first before rfl start ends
  intro todo
  induction todo with
  | nil =>
      intro done value before parts holds ends
      obtain ⟨rfl, rfl⟩ := (pure_iff _ _ _ _).mp ends
      simpa [parts] using holds
  | cons item todo ih =>
      intro done value before parts holds ends
      obtain ⟨next, between, first, later⟩ := (bind_iff _ _ _ _ _).mp ends
      have holds := step done item todo value before next between parts holds first
      exact ih (done ++ [item]) next between (by simp [parts]) holds later

end Ends
end ScriptModules
