import Mathlib.Data.List.Nodup

namespace ScriptModules

variable {ε α β : Type}

theorem bind_eq_ok_iff {result : Except ε α} {next : α → Except ε β} {value : β} :
    (result >>= next) = .ok value ↔ ∃ between, result = .ok between ∧ next between = .ok value := by
  cases result with
  | error stop =>
      constructor
      · intro run
        cases run
      · rintro ⟨between, impossible, -⟩
        cases impossible
  | ok between =>
      constructor
      · intro run
        exact ⟨between, rfl, run⟩
      · rintro ⟨between, ⟨⟩, run⟩
        exact run

theorem bind_eq_error_iff {result : Except ε α} {next : α → Except ε β} {stop : ε} :
    (result >>= next) = .error stop ↔
      result = .error stop ∨ ∃ between, result = .ok between ∧ next between = .error stop := by
  cases result with
  | error given =>
      constructor
      · intro run
        cases run
        exact .inl rfl
      · rintro (run | ⟨between, impossible, -⟩)
        · cases run
          rfl
        · cases impossible
  | ok between =>
      constructor
      · exact fun run => .inr ⟨between, rfl, run⟩
      · rintro (impossible | ⟨between, same, run⟩)
        · cases impossible
        · cases same
          exact run

theorem foldlM_invariant {next : β → α → Except ε β} {items : List α} (Holds : List α → β → Prop)
    (step : ∀ done item todo before after, items = done ++ item :: todo → Holds done before →
      next before item = .ok after → Holds (done ++ [item]) after)
    {before after : β} (run : items.foldlM next before = .ok after) (start : Holds [] before) :
    Holds items after := by
  suffices carried : ∀ todo done before, items = done ++ todo → Holds done before →
      todo.foldlM next before = .ok after → Holds items after from
    carried items [] before rfl start run
  intro todo
  induction todo with
  | nil =>
      intro done before parts holds run
      cases run
      simpa [parts] using holds
  | cons item todo ih =>
      intro done before parts holds run
      rw [List.foldlM_cons] at run
      obtain ⟨between, first, later⟩ := bind_eq_ok_iff.mp run
      have next := step done item todo before between parts holds first
      exact ih (done ++ [item]) between (by simp [parts]) next later

theorem foldlM_ok {next : β → α → Except ε β} {items : List α} (Holds : β → Prop)
    (step : ∀ before item after, item ∈ items → Holds before → next before item = .ok after →
      Holds after)
    {before after : β} (run : items.foldlM next before = .ok after) (start : Holds before) :
    Holds after := by
  refine foldlM_invariant (fun _ => Holds) ?_ run start
  intro done item todo before after parts
  exact step before item after (by simp [parts])

theorem foldlM_total {next : β → α → Except ε β} {items : List α} (Holds : List α → β → Prop)
    (step : ∀ done item todo before, items = done ++ item :: todo → Holds done before →
      ∃ after, next before item = .ok after ∧ Holds (done ++ [item]) after)
    {before : β} (start : Holds [] before) :
    ∃ after, items.foldlM next before = .ok after ∧ Holds items after := by
  suffices carried : ∀ todo done before, items = done ++ todo → Holds done before →
      ∃ after, todo.foldlM next before = .ok after ∧ Holds items after from
    carried items [] before rfl start
  intro todo
  induction todo with
  | nil =>
      intro done before parts holds
      refine ⟨before, rfl, ?_⟩
      simpa [parts] using holds
  | cons item todo ih =>
      intro done before parts holds
      obtain ⟨between, first, holds⟩ := step done item todo before parts holds
      obtain ⟨after, later, holds⟩ := ih (done ++ [item]) between (by simp [parts]) holds
      refine ⟨after, ?_, holds⟩
      rw [List.foldlM_cons, first]
      exact later

theorem foldlM_refuses {next : β → α → Except ε β} {Refused : α → Prop} {stop : ε}
    (refuses : ∀ before item, Refused item → next before item = .error stop)
    (accepts : ∀ before item, ¬Refused item → ∃ after, next before item = .ok after)
    (items : List α) (before : β) :
    (∃ item ∈ items, Refused item) ∧ items.foldlM next before = .error stop ∨
      (∀ item ∈ items, ¬Refused item) ∧ ∃ after, items.foldlM next before = .ok after := by
  induction items generalizing before with
  | nil => exact .inr ⟨by simp, before, rfl⟩
  | cons item items ih =>
      rw [List.foldlM_cons]
      by_cases refused : Refused item
      · rw [refuses before item refused]
        exact .inl ⟨⟨item, List.mem_cons_self, refused⟩, rfl⟩
      · obtain ⟨between, first⟩ := accepts before item refused
        rw [first]
        rcases ih between with ⟨⟨other, member, refused⟩, later⟩ | ⟨accepted, later⟩
        · exact .inl ⟨⟨other, List.mem_cons_of_mem _ member, refused⟩, later⟩
        · exact .inr ⟨by simpa [refused] using accepted, later⟩

theorem foldlM_follows {γ : Type} {next : β → α → Except ε β} {next' : γ → α → Except ε γ}
    {items : List α} (Related : β → γ → Prop)
    (step : ∀ item ∈ items, ∀ state state' after, Related state state' →
      next state item = .ok after → ∃ after', next' state' item = .ok after' ∧ Related after after')
    {state after : β} {state' : γ} (start : Related state state')
    (run : items.foldlM next state = .ok after) :
    ∃ after', items.foldlM next' state' = .ok after' ∧ Related after after' := by
  induction items generalizing state state' with
  | nil =>
      cases run
      exact ⟨state', rfl, start⟩
  | cons item items ih =>
      rw [List.foldlM_cons] at run
      obtain ⟨between, first, later⟩ := bind_eq_ok_iff.mp run
      obtain ⟨between', first', related⟩ := step item List.mem_cons_self state state' between start first
      obtain ⟨after', later', related⟩ :=
        ih (fun other member => step other (List.mem_cons_of_mem _ member)) related later
      refine ⟨after', ?_, related⟩
      rw [List.foldlM_cons, first']
      exact later'

theorem mapM_total {make : α → Except ε β} {items : List α}
    (each : ∀ item ∈ items, ∃ value, make item = .ok value) :
    ∃ values, items.mapM make = .ok values := by
  induction items with
  | nil => exact ⟨[], rfl⟩
  | cons item items ih =>
      obtain ⟨value, made⟩ := each item List.mem_cons_self
      obtain ⟨values, run⟩ := ih fun other member => each other (List.mem_cons_of_mem _ member)
      refine ⟨value :: values, ?_⟩
      rw [List.mapM_cons, made, run]
      rfl

theorem mapM_map {γ : Type} {make : α → Except ε β} {read : β → γ} {known : α → γ}
    {items : List α}
    (each : ∀ item ∈ items, ∀ value, make item = .ok value → read value = known item)
    {values : List β} (run : items.mapM make = .ok values) : values.map read = items.map known := by
  induction items generalizing values with
  | nil =>
      cases run
      rfl
  | cons item items ih =>
      rw [List.mapM_cons] at run
      obtain ⟨value, made, run⟩ := bind_eq_ok_iff.mp run
      obtain ⟨rest, later, run⟩ := bind_eq_ok_iff.mp run
      cases run
      rw [List.map_cons, List.map_cons, each item List.mem_cons_self value made,
        ih (fun other member => each other (List.mem_cons_of_mem _ member)) later]

theorem foldlM_error {next : β → α → Except ε β} {Allowed : ε → Prop}
    (known : ∀ before item stop, next before item = .error stop → Allowed stop) {items : List α}
    {before : β} {stop : ε} (stopped : items.foldlM next before = .error stop) : Allowed stop := by
  induction items generalizing before with
  | nil => cases stopped
  | cons item items ih =>
      rw [List.foldlM_cons] at stopped
      rcases bind_eq_error_iff.mp stopped with first | ⟨between, -, later⟩
      · exact known before item stop first
      · exact ih later

theorem foldl_invariant {next : β → α → β} {items : List α} (Holds : List α → β → Prop)
    (step : ∀ done item todo before, items = done ++ item :: todo → Holds done before →
      Holds (done ++ [item]) (next before item))
    {before : β} (start : Holds [] before) : Holds items (items.foldl next before) := by
  suffices carried : ∀ todo done before, items = done ++ todo → Holds done before →
      Holds items (todo.foldl next before) from carried items [] before rfl start
  intro todo
  induction todo with
  | nil =>
      intro done before parts holds
      simpa [parts] using holds
  | cons item todo ih =>
      intro done before parts holds
      exact ih (done ++ [item]) (next before item) (by simp [parts])
        (step done item todo before parts holds)

theorem not_mem_behind {items done todo : List α} {item : α} (distinct : items.Nodup)
    (parts : items = done ++ item :: todo) : item ∉ done := by
  rw [parts, List.nodup_middle, List.nodup_cons] at distinct
  exact mt (List.mem_append_left todo) distinct.1

theorem mem_ahead {items done todo : List α} {item other : α} (distinct : items.Nodup)
    (parts : items = done ++ item :: todo) (later : [item, other].Sublist items) : other ∈ todo := by
  have behind := not_mem_behind distinct parts
  rw [parts] at later distinct
  obtain ⟨first, rest, whole, old, new⟩ := List.sublist_append_iff.mp later
  cases first with
  | nil =>
      rw [List.nil_append] at whole
      subst whole
      rcases List.sublist_cons_iff.mp new with new | ⟨rest, same, new⟩
      · have again : item ∈ todo := new.subset List.mem_cons_self
        rw [List.nodup_middle, List.nodup_cons] at distinct
        exact absurd (List.mem_append_right _ again) distinct.1
      · cases same
        exact new.subset List.mem_cons_self
  | cons one first =>
      rw [List.cons_append, List.cons.injEq] at whole
      obtain ⟨rfl, -⟩ := whole
      exact absurd (old.subset List.mem_cons_self) behind

end ScriptModules
