import Mathlib.Data.List.Nodup
import ScriptModules.Proofs.Result
import ScriptModules.Text.Ledger

namespace ScriptModules.Ledger

variable {α : Type}

@[simp] theorem get?_nil (name : String) : get? ([] : Ledger α) name = none := rfl

@[simp] theorem get?_cons (entry : String × α) (rest : Ledger α) (name : String) :
    get? (entry :: rest) name = if entry.1 = name then some entry.2 else get? rest name := by
  by_cases same : entry.1 = name <;> simp [get?, same]

@[simp] theorem names_nil : names ([] : Ledger α) = [] := rfl

@[simp] theorem names_cons (entry : String × α) (rest : Ledger α) :
    names (entry :: rest) = entry.1 :: names rest := rfl

@[simp] theorem get?_eq_none_iff (ledger : Ledger α) (name : String) :
    ledger.get? name = none ↔ name ∉ ledger.names := by
  induction ledger with
  | nil => simp
  | cons entry rest ih =>
      by_cases same : entry.1 = name
      · simp [same]
      · simp [same, ih, Ne.symm same]

theorem mem_names_of_get? {ledger : Ledger α} {name : String} {value : α}
    (found : ledger.get? name = some value) : name ∈ ledger.names := by
  by_contra absent
  rw [(get?_eq_none_iff ledger name).mpr absent] at found
  cases found

theorem exists_get?_of_mem_names {ledger : Ledger α} {name : String}
    (entered : name ∈ ledger.names) : ∃ value, ledger.get? name = some value := by
  cases found : ledger.get? name with
  | none => exact absurd entered ((get?_eq_none_iff ledger name).mp found)
  | some value => exact ⟨value, rfl⟩

theorem mem_of_get? {ledger : Ledger α} {name : String} {value : α}
    (found : ledger.get? name = some value) : (name, value) ∈ ledger := by
  induction ledger with
  | nil => simp at found
  | cons entry rest ih =>
      rw [get?_cons] at found
      split at found
      · rename_i same
        cases found
        rw [← same]
        exact List.mem_cons_self
      · exact List.mem_cons_of_mem _ (ih found)

theorem get?_of_mem {ledger : Ledger α} (distinct : ledger.names.Nodup) {name : String}
    {value : α} (entry : (name, value) ∈ ledger) : ledger.get? name = some value := by
  induction ledger with
  | nil => cases entry
  | cons first rest ih =>
      obtain ⟨fresh, distinct⟩ := List.nodup_cons.mp distinct
      rcases List.mem_cons.mp entry with rfl | later
      · simp
      · have other : first.1 ≠ name := by
          rintro rfl
          exact fresh (List.mem_map.mpr ⟨_, later, rfl⟩)
        rw [get?_cons, if_neg other]
        exact ih distinct later

@[simp] theorem get?_put (ledger : Ledger α) (written name : String) (value : α) :
    (ledger.put written value).get? name =
      if written = name then some value else ledger.get? name := by
  induction ledger with
  | nil => simp [put]
  | cons entry rest ih =>
      by_cases same : entry.1 = written
      · by_cases asked : written = name <;> simp [put, same, asked]
      · rw [put, if_neg same, get?_cons, get?_cons, ih]
        by_cases asked : entry.1 = name
        · have other : written ≠ name := fun equal => same (asked.trans equal.symm)
          simp [asked, other]
        · simp [asked]

theorem names_put (ledger : Ledger α) (name : String) (value : α) :
    (ledger.put name value).names =
      if name ∈ ledger.names then ledger.names else ledger.names ++ [name] := by
  induction ledger with
  | nil => simp [put]
  | cons entry rest ih =>
      by_cases same : entry.1 = name
      · simp [put, same]
      · have other : name ≠ entry.1 := Ne.symm same
        by_cases entered : name ∈ names rest <;> simp [put, same, other, ih, entered]

@[simp] theorem mem_names_put (ledger : Ledger α) (written name : String) (value : α) :
    name ∈ (ledger.put written value).names ↔ name ∈ ledger.names ∨ name = written := by
  rw [names_put]
  split
  · rename_i entered
    exact ⟨Or.inl, fun h => h.elim id fun equal => equal ▸ entered⟩
  · simp

theorem nodup_names_put {ledger : Ledger α} (distinct : ledger.names.Nodup) (name : String)
    (value : α) : (ledger.put name value).names.Nodup := by
  rw [names_put]
  split
  · exact distinct
  · rename_i fresh
    exact List.nodup_append.mpr ⟨distinct, List.nodup_singleton name, by
      intro a entered b single equal
      rw [List.mem_singleton.mp single] at equal
      exact fresh (equal ▸ entered)⟩

theorem names_ofList (entries : List (String × α)) :
    (ofList entries).names = (entries.map Prod.fst).eraseDups := by
  refine foldl_invariant (fun done (ledger : Ledger α) =>
    ledger.names = (done.map Prod.fst).eraseDups) ?_ rfl
  intro done entry todo before parts same
  rw [names_put, same, List.map_append, List.eraseDups_append, List.map_cons, List.map_nil]
  by_cases known : entry.1 ∈ done.map Prod.fst <;>
    simp [List.mem_eraseDups, known, List.removeAll, List.eraseDups_cons]

theorem get?_ofList (entries : List (String × α)) (name : String) : (ofList entries).get? name =
    (entries.reverse.find? fun entry => entry.1 == name).map Prod.snd := by
  refine foldl_invariant (fun done (ledger : Ledger α) =>
    ledger.get? name = (done.reverse.find? fun entry => entry.1 == name).map Prod.snd) ?_ rfl
  intro done entry todo before parts same
  rw [get?_put, same, List.reverse_append, List.reverse_singleton, List.singleton_append,
    List.find?_cons]
  by_cases own : entry.1 = name
  · rw [if_pos own, beq_iff_eq.mpr own]
    rfl
  · rw [if_neg own, beq_eq_false_iff_ne.mpr own]

theorem mem_put {ledger : Ledger α} {name : String} {value : α}
    {entry : String × α} (member : entry ∈ ledger.put name value) :
    entry = (name, value) ∨ entry ∈ ledger := by
  induction ledger with
  | nil => exact .inl (List.mem_singleton.mp member)
  | cons first rest ih =>
      rw [put] at member
      split at member
      · exact (List.mem_cons.mp member).imp_right (List.mem_cons_of_mem _)
      · rcases List.mem_cons.mp member with rfl | later
        · exact .inr List.mem_cons_self
        · exact (ih later).imp_right (List.mem_cons_of_mem _)

theorem get?_filter_value {ledger : Ledger α} (distinct : ledger.names.Nodup) (keep : α → Bool)
    (name : String) :
    get? (ledger.filter fun entry => keep entry.2) name = (ledger.get? name).filter keep := by
  induction ledger with
  | nil => rfl
  | cons entry rest ih =>
      obtain ⟨fresh, distinct⟩ := List.nodup_cons.mp distinct
      have tail := ih distinct
      rw [List.filter_cons]
      by_cases kept : keep entry.2
      · rw [if_pos kept, get?_cons, get?_cons, tail]
        split
        · exact (Option.filter_some_pos kept).symm
        · rfl
      · rw [if_neg kept, tail, get?_cons]
        split
        · rename_i same
          have absent : get? rest name = none := by
            rw [get?_eq_none_iff, ← same]
            exact fresh
          rw [absent]
          exact (Option.filter_some_eq_none.mpr kept).symm
        · rfl

theorem nodup_names_filter {ledger : Ledger α} (distinct : ledger.names.Nodup)
    (keep : String × α → Bool) : (names (ledger.filter keep)).Nodup :=
  distinct.sublist (List.filter_sublist.map _)

end ScriptModules.Ledger
