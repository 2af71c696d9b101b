import Mathlib.Data.List.Chain
import Mathlib.Data.List.Induction
import ScriptModules.Proofs.Corpus.Index

namespace ScriptModules.Index

inductive Step (File : Type)
  | register (name : String) (file : File)
  | discard (file : File)
deriving DecidableEq, Repr

variable {File : Type}

section

variable [DecidableEq File] [Located File]

def apply (index : Index File) : Step File → Index File
  | .register name file => (index.register name file).1
  | .discard file => index.discard file

def replay (steps : List (Step File)) : Index File :=
  steps.foldl apply {}

@[simp] theorem replay_nil : replay ([] : List (Step File)) = {} := rfl

@[simp] theorem replay_concat (steps : List (Step File)) (step : Step File) :
    replay (steps ++ [step]) = (replay steps).apply step := by
  simp [replay]

end

/-- A file made the last registration of a name and was not discarded since. -/
def Owns (steps : List (Step File)) (name : String) (file : File) : Prop :=
  ∃ before after, steps = before ++ .register name file :: after ∧
    (∀ other, .register name other ∉ after) ∧ .discard file ∉ after

def TakesOver (steps : List (Step File)) (moment : Nat) (entry : Takeover File) : Prop :=
  steps[moment]? = some (.register entry.name entry.file) ∧
    Owns (steps.take moment) entry.name entry.previous ∧ entry.previous ≠ entry.file

def Leaves (steps : List (Step File)) (name : String) (file : File) (first last : Nat) : Prop :=
  ∃ moment, first < moment ∧ moment < last ∧ steps[moment]? = some (.discard file) ∧
    Owns (steps.take moment) name file

/-- The second takeover is from the file that made the first one, unless that file was discarded in
between. -/
def Linked (steps : List (Step File)) (first second : Nat × Takeover File) : Prop :=
  second.2.previous = first.2.file ∨ Leaves steps first.2.name first.2.file first.1 second.1

/-- At this moment a name is registered that has no owner, and it has had one ever since. -/
def Enters (steps : List (Step File)) (moment : Nat) (name : String) : Prop :=
  (∃ file, steps[moment]? = some (.register name file)) ∧
    (∀ file, ¬Owns (steps.take moment) name file) ∧
    ∀ later, moment < later → later ≤ steps.length → ∃ file, Owns (steps.take later) name file

def Ordered (steps : List (Step File)) (names : List String) : Prop :=
  ∃ entered : List (Nat × String), names = entered.map Prod.snd ∧
    entered.Pairwise (fun first second => first.1 < second.1) ∧
    ∀ entry ∈ entered, Enters steps entry.1 entry.2

section

variable {steps : List (Step File)} {name : String} {file : File} {moment : Nat}

theorem not_owns_nil : ¬Owns [] name file := by
  rintro ⟨before, after, parts, -⟩
  cases before <;> cases parts

theorem owns_concat (step : Step File) : Owns (steps ++ [step]) name file ↔
    step = .register name file ∨
      Owns steps name file ∧ (∀ other, step ≠ .register name other) ∧ step ≠ .discard file := by
  constructor
  · rintro ⟨before, after, parts, last, kept⟩
    -- the registration that counts is the new step or stands before it
    rcases List.eq_nil_or_concat after with rfl | ⟨after, final, rfl⟩
    · exact .inl (List.concat_inj.mp (by simpa using parts)).2
    · rw [List.concat_eq_append] at parts last kept
      rw [← List.cons_append, ← List.append_assoc] at parts
      obtain ⟨earlier, same⟩ := List.append_inj' parts rfl
      cases same
      refine .inr ⟨⟨before, after, earlier, ?_, ?_⟩, ?_, ?_⟩
      · exact fun other member => last other (List.mem_append_left _ member)
      · exact fun member => kept (List.mem_append_left _ member)
      · rintro other rfl
        exact last other (by simp)
      · rintro rfl
        exact kept (by simp)
  · rintro (rfl | ⟨⟨before, after, rfl, last, kept⟩, unregistered, undiscarded⟩)
    · exact ⟨steps, [], by simp, by simp, by simp⟩
    · refine ⟨before, after ++ [step], by simp, ?_, ?_⟩
      · intro other member
        rcases List.mem_append.mp member with member | member
        · exact last other member
        · exact unregistered other (List.mem_singleton.mp member).symm
      · intro member
        rcases List.mem_append.mp member with member | member
        · exact kept member
        · exact undiscarded (List.mem_singleton.mp member).symm

theorem owns_register (written : String) (holder : File) :
    Owns (steps ++ [.register written holder]) name file ↔
      written = name ∧ holder = file ∨ written ≠ name ∧ Owns steps name file := by
  rw [owns_concat]
  constructor
  · rintro (same | ⟨owned, other, -⟩)
    · cases same
      exact .inl ⟨rfl, rfl⟩
    · refine .inr ⟨?_, owned⟩
      rintro rfl
      exact other holder rfl
  · rintro (⟨rfl, rfl⟩ | ⟨other, owned⟩)
    · exact .inl rfl
    · refine .inr ⟨owned, ?_, by simp⟩
      rintro other' same
      cases same
      exact other rfl

theorem owns_discard (gone : File) :
    Owns (steps ++ [.discard gone]) name file ↔ Owns steps name file ∧ file ≠ gone := by
  rw [owns_concat]
  simp [eq_comm]

theorem owner_unique {other : File} (owned : Owns steps name file)
    (again : Owns steps name other) : file = other := by
  induction steps using List.reverseRecOn with
  | nil => exact absurd owned not_owns_nil
  | append_singleton steps step ih =>
      rcases (owns_concat step).mp owned with rfl | ⟨owned, fresh, -⟩
      · rcases (owns_concat _).mp again with same | ⟨-, fresh, -⟩
        · exact (Step.register.inj same).2
        · exact absurd rfl (fresh file)
      · rcases (owns_concat step).mp again with same | ⟨again, -, -⟩
        · exact absurd same (fresh other)
        · exact ih owned again

theorem take_concat (step : Step File) (early : moment ≤ steps.length) :
    (steps ++ [step]).take moment = steps.take moment :=
  List.take_append_of_le_length early

theorem getElem?_concat_of_lt (step : Step File) (early : moment < steps.length) :
    (steps ++ [step])[moment]? = steps[moment]? :=
  List.getElem?_append_left early

theorem TakesOver.lt_length {entry : Takeover File} (taken : TakesOver steps moment entry) :
    moment < steps.length :=
  (List.getElem?_eq_some_iff.mp taken.1).1

theorem takesOver_concat (step : Step File) (entry : Takeover File) :
    TakesOver (steps ++ [step]) moment entry ↔ TakesOver steps moment entry ∨
      moment = steps.length ∧ step = .register entry.name entry.file ∧
        Owns steps entry.name entry.previous ∧ entry.previous ≠ entry.file := by
  rcases Nat.lt_trichotomy moment steps.length with early | rfl | late
  · rw [TakesOver, getElem?_concat_of_lt step early, take_concat step early.le]
    simp [TakesOver, early.ne]
  · simp [TakesOver]
  · constructor
    · intro taken
      have bound := taken.lt_length
      rw [List.length_append, List.length_singleton] at bound
      omega
    · rintro (taken | ⟨rfl, -⟩)
      · exact absurd (taken.lt_length.trans late) (lt_irrefl _)
      · exact absurd late (lt_irrefl _)

theorem Leaves.concat {first last : Nat} (step : Step File) (early : last ≤ steps.length)
    (left : Leaves steps name file first last) : Leaves (steps ++ [step]) name file first last := by
  obtain ⟨moment, after, before, gone, owned⟩ := left
  have inside : moment < steps.length := before.trans_le early
  refine ⟨moment, after, before, ?_, ?_⟩
  · rwa [getElem?_concat_of_lt step inside]
  · rwa [take_concat step inside.le]

theorem Enters.lt_length (entered : Enters steps moment name) : moment < steps.length := by
  obtain ⟨⟨file, here⟩, -⟩ := entered
  exact (List.getElem?_eq_some_iff.mp here).1

theorem Enters.concat {step : Step File} (entered : Enters steps moment name)
    (stays : ∃ file, Owns (steps ++ [step]) name file) : Enters (steps ++ [step]) moment name := by
  have inside := entered.lt_length
  obtain ⟨⟨file, here⟩, fresh, since⟩ := entered
  refine ⟨⟨file, ?_⟩, ?_, ?_⟩
  · rwa [getElem?_concat_of_lt step inside]
  · rwa [take_concat step inside.le]
  · intro later after bound
    rcases Nat.lt_or_ge steps.length later with last | early
    · rwa [List.take_of_length_le (by simpa using Nat.succ_le_of_lt last)]
    · rw [take_concat step early]
      exact since later after early

theorem enters_register (fresh : ∀ file, ¬Owns steps name file) (file : File) :
    Enters (steps ++ [.register name file]) steps.length name := by
  refine ⟨⟨file, by simp⟩, by simpa using fresh, ?_⟩
  intro later after bound
  rw [List.take_of_length_le (by simpa using Nat.succ_le_of_lt after)]
  exact ⟨file, (owns_register name file).mpr (.inl ⟨rfl, rfl⟩)⟩

theorem Ordered.sublist {names fewer : List String} (ordered : Ordered steps names)
    (kept : fewer.Sublist names) : Ordered steps fewer := by
  obtain ⟨entered, rfl, increasing, moments⟩ := ordered
  obtain ⟨entered', sub, rfl⟩ := List.sublist_map_iff.mp kept
  exact ⟨entered', rfl, increasing.sublist sub, fun entry member => moments entry (sub.subset member)⟩

theorem Ordered.concat {names : List String} {step : Step File} (ordered : Ordered steps names)
    (stay : ∀ name ∈ names, ∃ file, Owns (steps ++ [step]) name file) :
    Ordered (steps ++ [step]) names := by
  obtain ⟨entered, rfl, increasing, moments⟩ := ordered
  refine ⟨entered, rfl, increasing, ?_⟩
  intro entry member
  exact (moments entry member).concat (stay entry.2 (List.mem_map_of_mem member))

theorem Ordered.register {names : List String} (file : File) (ordered : Ordered steps names)
    (present : ∀ name ∈ names, ∃ file, Owns steps name file)
    (fresh : ∀ file, ¬Owns steps name file) :
    Ordered (steps ++ [.register name file]) (names ++ [name]) := by
  have stay : ∀ known ∈ names, ∃ holder, Owns (steps ++ [.register name file]) known holder := by
    intro known member
    obtain ⟨owner, owned⟩ := present known member
    have other : name ≠ known := by
      rintro rfl
      exact fresh owner owned
    exact ⟨owner, (owns_register name file).mpr (.inr ⟨other, owned⟩)⟩
  obtain ⟨entered, rfl, increasing, moments⟩ := ordered
  refine ⟨entered ++ [(steps.length, name)], by simp, ?_, ?_⟩
  · rw [List.pairwise_append]
    refine ⟨increasing, List.pairwise_singleton _ _, ?_⟩
    intro entry member last single
    rw [List.mem_singleton.mp single]
    exact (moments entry member).lt_length
  · intro entry member
    rcases List.mem_append.mp member with old | new
    · exact (moments entry old).concat (stay entry.2 (List.mem_map_of_mem old))
    · rw [List.mem_singleton.mp new]
      exact enters_register fresh file

end

def Tracked (steps : List (Step File)) (name : String) (record : Nat × Takeover File) : Prop :=
  Owns steps name record.2.file ∨ Leaves steps name record.2.file record.1 steps.length

/-- The takeovers with their moments: in order, complete, and linked for each name. -/
structure Recorded (steps : List (Step File)) (records : List (Nat × Takeover File)) : Prop where
  increasing : records.Pairwise fun first second => first.1 < second.1
  complete : ∀ moment entry, (moment, entry) ∈ records ↔ TakesOver steps moment entry
  linked : ∀ name, (records.filter fun record => record.2.name == name).IsChain (Linked steps)
  tracked : ∀ name, ∀ last ∈ (records.filter fun record => record.2.name == name).getLast?,
    Tracked steps name last

section

variable {steps : List (Step File)} {records : List (Nat × Takeover File)}

theorem Recorded.lt_length (recorded : Recorded steps records) {record : Nat × Takeover File}
    (member : record ∈ records) : record.1 < steps.length :=
  TakesOver.lt_length ((recorded.complete record.1 record.2).mp member)

theorem Recorded.linked_concat (recorded : Recorded steps records) (step : Step File) (name : String) :
    (records.filter fun record => record.2.name == name).IsChain (Linked (steps ++ [step])) := by
  refine (recorded.linked name).imp_of_mem_imp ?_
  intro first second _ member link
  have early := recorded.lt_length (List.mem_of_mem_filter member)
  exact link.imp_right fun left => left.concat step early.le

theorem Tracked.concat {name : String} {record : Nat × Takeover File} (step : Step File)
    (early : record.1 < steps.length) (tracked : Tracked steps name record)
    (quiet : ∀ holder, step = .register name holder → Owns steps name record.2.file →
      holder = record.2.file) : Tracked (steps ++ [step]) name record := by
  have longer : steps.length < (steps ++ [step]).length := by simp
  rcases tracked with owned | left
  · by_cases gone : step = .discard record.2.file
    · refine .inr ⟨steps.length, early, longer, ?_, ?_⟩
      · simp [gone]
      · simpa using owned
    · refine .inl ((owns_concat step).mpr ?_)
      by_cases again : ∃ holder, step = .register name holder
      · obtain ⟨holder, again⟩ := again
        exact .inl (quiet holder again owned ▸ again)
      · exact .inr ⟨owned, fun holder same => again ⟨holder, same⟩, gone⟩
  · obtain ⟨moment, after, before, rest⟩ := left.concat step le_rfl
    exact .inr ⟨moment, after, before.trans longer, rest⟩

theorem Recorded.quiet (recorded : Recorded steps records) {step : Step File}
    (quiet : ∀ entry, ¬TakesOver (steps ++ [step]) steps.length entry) :
    Recorded (steps ++ [step]) records where
  increasing := recorded.increasing
  complete := by
    intro moment entry
    rw [recorded.complete, takesOver_concat]
    refine ⟨.inl, fun taken => taken.resolve_right ?_⟩
    rintro ⟨rfl, now⟩
    exact quiet entry ((takesOver_concat step entry).mpr (.inr ⟨rfl, now⟩))
  linked := recorded.linked_concat step
  tracked := by
    intro name last final
    have member := List.mem_of_getLast? final
    refine (recorded.tracked name last final).concat step
      (recorded.lt_length (List.mem_of_mem_filter member)) ?_
    rintro holder rfl owned
    by_contra other
    refine quiet { name, file := holder, previous := last.2.file } ?_
    exact (takesOver_concat _ _).mpr (.inr ⟨rfl, rfl, owned, Ne.symm other⟩)

theorem Recorded.takeover (recorded : Recorded steps records) {entry : Takeover File}
    (owned : Owns steps entry.name entry.previous) (other : entry.previous ≠ entry.file) :
    Recorded (steps ++ [.register entry.name entry.file])
      (records ++ [(steps.length, entry)]) where
  increasing := by
    rw [List.pairwise_append]
    refine ⟨recorded.increasing, List.pairwise_singleton _ _, ?_⟩
    intro record member last single
    rw [List.mem_singleton.mp single]
    exact recorded.lt_length member
  complete := by
    intro moment taken
    rw [List.mem_append, recorded.complete, takesOver_concat]
    refine or_congr_right ?_
    rw [List.mem_singleton]
    constructor
    · intro same
      cases same
      exact ⟨rfl, rfl, owned, other⟩
    · rintro ⟨rfl, same, owned', -⟩
      obtain ⟨sameName, samePath⟩ := Step.register.inj same
      have samePrevious := owner_unique owned (sameName ▸ owned')
      cases entry
      cases taken
      cases sameName
      cases samePath
      cases samePrevious
      rfl
  linked := by
    intro name
    have early := recorded.linked_concat (.register entry.name entry.file) name
    rw [List.filter_append, List.filter_singleton]
    by_cases same : entry.name = name
    · rw [beq_iff_eq.mpr same]
      refine early.append (List.isChain_singleton _) ?_
      rintro last final next ⟨⟩
      have lastName := eq_of_beq (List.mem_filter.mp (List.mem_of_getLast? final)).2
      -- who took the name over last still owns it, or was discarded in between
      rcases recorded.tracked name last final with owned' | left
      · exact .inl (owner_unique (same ▸ owned) owned')
      · rw [← lastName] at left
        exact .inr (left.concat _ le_rfl)
    · rwa [beq_eq_false_iff_ne.mpr same, cond_false, List.append_nil]
  tracked := by
    intro name last final
    rw [List.filter_append, List.filter_singleton] at final
    by_cases same : entry.name = name
    · rw [beq_iff_eq.mpr same, cond_true, List.getLast?_concat] at final
      cases final
      exact .inl ((owns_register _ _).mpr (.inl ⟨same, rfl⟩))
    · rw [beq_eq_false_iff_ne.mpr same, cond_false, List.append_nil] at final
      have member := List.mem_of_getLast? final
      refine (recorded.tracked name last final).concat _
        (recorded.lt_length (List.mem_of_mem_filter member)) ?_
      intro holder again
      exact absurd (Step.register.inj again).1 same

end

/-! ## The index -/

section

variable [DecidableEq File]

theorem owner?_discard {index : Index File} (distinct : index.owners.names.Nodup) (file : File)
    (name : String) :
    (index.discard file).owner? name = (index.owner? name).filter (· != file) :=
  Ledger.get?_filter_value distinct (· != file) name

theorem namesOf_sublist (index : Index File) (file : File) :
    (index.namesOf file).Sublist index.owners.names :=
  List.filter_sublist.map Prod.fst

variable [Located File] {steps : List (Step File)} {name : String} {file : File}

theorem nodup_replay (steps : List (Step File)) : (replay steps).owners.names.Nodup := by
  refine foldl_invariant (fun _ (index : Index File) => index.owners.names.Nodup) ?_ List.nodup_nil
  intro _ step _ index _ distinct
  cases step with
  | register name file => exact Ledger.nodup_names_put distinct name file
  | discard file => exact Ledger.nodup_names_filter distinct fun entry => entry.2 != file

theorem owner?_replay (steps : List (Step File)) (name : String) (file : File) :
    (replay steps).owner? name = some file ↔ Owns steps name file := by
  induction steps using List.reverseRecOn generalizing file with
  | nil => exact iff_of_false (by simp [owner?]) not_owns_nil
  | append_singleton steps step ih =>
      rw [replay_concat]
      cases step with
      | register written holder =>
          rw [apply, owner?_register, owns_register, ← ih]
          by_cases same : written = name <;> simp [same]
      | discard gone =>
          rw [apply, owner?_discard (nodup_replay steps), owns_discard, ← ih]
          simp [Option.filter_eq_some_iff]

theorem mem_names_replay : name ∈ (replay steps).owners.names ↔ ∃ file, Owns steps name file := by
  simp only [← owner?_replay]
  constructor
  · exact Ledger.exists_get?_of_mem_names
  · rintro ⟨file, owned⟩
    exact Ledger.mem_names_of_get? owned

theorem mem_namesOf : name ∈ (replay steps).namesOf file ↔ Owns steps name file := by
  rw [← owner?_replay, namesOf, List.mem_map]
  constructor
  · rintro ⟨⟨entered, owner⟩, member, rfl⟩
    obtain ⟨member, own⟩ := List.mem_filter.mp member
    rw [← eq_of_beq own]
    exact Ledger.get?_of_mem (nodup_replay steps) member
  · intro owned
    exact ⟨(name, file), List.mem_filter.mpr ⟨Ledger.mem_of_get? owned, beq_self_eq_true file⟩, rfl⟩

theorem takeover?_replay (steps : List (Step File)) (name : String) (file : File)
    (entry : Takeover File) :
    (replay steps).takeover? name file = some entry ↔
      (name = entry.name ∧ file = entry.file) ∧
        Owns steps entry.name entry.previous ∧ entry.previous ≠ entry.file := by
  simp only [← owner?_replay]
  rw [takeover?]
  constructor
  · intro taken
    split at taken
    · rename_i previous owned
      split at taken
      · cases taken
      · rename_i other
        cases taken
        exact ⟨⟨rfl, rfl⟩, owned, other⟩
    · cases taken
  · rintro ⟨⟨rfl, rfl⟩, owned, other⟩
    rw [owned]
    simp [other]

theorem ordered_replay (steps : List (Step File)) : Ordered steps (replay steps).owners.names := by
  induction steps using List.reverseRecOn with
  | nil => exact ⟨[], rfl, List.Pairwise.nil, by simp⟩
  | append_singleton steps step ih =>
      have known : ∀ name ∈ (replay steps).owners.names, ∃ file, Owns steps name file :=
        fun name => mem_names_replay.mp
      have stay : ∀ name ∈ (replay (steps ++ [step])).owners.names,
          ∃ file, Owns (steps ++ [step]) name file := fun name => mem_names_replay.mp
      rw [replay_concat] at stay ⊢
      cases step with
      | register name file =>
          have written := Ledger.names_put (replay steps).owners name file
          change Ordered _ ((replay steps).owners.put name file).names
          change ∀ entered ∈ ((replay steps).owners.put name file).names, _ at stay
          rw [written] at stay ⊢
          by_cases entered : name ∈ (replay steps).owners.names
          · rw [if_pos entered] at stay ⊢
            exact ih.concat stay
          · rw [if_neg entered]
            refine ih.register file known ?_
            intro owner owned
            exact entered (mem_names_replay.mpr ⟨owner, owned⟩)
      | discard file =>
          exact (ih.sublist (List.filter_sublist.map Prod.fst)).concat stay

theorem recorded_replay (steps : List (Step File)) : ∃ records,
    (replay steps).redefinitions = records.map (fun record => record.2.redefinition) ∧
      Recorded steps records := by
  induction steps using List.reverseRecOn with
  | nil =>
      refine ⟨[], rfl, List.Pairwise.nil, ?_, fun _ => List.isChain_nil, by simp⟩
      intro moment entry
      exact iff_of_false (by simp) fun taken => absurd taken.lt_length (Nat.not_lt_zero _)
  | append_singleton steps step ih =>
      obtain ⟨records, written, recorded⟩ := ih
      rw [replay_concat]
      cases step with
      | discard file =>
          refine ⟨records, written, recorded.quiet ?_⟩
          rintro entry ⟨here, -⟩
          simp at here
      | register name file =>
          -- a registration is recorded just if it takes the name over
          cases taken : (replay steps).takeover? name file with
          | none =>
              refine ⟨records, by simp [apply, register, taken, written], recorded.quiet ?_⟩
              intro entry now
              rcases (takesOver_concat _ entry).mp now with early | ⟨-, same, now⟩
              · exact early.lt_length.false
              · obtain ⟨sameName, samePath⟩ := Step.register.inj same
                have found := (takeover?_replay steps name file entry).mpr
                  ⟨⟨sameName, samePath⟩, now⟩
                rw [taken] at found
                cases found
          | some entry =>
              obtain ⟨⟨rfl, rfl⟩, owned, other⟩ := (takeover?_replay steps name file entry).mp taken
              refine ⟨records ++ [(steps.length, entry)], ?_, recorded.takeover owned other⟩
              simp [apply, register, taken, written]

/-- An index tells its history. A file owns a name if it made the last registration and was not
discarded since. The recorded takeovers are, in order, the registrations that met another owner, and
those of one name are linked. The names of a file come in the order in which they were registered
when they had no owner, and discarding the file takes these names from it and nothing else. -/
theorem replay_history (steps : List (Step File)) :
    (∀ name file, (replay steps).owner? name = some file ↔ Owns steps name file) ∧
      (∃ records : List (Nat × Takeover File),
        (replay steps).redefinitions = records.map (fun record => record.2.redefinition) ∧
        records.Pairwise (fun first second => first.1 < second.1) ∧
        (∀ moment entry, (moment, entry) ∈ records ↔ TakesOver steps moment entry) ∧
        ∀ name, (records.filter fun record => record.2.name == name).IsChain (Linked steps)) ∧
      ∀ file,
        ((replay steps).namesOf file).Nodup ∧
        (∀ name, name ∈ (replay steps).namesOf file ↔ Owns steps name file) ∧
        Ordered steps ((replay steps).namesOf file) ∧
        ((replay steps).discard file).redefinitions = (replay steps).redefinitions ∧
        ∀ name, ((replay steps).discard file).owner? name =
          ((replay steps).owner? name).filter (· != file) := by
  obtain ⟨records, written, recorded⟩ := recorded_replay steps
  refine ⟨owner?_replay steps, ⟨records, written, recorded.increasing, recorded.complete,
    recorded.linked⟩, ?_⟩
  intro file
  have sublist := namesOf_sublist (replay steps) file
  refine ⟨(nodup_replay steps).sublist sublist, fun name => mem_namesOf,
    (ordered_replay steps).sublist sublist, rfl, ?_⟩
  exact owner?_discard (nodup_replay steps) file

end

end ScriptModules.Index
