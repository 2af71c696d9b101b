import Mathlib.Order.Bounds.Basic
import ScriptModules.Dependency.Integrity
import ScriptModules.Proofs.Ledger
import ScriptModules.Proofs.Result

/-!
# The greatest closed set of files

A set of files is closed if every name that one of them requires is owned by one of them. Passing
over the files until nothing is missing leaves the greatest closed subset of the files it starts
with, whatever their order (`checkIntegrity_isGreatest_closed`).

The proof separates the single drops from the passes. A drop is justified by a name that no live
file owns (`Survey.Drops`); no justified drop touches a closed set (`Drops.closed_subset`), and where
none is possible any more the live files are closed (`closed_of_settled`).
-/

namespace ScriptModules.Dependency

variable {File : Type}

/-- Every name that one of the files requires is owned by one of the files. -/
def Closed (requires : File → List String) (index : Index File) (files : Set File) : Prop :=
  ∀ file ∈ files, ∀ name ∈ requires file, ∃ owner ∈ files, index.owner? name = some owner

variable [Located File]

namespace Survey

variable {requires : File → List String}

def Distinct (survey : Survey File) : Prop :=
  (survey.live.map Located.path).Nodup

theorem Distinct.eq_of_path {survey : Survey File} (distinct : survey.Distinct) {file other : File}
    (live : file ∈ survey.live) (live' : other ∈ survey.live)
    (same : Located.path file = Located.path other) : file = other :=
  List.inj_on_of_nodup_map distinct live live' same

theorem Distinct.nodup {survey : Survey File} (distinct : survey.Distinct) : survey.live.Nodup :=
  List.Nodup.of_map _ distinct

variable [DecidableEq File]

theorem resolves_iff {survey : Survey File} (distinct : survey.Distinct) (name : String) :
    survey.resolves name = true ↔ ∃ owner ∈ survey.live, survey.index.owner? name = some owner := by
  rw [resolves, Option.any_eq_true]
  constructor
  · rintro ⟨owner, owned, found⟩
    exact ⟨owner, List.mem_of_find?_eq_some (eq_of_beq found), owned⟩
  · rintro ⟨owner, live, owned⟩
    refine ⟨owner, owned, beq_iff_eq.mpr ?_⟩
    cases found : survey.live.find? fun file => Located.path file == Located.path owner with
    | none => simpa using List.find?_eq_none.mp found owner live
    | some file =>
        exact congrArg some (distinct.eq_of_path (List.mem_of_find?_eq_some found) live
          (by simpa using List.find?_some found))

theorem live_drop {survey : Survey File} (distinct : survey.Distinct) {file : File}
    (live : file ∈ survey.live) (name : String) :
    (survey.drop file name).live = survey.live.filter (· != file) := by
  refine List.filter_congr fun other live' => ?_
  rw [Bool.eq_iff_iff, bne_iff_ne, bne_iff_ne, not_iff_not]
  exact ⟨distinct.eq_of_path live' live, congrArg Located.path⟩

theorem Distinct.drop {survey : Survey File} (distinct : survey.Distinct) (file : File)
    (name : String) : (survey.drop file name).Distinct :=
  List.Nodup.sublist (List.filter_sublist.map _) distinct

/-- The passes as they repeat, without a bound on their number. -/
inductive Repeats (requires : File → List String) : Survey File → Survey File → Prop
  | stop {survey : Survey File} (same : (survey.pass requires).live = survey.live) :
      Repeats requires survey (survey.pass requires)
  | again {survey last : Survey File} (changed : (survey.pass requires).live ≠ survey.live)
      (rest : Repeats requires (survey.pass requires) last) : Repeats requires survey last

inductive Drops (requires : File → List String) (first : Survey File) :
    List (File × String) → Survey File → Prop
  | none : Drops requires first [] first
  | drop {survey : Survey File} {gone : List (File × String)} {file : File} {name : String}
      (before : Drops requires first gone survey) (live : file ∈ survey.live)
      (missing : survey.missing? requires file = some name) :
      Drops requires first (gone ++ [(file, name)]) (survey.drop file name)

def Settled (requires : File → List String) (survey : Survey File) : Prop :=
  ∀ file ∈ survey.live, survey.missing? requires file = none

/-! ## One drop -/

theorem Drops.trans {first second third : Survey File} {gone gone' : List (File × String)}
    (before : Drops requires first gone second) (after : Drops requires second gone' third) :
    Drops requires first (gone ++ gone') third := by
  induction after with
  | none => rwa [List.append_nil]
  | drop _ live missing ih =>
      rw [← List.append_assoc]
      exact .drop ih live missing

theorem Drops.distinct {first last : Survey File} {gone : List (File × String)}
    (drops : Drops requires first gone last) (distinct : first.Distinct) : last.Distinct := by
  induction drops with
  | none => exact distinct
  | drop _ _ _ ih => exact ih.drop _ _

theorem length_live_drop_lt {survey : Survey File} {file : File} (live : file ∈ survey.live)
    (name : String) : (survey.drop file name).live.length < survey.live.length :=
  List.length_filter_lt_length_iff_exists.mpr ⟨file, live, by simp⟩

theorem Drops.length_live_le {first last : Survey File} {gone : List (File × String)}
    (drops : Drops requires first gone last) : last.live.length ≤ first.live.length := by
  induction drops with
  | none => exact le_rfl
  | drop _ live _ ih => exact (length_live_drop_lt live _).le.trans ih

theorem check_live (requires : File → List String) {survey : Survey File} {file : File}
    (live : file ∈ survey.live) : ∃ gone,
    Drops requires survey gone (survey.check requires file) ∧
      ((survey.check requires file).live.length = survey.live.length →
        survey.check requires file = survey ∧ survey.missing? requires file = none) := by
  unfold check
  split
  · rename_i name missing
    refine ⟨_, .drop .none live missing, fun same => ?_⟩
    exact absurd same (length_live_drop_lt live name).ne
  · rename_i found
    exact ⟨[], .none, fun _ => ⟨rfl, found⟩⟩

theorem mem_live_check {survey : Survey File} {file other : File} (live : other ∈ survey.live)
    (different : Located.path other ≠ Located.path file) :
    other ∈ (survey.check requires file).live := by
  unfold check
  split
  · simp [drop, live, different]
  · exact live

/-! ## One pass -/

theorem foldl_check (requires : File → List String) (files : List File) (survey : Survey File)
    (distinct : (files.map Located.path).Nodup) (live : ∀ file ∈ files, file ∈ survey.live) :
    ∃ gone, Drops requires survey gone (files.foldl (check requires) survey) ∧
      ((files.foldl (check requires) survey).live.length = survey.live.length →
        files.foldl (check requires) survey = survey ∧
          ∀ file ∈ files, survey.missing? requires file = none) := by
  induction files generalizing survey with
  | nil => exact ⟨[], .none, fun _ => ⟨rfl, by simp⟩⟩
  | cons file files ih =>
      obtain ⟨fresh, distinct⟩ := List.nodup_cons.mp distinct
      obtain ⟨gone, dropsNow, settledNow⟩ :=
        check_live requires (live file List.mem_cons_self)
      have stillLive : ∀ other ∈ files, other ∈ (survey.check requires file).live := by
        intro other member
        refine mem_live_check (live other (List.mem_cons_of_mem file member)) fun same => ?_
        exact fresh (same ▸ List.mem_map_of_mem member)
      obtain ⟨gone', dropsLater, settledLater⟩ := ih _ distinct stillLive
      refine ⟨gone ++ gone', dropsNow.trans dropsLater, fun same => ?_⟩
      -- the number of live files only falls, so it is the same after each of the two parts
      have boundNow := dropsNow.length_live_le
      have boundLater := dropsLater.length_live_le
      simp only [List.foldl_cons] at same ⊢
      obtain ⟨unchanged, settled⟩ := settledNow (by omega)
      obtain ⟨unchangedLater, settledRest⟩ := settledLater (by omega)
      rw [unchanged] at unchangedLater settledRest
      rw [unchanged]
      exact ⟨unchangedLater, List.forall_mem_cons.mpr ⟨settled, settledRest⟩⟩

theorem pass_drops (requires : File → List String) {survey : Survey File}
    (distinct : survey.Distinct) : ∃ gone,
    Drops requires survey gone (survey.pass requires) ∧
      ((survey.pass requires).live = survey.live →
        survey.pass requires = survey ∧ Settled requires survey) := by
  obtain ⟨gone, drops, settled⟩ :=
    foldl_check requires survey.live survey distinct fun _ live => live
  exact ⟨gone, drops, fun same => settled (congrArg List.length same)⟩

theorem Drops.live_eq_or_length_lt {first last : Survey File} {gone : List (File × String)}
    (drops : Drops requires first gone last) :
    last.live = first.live ∨ last.live.length < first.live.length := by
  cases drops with
  | none => exact .inl rfl
  | drop before live _ => exact .inr ((length_live_drop_lt live _).trans_le before.length_live_le)

/-! ## The passes -/

theorem passes_repeats (limit : Nat) {survey : Survey File} (distinct : survey.Distinct)
    (enough : survey.live.length < limit) :
    Repeats requires survey (survey.passes requires limit) := by
  induction limit generalizing survey with
  | zero => omega
  | succ limit ih =>
      obtain ⟨gone, drops, -⟩ := pass_drops requires distinct
      simp only [passes]
      split
      · rename_i same
        exact .stop same
      · rename_i changed
        have fewer := drops.live_eq_or_length_lt.resolve_left changed
        exact .again changed (ih (drops.distinct distinct) (by omega))

theorem Repeats.settled {first last : Survey File} (passes : Repeats requires first last)
    (distinct : first.Distinct) :
    ∃ gone, Drops requires first gone last ∧ Settled requires last := by
  induction passes with
  | stop same =>
      obtain ⟨-, -, settled⟩ := pass_drops requires distinct
      obtain ⟨unchanged, settled⟩ := settled same
      rw [unchanged]
      exact ⟨[], .none, settled⟩
  | again _ _ ih =>
      obtain ⟨gone, drops, -⟩ := pass_drops requires distinct
      obtain ⟨gone', later, settled⟩ := ih (drops.distinct distinct)
      exact ⟨gone ++ gone', drops.trans later, settled⟩

/-! ## What drops leave -/

def without (live : List File) (index : Index File) (gone : List (File × String)) : Survey File :=
  { live := live.filter fun file => !(gone.map Prod.fst).contains file
    index :=
      { index with
        owners := index.owners.filter fun entry => !(gone.map Prod.fst).contains entry.2 }
    dropped := gone.map fun entry => (Located.path entry.1, entry.2) }

theorem owner?_without {index : Index File} (names_nodup : index.owners.names.Nodup)
    (live : List File) (gone : List (File × String)) (name : String) (owner : File) :
    (without live index gone).index.owner? name = some owner ↔
      index.owner? name = some owner ∧ owner ∉ gone.map Prod.fst := by
  have kept := Ledger.get?_filter_value names_nodup
    (fun owner => !(gone.map Prod.fst).contains owner) name
  simp only [without, Index.owner?]
  rw [kept, Option.filter_eq_some_iff]
  simp

/-- A run of justified drops leaves the corpus without the dropped files, and each of them was live
and misses the name it stands with when it is dropped. -/
structure Accounts (requires : File → List String) (live : List File) (index : Index File)
    (gone : List (File × String)) (survey : Survey File) : Prop where
  rest : survey = without live index gone
  distinct : (gone.map Prod.fst).Nodup
  started : ∀ file ∈ gone.map Prod.fst, file ∈ live
  missing : ∀ before file name later, gone = before ++ (file, name) :: later →
    (without live index before).missing? requires file = some name

variable {live : List File} {index : Index File} {gone : List (File × String)}
  {survey : Survey File}

theorem Drops.accounts (distinct : (live.map Located.path).Nodup)
    (drops : Drops requires { live, index } gone survey) :
    Accounts requires live index gone survey := by
  induction drops with
  | none =>
      refine ⟨?_, by simp, by simp, by simp⟩
      simp [without]
  | @drop survey gone file name before member missing ih =>
      have shown := ih.rest
      have dropped := live_drop (before.distinct distinct) member name
      rw [shown] at member missing dropped
      obtain ⟨started, fresh⟩ := List.mem_filter.mp member
      have both (other : File) : (other != file && !(gone.map Prod.fst).contains other) =
          !((gone ++ [(file, name)]).map Prod.fst).contains other := by
        rw [Bool.eq_iff_iff]
        simp
        tauto
      refine ⟨?_, ?_, ?_, ?_⟩
      · rw [shown]
        refine Survey.mk.injEq .. |>.mpr ⟨?_, ?_, ?_⟩
        · exact dropped.trans (by simp only [without, List.filter_filter, both])
        · simp only [without, Index.discard, List.filter_filter, both]
        · simp [without]
      · rw [List.map_append]
        refine List.nodup_append.mpr ⟨ih.distinct, List.nodup_singleton file, ?_⟩
        rintro other before now single rfl
        rw [List.mem_singleton.mp single] at before
        simp [before] at fresh
      · intro other dropped
        rw [List.map_append, List.mem_append] at dropped
        rcases dropped with before | now
        · exact ih.started other before
        · rw [List.mem_singleton.mp now]
          exact started
      · intro before other reason later parts
        rcases List.eq_nil_or_concat later with rfl | ⟨later, last, rfl⟩
        · obtain ⟨rfl, same⟩ := List.append_inj' parts rfl
          cases same
          exact missing
        · rw [List.concat_eq_append, ← List.cons_append, ← List.append_assoc] at parts
          exact ih.missing before other reason later (List.append_inj' parts rfl).1

theorem distinct_without (distinct : (live.map Located.path).Nodup) (index : Index File)
    (gone : List (File × String)) : (without live index gone).Distinct :=
  List.Nodup.sublist (List.filter_sublist.map _) distinct

theorem resolves_without (distinct : (live.map Located.path).Nodup)
    (names_nodup : index.owners.names.Nodup) (gone : List (File × String)) (name : String) :
    (without live index gone).resolves name = (index.owner? name).any fun owner =>
      live.contains owner && !(gone.map Prod.fst).contains owner := by
  rw [Bool.eq_iff_iff, resolves_iff (distinct_without distinct index gone)]
  simp only [owner?_without names_nodup, Option.any_eq_true]
  constructor
  · rintro ⟨owner, member, owned, kept⟩
    simp only [without, List.mem_filter] at member
    exact ⟨owner, owned, by simpa using member⟩
  · rintro ⟨owner, owned, member⟩
    exact ⟨owner, by simpa [without] using member, owned,
      by simpa using (Bool.and_eq_true_iff.mp member).2⟩

/-! ## Closed sets -/

theorem Drops.closed_subset (distinct : (live.map Located.path).Nodup)
    (names_nodup : index.owners.names.Nodup) (drops : Drops requires { live, index } gone survey)
    {files : Set File} (closed : Closed requires index files)
    (subset : ∀ file ∈ files, file ∈ live) : ∀ file ∈ files, file ∈ survey.live := by
  induction drops with
  | none => exact subset
  | @drop survey gone file name before member missing ih =>
      intro other inside
      have rest := before.distinct distinct
      rw [live_drop rest member]
      refine List.mem_filter.mpr ⟨ih other inside, ?_⟩
      -- were it the dropped file, the missing name would have an owner that is still live
      rw [bne_iff_ne]
      rintro rfl
      obtain ⟨owner, inside, owned⟩ := closed other inside name (List.mem_of_find?_eq_some missing)
      have unresolved := List.find?_some missing
      have resolved : survey.resolves name = true := by
        refine (resolves_iff rest _).mpr ⟨owner, ih owner inside, ?_⟩
        have alive := ih owner inside
        rw [(before.accounts distinct).rest] at alive ⊢
        refine (owner?_without names_nodup _ _ _ _).mpr ⟨owned, ?_⟩
        simpa [without] using (List.mem_filter.mp alive).2
      simp [resolved] at unresolved

theorem closed_of_settled (distinct : (live.map Located.path).Nodup)
    (names_nodup : index.owners.names.Nodup) (drops : Drops requires { live, index } gone survey)
    (settled : Settled requires survey) : Closed requires index {file | file ∈ survey.live} := by
  intro file alive name required
  have found := settled file alive
  rw [missing?, List.find?_eq_none] at found
  have resolved : survey.resolves name = true := by simpa using found name required
  obtain ⟨owner, member, owned⟩ := (resolves_iff (drops.distinct distinct) _).mp resolved
  rw [(drops.accounts distinct).rest] at owned
  exact ⟨owner, member, ((owner?_without names_nodup _ _ _ _).mp owned).1⟩

end Survey

/-! ## The statement -/

section

open Survey

variable [DecidableEq File] (requires : File → List String) {live : List File} {index : Index File}

theorem checkIntegrity_repeats (distinct : (live.map Located.path).Nodup) :
    Repeats requires { live, index } (checkIntegrity requires live index) := by
  rw [checkIntegrity]
  exact passes_repeats _ distinct (Nat.lt_succ_self live.length)

theorem checkIntegrity_accounts (index : Index File) (distinct : (live.map Located.path).Nodup) :
    ∃ gone, Accounts requires live index gone (checkIntegrity requires live index) := by
  obtain ⟨gone, drops, -⟩ := (checkIntegrity_repeats requires distinct).settled distinct
  exact ⟨gone, drops.accounts distinct⟩

theorem checkIntegrity_isGreatest (distinct : (live.map Located.path).Nodup)
    (names_nodup : index.owners.names.Nodup) :
    IsGreatest {files | (∀ file ∈ files, file ∈ live) ∧ Closed requires index files}
      {file | file ∈ (checkIntegrity requires live index).live} := by
  obtain ⟨gone, drops, settled⟩ := (checkIntegrity_repeats requires distinct).settled distinct
  refine ⟨⟨?_, closed_of_settled distinct names_nodup drops settled⟩, ?_⟩
  · intro file left
    change file ∈ (checkIntegrity requires live index).live at left
    rw [(drops.accounts distinct).rest] at left
    exact (List.mem_filter.mp left).1
  · rintro files ⟨subset, closed⟩
    exact drops.closed_subset distinct names_nodup closed subset

theorem Survey.Accounts.mem_gone {gone : List (File × String)} {survey : Survey File}
    {requires : File → List String} (accounts : Accounts requires live index gone survey)
    (file : File) : file ∈ gone.map Prod.fst ↔ file ∈ live ∧ file ∉ survey.live := by
  have left : file ∈ survey.live ↔ file ∈ live ∧ file ∉ gone.map Prod.fst := by
    rw [accounts.rest]
    simp [without]
  have started := accounts.started file
  rw [left]
  tauto

theorem checkIntegrity_perm (distinct : (live.map Located.path).Nodup)
    (names_nodup : index.owners.names.Nodup) {order : List File} (perm : order.Perm live) :
    (checkIntegrity requires order index).live.Perm (checkIntegrity requires live index).live ∧
      (checkIntegrity requires order index).index = (checkIntegrity requires live index).index := by
  have distinct' : (order.map Located.path).Nodup := (perm.map _).nodup_iff.mpr distinct
  obtain ⟨gone, accounts⟩ := checkIntegrity_accounts requires index distinct
  obtain ⟨gone', others⟩ := checkIntegrity_accounts requires index distinct'
  have greatest := checkIntegrity_isGreatest requires distinct' names_nodup
  simp only [perm.mem_iff] at greatest
  have left : ∀ file, file ∈ (checkIntegrity requires order index).live ↔
      file ∈ (checkIntegrity requires live index).live :=
    Set.ext_iff.mp (greatest.unique (checkIntegrity_isGreatest requires distinct names_nodup))
  have dropped (file : File) :
      (gone'.map Prod.fst).contains file = (gone.map Prod.fst).contains file := by
    rw [Bool.eq_iff_iff, List.contains_iff_mem, List.contains_iff_mem, others.mem_gone,
      accounts.mem_gone, left, perm.mem_iff]
  constructor
  · refine (List.perm_ext_iff_of_nodup ?_ ?_).mpr left
    · rw [others.rest]
      exact (distinct_without distinct' index gone').nodup
    · rw [accounts.rest]
      exact (distinct_without distinct index gone).nodup
  · rw [others.rest, accounts.rest]
    simp only [without, dropped]

/-- The passes end; they leave the greatest closed subset of the files they start with, whatever
the order of these; the index keeps the names whose owner is left; and each dropped file is reported
with the first name that it requires and no file owned that was live when it was dropped. -/
theorem checkIntegrity_isGreatest_closed (distinct : (live.map Located.path).Nodup)
    (names_nodup : index.owners.names.Nodup) :
    let survey := checkIntegrity requires live index
    Repeats requires { live, index } survey ∧
    IsGreatest {files | (∀ file ∈ files, file ∈ live) ∧ Closed requires index files}
      {file | file ∈ survey.live} ∧
    (∀ order : List File, order.Perm live →
      (checkIntegrity requires order index).live.Perm survey.live ∧
        (checkIntegrity requires order index).index = survey.index) ∧
    ∃ gone : List (File × String),
      survey.dropped = gone.map (fun entry => (Located.path entry.1, entry.2)) ∧
      survey.live = live.filter (fun file => !(gone.map Prod.fst).contains file) ∧
      survey.index = { index with
        owners := index.owners.filter fun entry => !(gone.map Prod.fst).contains entry.2 } ∧
      (gone.map Prod.fst).Nodup ∧
      (∀ file, file ∈ gone.map Prod.fst ↔ file ∈ live ∧ file ∉ survey.live) ∧
      ∀ before file name later, gone = before ++ (file, name) :: later →
        ((requires file).find? fun name => !(index.owner? name).any fun owner =>
          live.contains owner && !(before.map Prod.fst).contains owner) = some name := by
  intro survey
  obtain ⟨gone, accounts⟩ := checkIntegrity_accounts requires index distinct
  refine ⟨checkIntegrity_repeats requires distinct,
    checkIntegrity_isGreatest requires distinct names_nodup,
    fun order perm => checkIntegrity_perm requires distinct names_nodup perm, gone,
    congrArg Survey.dropped accounts.rest, congrArg Survey.live accounts.rest,
    congrArg Survey.index accounts.rest, accounts.distinct, accounts.mem_gone, ?_⟩
  intro before file name later parts
  have missing := accounts.missing before file name later parts
  rw [missing?] at missing
  simpa only [resolves_without distinct names_nodup] using missing

/-- Two files that require each other fall with a third that one of them requires from; a file that
requires nothing stays. -/
theorem checkIntegrity_cycle_falls :
    let scripts : List Script :=
      [{ path := "./a.js", id := 0, tree := .program [], stem := "a", requires := [("B", [])] },
       { path := "./b.js", id := 1, tree := .program [], stem := "b",
         requires := [("A", []), ("C", [])] },
       { path := "./d.js", id := 2, tree := .program [], stem := "d" }]
    let live := ["./a.js", "./b.js", "./d.js"]
    let index : Index := { owners := [("A", "./a.js"), ("B", "./b.js"), ("D", "./d.js")] }
    (live.map Located.path).Nodup ∧ index.owners.names.Nodup ∧
      IsGreatest {files | (∀ path ∈ files, path ∈ live) ∧
        Closed (requiredNames scripts) index files} {"./d.js"} ∧
      (checkIntegrity (requiredNames scripts) live index).dropped =
        [("./b.js", "C"), ("./a.js", "B")] := by
  intro scripts live index
  have distinct : (live.map Located.path).Nodup := by decide
  have names_nodup : index.owners.names.Nodup := by decide
  have settled := checkIntegrity_isGreatest_closed (requiredNames scripts) distinct names_nodup
  have left : (checkIntegrity (requiredNames scripts) live index).live = ["./d.js"] := by decide
  refine ⟨distinct, names_nodup, ?_, by decide⟩
  simpa [left] using settled.2.1

end

/-! ## Files that are their paths -/

theorem nodup_paths {live : List String} (live_nodup : live.Nodup) :
    (live.map Located.path).Nodup := by
  rwa [show live.map Located.path = live from List.map_id live]

theorem checkIntegrity_accounts_dropped (requires : String → List String) {live : List String}
    (index : Index) (live_nodup : live.Nodup) :
    Survey.Accounts requires live index (checkIntegrity requires live index).dropped
      (checkIntegrity requires live index) := by
  obtain ⟨gone, accounts⟩ := checkIntegrity_accounts requires index (nodup_paths live_nodup)
  have dropped : (checkIntegrity requires live index).dropped = gone :=
    (congrArg Survey.dropped accounts.rest).trans (List.map_id gone)
  rwa [dropped]

end ScriptModules.Dependency
