import Mathlib.Algebra.GroupWithZero.Nat
import Mathlib.Logic.Relation
import ScriptModules.Dependency.Resolution

namespace ScriptModules.Dependency

def Requires (index : Index) (scripts : List Script) (source target : String) : Prop :=
  ∃ script, scriptAt? scripts source = some script ∧ target ∈ successors index script

theorem path_of_scriptAt? {scripts : List Script} {path : String} {script : Script}
    (found : scriptAt? scripts path = some script) : script ∈ scripts ∧ script.path = path :=
  ⟨List.mem_of_find?_eq_some found, by simpa using List.find?_some found⟩

theorem scriptAt?_of_mem {scripts : List Script} (distinct : (scripts.map Script.path).Nodup)
    {script : Script} (member : script ∈ scripts) :
    scriptAt? scripts script.path = some script := by
  induction scripts with
  | nil => cases member
  | cons first rest ih =>
      obtain ⟨fresh, distinct⟩ := List.nodup_cons.mp distinct
      rcases List.mem_cons.mp member with rfl | later
      · simp [scriptAt?]
      · have other : first.path ≠ script.path :=
          fun same => fresh (same ▸ List.mem_map_of_mem later)
        simpa [scriptAt?, other] using ih distinct later

variable {index : Index} {scripts : List Script} {target : String}

theorem length_successors_le (index : Index) (script : Script) :
    (successors index script).length ≤ script.requires.length := by
  have names : script.requires.names.length = script.requires.length := List.length_map _
  rw [← names]
  exact List.length_filterMap_le _ _

def weight (scripts : List Script) (seen : List String) : Nat :=
  ((scripts.filter fun script => !seen.contains script.path).map fun script =>
    script.requires.length).sum

theorem weight_cons_eq (first : Script) (rest : List Script) (seen : List String) :
    weight (first :: rest) seen =
      (if first.path ∈ seen then 0 else first.requires.length) + weight rest seen := by
  by_cases old : first.path ∈ seen <;> simp [weight, old]

theorem weight_cons_le (scripts : List Script) (seen : List String) (path : String) :
    weight scripts (path :: seen) ≤ weight scripts seen := by
  induction scripts with
  | nil => exact Nat.le_refl 0
  | cons first rest ih =>
      rw [weight_cons_eq, weight_cons_eq]
      refine Nat.add_le_add ?_ ih
      by_cases old : first.path ∈ seen
      · rw [if_pos (List.mem_cons_of_mem _ old)]
        exact Nat.zero_le _
      · rw [if_neg old]
        split
        · exact Nat.zero_le _
        · exact Nat.le_refl _

theorem weight_cons {scripts : List Script} {seen : List String} {path : String} {script : Script}
    (unseen : path ∉ seen) (found : scriptAt? scripts path = some script) :
    weight scripts (path :: seen) + script.requires.length ≤ weight scripts seen := by
  induction scripts with
  | nil => cases found
  | cons first rest ih =>
      rw [weight_cons_eq, weight_cons_eq]
      by_cases same : first.path = path
      · have less := weight_cons_le rest seen path
        obtain rfl : first = script := by simpa [scriptAt?, same] using found
        rw [if_pos (by simp [same]), if_neg (by rwa [same])]
        omega
      · have less := ih (by simpa [scriptAt?, same] using found)
        have old : first.path ∈ path :: seen ↔ first.path ∈ seen := by simp [same]
        simp only [old]
        omega

theorem reaches_of_searchFrom {steps : Nat} {seen due : List String}
    (success : searchFrom index scripts target steps seen due = true) :
    ∃ path ∈ due, Relation.TransGen (Requires index scripts) path target := by
  induction steps generalizing seen due with
  | zero => cases success
  | succ steps ih =>
      cases due with
      | nil => cases success
      | cons path due =>
          have skip {rest : List String}
              (success : searchFrom index scripts target steps rest due = true) :
              ∃ other ∈ path :: due, Relation.TransGen (Requires index scripts) other target := by
            obtain ⟨other, member, reached⟩ := ih success
            exact ⟨other, List.mem_cons_of_mem _ member, reached⟩
          rw [searchFrom] at success
          split at success
          · exact skip success
          · split at success
            · exact skip success
            · rename_i script found
              dsimp only at success
              split at success
              · rename_i last
                refine ⟨path, List.mem_cons_self, .single ⟨script, found, ?_⟩⟩
                simpa using last
              · obtain ⟨other, member, reached⟩ := ih success
                rcases List.mem_append.mp member with next | member
                · refine ⟨path, List.mem_cons_self, .head ⟨script, found, ?_⟩ reached⟩
                  simpa using next
                · exact ⟨other, List.mem_cons_of_mem _ member, reached⟩

def Searched (index : Index) (scripts : List Script) (target : String) (seen due : List String) :
    Prop :=
  ∀ path ∈ seen, ∀ next, Requires index scripts path next →
    next ≠ target ∧ (next ∈ seen ∨ next ∈ due)

theorem Searched.skip {path : String} {seen due : List String}
    (searched : Searched index scripts target seen (path :: due)) (old : path ∈ seen) :
    Searched index scripts target seen due := by
  intro other member next edge
  obtain ⟨distinct, kept⟩ := searched other member next edge
  refine ⟨distinct, kept.elim .inl fun kept => ?_⟩
  rcases List.mem_cons.mp kept with rfl | kept
  · exact .inl old
  · exact .inr kept

theorem Searched.look {path : String} {seen due more : List String}
    (searched : Searched index scripts target seen (path :: due))
    (edges : ∀ next, Requires index scripts path next → next ≠ target ∧ next ∈ more) :
    Searched index scripts target (path :: seen) (more ++ due) := by
  intro other member next edge
  rcases List.mem_cons.mp member with rfl | member
  · obtain ⟨distinct, added⟩ := edges next edge
    exact ⟨distinct, .inr (List.mem_append_left _ added)⟩
  · obtain ⟨distinct, kept⟩ := searched other member next edge
    refine ⟨distinct, ?_⟩
    rcases kept with kept | kept
    · exact .inl (List.mem_cons_of_mem _ kept)
    · rcases List.mem_cons.mp kept with rfl | kept
      · exact .inl List.mem_cons_self
      · exact .inr (List.mem_append_right _ kept)

theorem searched_of_searchFrom {steps : Nat} {seen due : List String}
    (failure : searchFrom index scripts target steps seen due = false)
    (enough : due.length + weight scripts seen ≤ steps)
    (searched : Searched index scripts target seen due) :
    ∃ all, seen ⊆ all ∧ due ⊆ all ∧ Searched index scripts target all [] := by
  induction steps generalizing seen due with
  | zero =>
      obtain rfl : due = [] := List.length_eq_zero_iff.mp (by omega)
      exact ⟨seen, List.Subset.refl _, List.nil_subset _, searched⟩
  | succ steps ih =>
      cases due with
      | nil => exact ⟨seen, List.Subset.refl _, List.nil_subset _, searched⟩
      | cons path due =>
          -- a file is looked at: what it requires is due now, which its edges pay for
          have looked (more : List String)
              (failure : searchFrom index scripts target steps (path :: seen) (more ++ due) = false)
              (paid : more.length + weight scripts (path :: seen) ≤ weight scripts seen)
              (edges : ∀ next, Requires index scripts path next → next ≠ target ∧ next ∈ more) :
              ∃ all, seen ⊆ all ∧ path :: due ⊆ all ∧ Searched index scripts target all [] := by
            rw [List.length_cons] at enough
            obtain ⟨all, before, later, closed⟩ :=
              ih failure (by rw [List.length_append]; omega) (searched.look edges)
            obtain ⟨here, before⟩ := List.cons_subset.mp before
            obtain ⟨-, later⟩ := List.append_subset.mp later
            exact ⟨all, before, List.cons_subset.mpr ⟨here, later⟩, closed⟩
          rw [searchFrom] at failure
          split at failure
          · rename_i old
            have old : path ∈ seen := by simpa using old
            rw [List.length_cons] at enough
            obtain ⟨all, before, later, closed⟩ := ih failure (by omega) (searched.skip old)
            exact ⟨all, before, List.cons_subset.mpr ⟨before old, later⟩, closed⟩
          · rename_i unseen
            have unseen : path ∉ seen := by simpa using unseen
            split at failure
            · rename_i absent
              refine looked [] failure (by simpa using weight_cons_le scripts seen path) ?_
              rintro next ⟨script, found, -⟩
              rw [absent] at found
              cases found
            · rename_i script found
              dsimp only at failure
              split at failure
              · cases failure
              · rename_i other
                refine looked _ failure ?_ ?_
                · have less := weight_cons unseen found
                  have short := length_successors_le index script
                  rw [List.length_reverse]
                  omega
                · rintro next ⟨script', found', member⟩
                  rw [found] at found'
                  cases found'
                  refine ⟨?_, List.mem_reverse.mpr member⟩
                  rintro rfl
                  exact other (by simpa using member)

theorem Searched.not_reaches {all : List String} (closed : Searched index scripts target all [])
    {path : String} (member : path ∈ all) :
    ¬Relation.TransGen (Requires index scripts) path target := by
  intro reached
  induction reached using Relation.TransGen.head_induction_on with
  | single edge => exact (closed _ member _ edge).1 rfl
  | head edge _ ih =>
      rcases (closed _ member _ edge).2 with next | impossible
      · exact ih next
      · cases impossible

theorem searchSteps_eq (scripts : List Script) : searchSteps scripts = 2 + weight scripts [] := by
  have added (steps : Nat) : scripts.foldl (fun steps script => steps + script.requires.length)
      steps = steps + weight scripts [] := by
    induction scripts generalizing steps with
    | nil => rfl
    | cons first rest ih =>
        have weigh : weight (first :: rest) [] = first.requires.length + weight rest [] := by
          simp [weight]
        rw [List.foldl_cons, ih, weigh, Nat.add_assoc]
  exact added 2

theorem reaches_iff (index : Index) (scripts : List Script) (source target : String) :
    reaches index scripts source target = true ↔
      Relation.TransGen (Requires index scripts) source target := by
  constructor
  · intro success
    obtain ⟨path, member, reached⟩ := reaches_of_searchFrom success
    rw [List.mem_singleton.mp member] at reached
    exact reached
  · intro reached
    refine Decidable.byContradiction fun failure => ?_
    obtain ⟨all, -, due, closed⟩ := searched_of_searchFrom (eq_false_of_ne_true failure)
      (by rw [searchSteps_eq, List.length_singleton]; omega)
      (fun _ member => by cases member)
    exact closed.not_reaches (due List.mem_cons_self) reached

end ScriptModules.Dependency
