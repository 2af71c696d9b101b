import ScriptModules.Dependency.Resolution
import ScriptModules.Proofs.Ledger
import ScriptModules.Proofs.Result

namespace ScriptModules.Dependency

/-- Some names by the files that own them. -/
structure Groups (index : Index) (names : List String) (files : Ledger (List String)) : Prop where
  distinct : files.names.Nodup
  owned : ∀ path group, (path, group) ∈ files → ∀ name ∈ group, index.owner? name = some path
  within : ∀ path group, (path, group) ∈ files → ∀ name ∈ group, name ∈ names
  covers : ∀ name ∈ names, ∃ path group, (path, group) ∈ files ∧ name ∈ group
  filled : ∀ path group, (path, group) ∈ files → group ≠ []

theorem mem_addRequired {files : Ledger (List String)} (distinct : files.names.Nodup)
    (path name other : String) (group : List String) :
    (other, group) ∈ addRequired files path name ↔
      if other = path then group = (files.get? path).getD [] ++ [name] else (other, group) ∈ files := by
  have distinct' : (addRequired files path name).names.Nodup :=
    Ledger.nodup_names_put distinct _ _
  have read : (addRequired files path name).get? other =
      if other = path then some ((files.get? path).getD [] ++ [name]) else files.get? other :=
    (Ledger.get?_put files path other _).trans (by simp [eq_comm])
  constructor
  · intro member
    have found := Ledger.get?_of_mem distinct' member
    rw [read] at found
    split at found
    · rw [if_pos ‹_›]
      exact (Option.some.inj found).symm
    · rw [if_neg ‹_›]
      exact Ledger.mem_of_get? found
  · intro holds
    refine Ledger.mem_of_get? ?_
    rw [read]
    split at holds
    · rw [if_pos ‹_›, holds]
    · rw [if_neg ‹_›]
      exact Ledger.get?_of_mem distinct holds

theorem Groups.add {index : Index} {names : List String} {files : Ledger (List String)}
    {path name : String} (groups : Groups index names files)
    (owner : index.owner? name = some path) :
    Groups index (names ++ [name]) (addRequired files path name) := by
  have inside {other : String} (member : other ∈ (files.get? path).getD []) :
      index.owner? other = some path ∧ other ∈ names := by
    cases found : files.get? path with
    | none => simp [found] at member
    | some group =>
        have entry := Ledger.mem_of_get? found
        rw [found] at member
        exact ⟨groups.owned path group entry other member, groups.within path group entry other member⟩
  refine ⟨Ledger.nodup_names_put groups.distinct _ _, ?_, ?_, ?_, ?_⟩
  · intro other group entry one member
    rw [mem_addRequired groups.distinct] at entry
    split at entry
    · rename_i same
      rw [same]
      rw [entry] at member
      rcases List.mem_append.mp member with old | new
      · exact (inside old).1
      · rw [List.mem_singleton.mp new]
        exact owner
    · exact groups.owned other group entry one member
  · intro other group entry one member
    rw [mem_addRequired groups.distinct] at entry
    split at entry
    · rw [entry] at member
      exact (List.mem_append.mp member).elim
        (fun old => List.mem_append_left _ (inside old).2) (List.mem_append_right _)
    · exact List.mem_append_left _ (groups.within other group entry one member)
  · intro one member
    by_cases new : one = name
    · refine ⟨path, (files.get? path).getD [] ++ [name], ?_, by simp [new]⟩
      rw [mem_addRequired groups.distinct, if_pos rfl]
    · obtain old | last := List.mem_append.mp member
      · obtain ⟨other, group, entry, inGroup⟩ := groups.covers one old
        by_cases same : other = path
        · subst same
          refine ⟨other, (files.get? other).getD [] ++ [name], ?_, ?_⟩
          · rw [mem_addRequired groups.distinct, if_pos rfl]
          · rw [Ledger.get?_of_mem groups.distinct entry]
            exact List.mem_append_left _ inGroup
        · refine ⟨other, group, ?_, inGroup⟩
          rw [mem_addRequired groups.distinct, if_neg same]
          exact entry
      · exact absurd (List.mem_singleton.mp last) new
  · intro other group entry
    rw [mem_addRequired groups.distinct] at entry
    split at entry
    · simp [entry]
    · exact groups.filled other group entry

theorem Groups.not_behind {index : Index} {names : List String} {files done todo : Ledger (List String)}
    {path name : String} {group : List String} (groups : Groups index names files)
    (parts : files = done ++ (path, group) :: todo) (member : name ∈ group) :
    name ∉ done.flatMap Prod.snd := by
  intro again
  obtain ⟨⟨path', group'⟩, behind, member'⟩ := List.mem_flatMap.mp again
  have owner := groups.owned path group (by simp [parts]) name member
  rw [groups.owned path' group' (by simp [parts, behind]) name member', Option.some.injEq] at owner
  have distinct := groups.distinct
  rw [parts, Ledger.names, List.map_append, List.map_cons] at distinct
  refine (List.nodup_append.mp distinct).2.2 path ?_ path List.mem_cons_self rfl
  exact owner ▸ List.mem_map_of_mem behind

theorem flatMap_addRequired (files : Ledger (List String)) (path name : String) :
    ((addRequired files path name).flatMap Prod.snd).Perm (files.flatMap Prod.snd ++ [name]) := by
  unfold addRequired
  induction files with
  | nil => simp [Ledger.put]
  | cons entry rest ih =>
      by_cases same : entry.1 = path
      · simp only [Ledger.put, if_pos same, Ledger.get?_cons, Option.getD_some, List.flatMap_cons,
          List.append_assoc]
        exact List.Perm.append_left _ List.perm_append_comm
      · simp only [Ledger.put, if_neg same, Ledger.get?_cons, List.flatMap_cons, List.append_assoc]
        exact List.Perm.append_left _ ih

theorem requiredFiles_perm {index : Index} {script : Script} {files : Ledger (List String)}
    (run : requiredFiles index script = .ok files) :
    (files.flatMap Prod.snd).Perm script.requires.names := by
  refine foldlM_invariant (fun done (files : Ledger (List String)) =>
    (files.flatMap Prod.snd).Perm done) ?_ run (.refl _)
  intro done name todo before after parts known run
  split at run
  · cases run
    exact (flatMap_addRequired before _ name).trans (known.append_right _)
  · cases run

theorem exists_requiredFiles {index : Index} {script : Script}
    (owned : ∀ name ∈ script.requires.names, ∃ path, index.owner? name = some path) :
    ∃ files, requiredFiles index script = .ok files := by
  unfold requiredFiles
  refine (foldlM_total (fun _ _ => True) ?_ trivial).imp fun files => And.left
  intro done name todo before parts _
  obtain ⟨path, owner⟩ := owned name (by simp [parts])
  simp [owner]

theorem requiredFiles_groups {index : Index} {script : Script} {files : Ledger (List String)}
    (run : requiredFiles index script = .ok files) :
    Groups index script.requires.names files := by
  refine foldlM_invariant (Groups index) ?_ run
    ⟨List.nodup_nil, by simp, by simp, by simp, by simp⟩
  intro done name todo before after parts groups run
  split at run
  · rename_i path owner
    cases run
    exact groups.add owner
  · cases run

end ScriptModules.Dependency
