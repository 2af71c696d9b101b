import ScriptModules.Path.FileTree
import ScriptModules.Proofs.Path.Specifier

namespace ScriptModules

theorem FilePath.parse_of_resolved {parts : List String} (resolved : Path.Resolved parts) :
    parse ("./" ++ Text.joinWith '/' parts) = { parts } := by
  cases parts with
  | nil => decide
  | cons part parts =>
      rw [← Path.ofComponents_eq (List.cons_ne_nil part parts)]
      have anchor : anchorOf (Path.ofComponents (part :: parts)) = "" := by
        rw [Path.ofComponents_eq (List.cons_ne_nil part parts)]
        simp [anchorOf]
      have kept : ∀ c ∈ part :: parts, (c != "" && c != ".") = true := by
        rcases resolved with stay | up
        · intro c member
          simp [(stay c member).1.nonempty, (stay c member).1.inner]
        · rw [up]
          decide
      rw [parse, anchor, keptParts, Path.splitAt_ofComponents resolved.clean,
        List.filter_cons_of_neg (by decide), List.filter_eq_self.mpr kept]

namespace FileTree

variable {before between after tree : FileTree} {path : FilePath} {content : ByteArray}
  {paths more : List FilePath}

theorem entry?_put_self (tree : FileTree) {location : Location} (inner : location ≠ [])
    (entry : Entry) : entry? (tree.put location entry) location = some entry := by
  have none : (tree.entries.filter fun old => old.1 != location).find?
      (fun old => old.1 == location) = none := by
    apply List.find?_eq_none.mpr
    intro old member
    simpa using (List.mem_filter.mp member).2
  unfold entry? put
  rw [if_neg inner, List.find?_append, none]
  simp

theorem entry?_put_of_ne (tree : FileTree) {location other : Location} (distinct : other ≠ location)
    (entry : Entry) : entry? (tree.put location entry) other = tree.entry? other := by
  unfold entry? put
  split
  · rfl
  · have same : (tree.entries.filter fun old => old.1 != location).find?
        (fun old => old.1 == other) = tree.entries.find? (fun old => old.1 == other) := by
      rw [List.find?_filter]
      congr 1
      funext old
      by_cases here : old.1 = other <;> simp [here, distinct]
    rw [List.find?_append, same]
    simp [Ne.symm distinct]

structure Grows (before after : FileTree) : Prop where
  start : after.workingDirectory = before.workingDirectory
  directory : ∀ location, before.entry? location = some .directory →
    after.entry? location = some .directory

theorem Grows.foldlM_stepTo (grows : Grows before after) (parts : List String)
    {start location : Location} (led : parts.foldlM before.stepTo start = some location) :
    parts.foldlM after.stepTo start = some location := by
  induction parts generalizing start with
  | nil => exact led
  | cons part parts ih =>
      obtain ⟨next, step, led⟩ := Option.bind_eq_some_iff.mp led
      apply Option.bind_eq_some_iff.mpr
      refine ⟨next, ?_, ih led⟩
      unfold stepTo at step ⊢
      split
      · rename_i up
        rw [if_pos up] at step
        split at step
        · rename_i known
          have stays : after.isDirectoryAt start = true := by
            unfold isDirectoryAt at known ⊢
            split at known
            · rename_i here
              rw [grows.directory _ here]
            · cases known
          rwa [if_pos stays]
        · cases step
      · rename_i down
        rwa [if_neg down] at step

theorem Grows.locate (grows : Grows before after) {location : Location}
    (led : before.locate path = some location) : after.locate path = some location := by
  unfold FileTree.locate at led ⊢
  have same : after.startOf path = before.startOf path := by
    rw [startOf, startOf, grows.start]
  rw [same]
  exact grows.foldlM_stepTo _ led

/-- Directories and files stay, but for the files at the places that some paths lead to afterwards. -/
structure Touches (paths : List FilePath) (before after : FileTree) : Prop
    extends Grows before after where
  file : ∀ location content, before.entry? location = some (.file content) →
    after.entry? location = some (.file content) ∨ ∃ path ∈ paths, after.locate path = some location

namespace Touches

theorem refl (tree : FileTree) : Touches [] tree tree where
  start := rfl
  directory := fun _ known => known
  file := fun _ _ known => .inl known

theorem trans (touches : Touches paths before between) (touches' : Touches more between after) :
    Touches (paths ++ more) before after where
  start := touches'.start.trans touches.start
  directory := fun location known => touches'.directory _ (touches.directory _ known)
  file := by
    intro location content known
    rcases touches.file location content known with stays | ⟨path, member, led⟩
    · rcases touches'.file location content stays with stays | ⟨path, member, led⟩
      · exact .inl stays
      · exact .inr ⟨path, List.mem_append_right _ member, led⟩
    · exact .inr ⟨path, List.mem_append_left _ member, touches'.locate led⟩

theorem mono (touches : Touches paths before after) (within : paths ⊆ more) :
    Touches more before after where
  start := touches.start
  directory := touches.directory
  file := fun location content known => (touches.file location content known).imp id
    fun ⟨path, member, led⟩ => ⟨path, within member, led⟩

theorem lookUp (touches : Touches paths before after)
    (written : before.lookUp path = some (.file content)) :
    after.lookUp path = some (.file content) ∨
      ∃ other ∈ paths, after.locate other = after.locate path := by
  obtain ⟨location, led, here⟩ := Option.bind_eq_some_iff.mp written
  have leads := touches.locate led
  rcases touches.file location content here with stays | ⟨other, member, same⟩
  · apply Or.inl
    rw [FileTree.lookUp, leads]
    exact stays
  · exact .inr ⟨other, member, same.trans leads.symm⟩

end Touches

theorem makeDirectoriesFrom_touches {names : List String} {location : Location}
    (made : before.makeDirectoriesFrom location names = .ok after) : Touches [] before after := by
  induction names generalizing before location with
  | nil =>
      cases made
      exact .refl _
  | cons name names ih =>
      rw [makeDirectoriesFrom] at made
      split at made
      · exact ih made
      · dsimp only at made
        split at made
        · exact ih made
        · cases made
        · rename_i absent
          have inner : location ++ [name] ≠ [] := by simp
          have fresh {other : Location} {entry : Entry} (known : before.entry? other = some entry) :
              entry? (before.put (location ++ [name]) .directory) other = some entry := by
            rw [entry?_put_of_ne _ ?_ _, known]
            rintro rfl
            rw [absent] at known
            cases known
          have opened : Touches [] before (before.put (location ++ [name]) .directory) :=
            ⟨⟨rfl, fun _ known => fresh known⟩, fun _ _ known => .inl (fresh known)⟩
          exact opened.trans (ih made)

theorem makeDirectories_touches (made : before.makeDirectories path = .ok after) :
    Touches [] before after :=
  makeDirectoriesFrom_touches made

theorem writeFile_touches (written : before.writeFile path content = .ok after) :
    Touches [path] before after ∧ after.lookUp path = some (.file content) := by
  unfold writeFile at written
  split at written
  · cases written
  · rename_i location led
    split at written
    · cases written
    · rename_i free
      split at written
      · cases written
        have inner : location ≠ [] := by
          rintro rfl
          exact free rfl
        have grows : Grows before (before.put location (.file content)) := by
          refine ⟨rfl, fun other known => ?_⟩
          rw [entry?_put_of_ne _ ?_ _, known]
          rintro rfl
          exact free known
        have leads := grows.locate led
        constructor
        · refine ⟨grows, fun other old known => ?_⟩
          by_cases here : other = location
          · exact .inr ⟨path, List.mem_singleton_self path, here ▸ leads⟩
          · apply Or.inl
            rwa [entry?_put_of_ne _ here]
        · rw [lookUp, leads]
          exact entry?_put_self _ inner _
      · cases written
      · cases written

/-! ## Places below a directory -/

theorem foldlM_stepTo_of_stays {parts : List String} (stay : ∀ c ∈ parts, Path.Stays c)
    (location : Location) : parts.foldlM tree.stepTo location = some (location ++ parts) := by
  induction parts generalizing location with
  | nil => rw [List.append_nil]; rfl
  | cons part parts ih =>
      obtain ⟨first, stay⟩ := List.forall_mem_cons.mp stay
      rw [List.foldlM_cons, stepTo, if_neg first.down]
      refine (ih stay _).trans ?_
      rw [List.append_assoc]
      rfl

theorem locate_join_injective {base : FilePath} {parts parts' : List String}
    (resolved : Path.Resolved parts) (resolved' : Path.Resolved parts')
    {location : Location} (inner : location ≠ [])
    (led : tree.locate (base.join { parts }) = some location)
    (led' : tree.locate (base.join { parts := parts' }) = some location) : parts = parts' := by
  simp only [locate, FilePath.join, if_true, List.foldlM_append] at led led'
  obtain ⟨start, first, led⟩ := Option.bind_eq_some_iff.mp led
  obtain ⟨start', first', led'⟩ := Option.bind_eq_some_iff.mp led'
  cases first.symm.trans first'
  have up {location : Location} (led : [".."].foldlM tree.stepTo start = some location) :
      location = start.dropLast := by
    obtain ⟨next, step, led⟩ := Option.bind_eq_some_iff.mp led
    rw [stepTo, if_pos rfl] at step
    split at step
    · cases step
      cases led
      rfl
    · cases step
  -- a place above the directory has fewer names than one below, or both are the root
  have apart {parts : List String} (same : start ++ parts = start.dropLast) : start ++ parts = [] := by
    have lengths := congrArg List.length same
    rw [List.length_append, List.length_dropLast] at lengths
    have none : start = [] := List.eq_nil_of_length_eq_zero (by omega)
    rw [same, none]
    rfl
  rcases resolved with stay | rfl
  · have stay := fun c member => (stay c member).1
    rw [foldlM_stepTo_of_stays stay] at led
    cases led
    rcases resolved' with stay' | rfl
    · have stay' := fun c member => (stay' c member).1
      rw [foldlM_stepTo_of_stays stay'] at led'
      exact (List.append_cancel_left (Option.some.inj led')).symm
    · exact absurd (apart (up led')) inner
  · rcases resolved' with stay' | rfl
    · have stay' := fun c member => (stay' c member).1
      rw [foldlM_stepTo_of_stays stay'] at led'
      cases led'
      exact absurd (apart (up led)) inner
    · rfl

end FileTree

end ScriptModules
