import ScriptModules.Proofs.Path.Specifier

/-!
# Containment

A path in normal form leads to a place below the corpus root. Along its components a path stays
below the root unless one of them is a step up from the root (`climbs`), and from there on the
resolved components start with a step up (`foldl_step_climbs`). So the paths without a normal form
are the absolute ones and the ones that climb (`normalize?_eq_none_iff`), with the exception of
those that lead to the directory above the root and no further.
-/

namespace ScriptModules.Path

open Text

def climbs : Nat → List String → Bool
  | _, [] => false
  | depth, c :: cs =>
    if c = "" ∨ c = "." then climbs depth cs
    else if c = ".." then depth = 0 || climbs (depth - 1) cs
    else climbs (depth + 1) cs

theorem getLast?_foldl_step (components : List String) {walked : List String}
    (above : walked.getLast? = some "..") :
    (components.foldl (step false) walked).getLast? = some ".." := by
  induction components generalizing walked with
  | nil => exact above
  | cons c cs ih =>
      apply ih
      unfold step
      split
      · exact above
      · split
        · cases walked with
          | nil => cases above
          | cons last rest =>
              cases rest with
              | nil =>
                  obtain rfl : last = ".." := by simpa using above
                  rfl
              | cons next rest =>
                  rw [List.getLast?_cons_cons] at above
                  by_cases up : last = ".."
                  · simpa [up] using above
                  · simpa [up] using above
        · rw [List.getLast?_cons, above]
          rfl

theorem foldl_step_climbs (components : List String) {down : List String}
    (stay : ∀ c ∈ down, Stays c) :
    climbs down.length components = true ↔
      (components.foldl (step false) down).getLast? = some ".." := by
  induction components generalizing down with
  | nil =>
      have inside : down.getLast? ≠ some ".." := by
        intro last
        exact (stay _ (List.mem_of_getLast? last)).down rfl
      simpa [climbs] using inside
  | cons c cs ih =>
      rw [List.foldl_cons, climbs]
      by_cases none : c = "" ∨ c = "."
      · rw [if_pos none, show step false down c = down by simp [step, none]]
        exact ih stay
      · rw [if_neg none]
        by_cases up : c = ".."
        · subst up
          cases down with
          | nil =>
              -- Here the path leaves the root, and nothing behind it brings the path back.
              have above : (cs.foldl (step false) [".."]).getLast? = some ".." :=
                getLast?_foldl_step cs rfl
              simpa [step] using above
          | cons last down =>
              obtain ⟨first, stay⟩ := List.forall_mem_cons.mp stay
              rw [show step false (last :: down) ".." = down by simp [step, first.down]]
              exact ih stay
        · obtain ⟨nonempty, inner⟩ := not_or.mp none
          have stays : Stays c := ⟨nonempty, inner, up⟩
          rw [if_neg up, step_of_stays stays]
          exact ih (List.forall_mem_cons.mpr ⟨stays, stay⟩)

theorem normalize?_eq_none_iff (path : String) :
    normalize? path = none ↔
      isAbsolute (withSlashes path) = true ∨
        climbs 0 (splitAt '/' (withSlashes path)) = true ∧
          components (withSlashes path) ≠ [".."] := by
  unfold normalize?
  dsimp only
  by_cases absolute : isAbsolute (withSlashes path) = true
  · simp [absolute]
  · have along :
        components (withSlashes path) = collapse false (splitAt '/' (withSlashes path)) := by
      rw [components, eq_false_of_ne_true absolute]
    have climbing := foldl_step_climbs (splitAt '/' (withSlashes path)) (List.forall_mem_nil Stays)
    rw [List.length_nil] at climbing
    rw [if_neg absolute, or_iff_right absolute, climbing, ← List.head?_reverse, ← collapse, ← along]
    split
    · rename_i first rest parts
      simp [parts]
    · rename_i single
      refine iff_of_false (by simp) ?_
      rintro ⟨above, further⟩
      obtain ⟨rest, parts⟩ := List.head?_eq_some_iff.mp above
      cases rest with
      | nil => exact further parts
      | cons next rest => exact single next rest parts

theorem normalize?_normal {raw path : String} (normal : normalize? raw = some path) :
    normalize? path = some path := by
  obtain ⟨parts, resolved, rfl⟩ := normalize?_eq_some normal
  cases parts with
  | nil => decide
  | cons part parts =>
      rw [← ofComponents_eq (List.cons_ne_nil part parts)]
      exact normalize?_ofComponents resolved.clean (List.cons_ne_nil part parts) resolved
        (collapse_of_resolved resolved)

example : normalize? ".." = some "./.." := by decide

end ScriptModules.Path
