import Mathlib.Order.Bounds.Defs
import ScriptModules.Corpus.Script
import ScriptModules.Proofs.Module.EntryPoint
import ScriptModules.Proofs.Text.Fresh

namespace ScriptModules

namespace Text

/-- Underscores are put in front of a name until it is neither taken nor reserved. -/
inductive Settles (taken : List String) : String → String → Prop
  | free {name : String} (untaken : name ∉ taken) (unreserved : name ∉ reservedWords) :
      Settles taken name name
  | refused {name found : String} (used : name ∈ taken ∨ name ∈ reservedWords)
      (rest : Settles taken ("_" ++ name) found) : Settles taken name found

/-- A request for a name is answered: the search for a free name ends with the answer and with
nothing else, the answer is the name behind the least number of underscores that makes it free, and
the answer is what is taken in addition afterwards. -/
structure Reserves (taken : List String) (name answer : String) (after : List String) : Prop where
  settles : ∀ found, Settles taken name found ↔ found = answer
  least : ∃ count, answer = underscored count name ∧
    IsLeast {n | underscored n name ∉ taken ∧ underscored n name ∉ reservedWords} count
  mem_after : ∀ other, other ∈ after ↔ other ∈ taken ∨ other = answer

inductive ReservesAll : List String → List String → List String → List String → Prop
  | nil (taken : List String) : ReservesAll taken [] [] taken
  | cons {taken between after names answers : List String} {name answer : String}
      (first : Reserves taken name answer between)
      (rest : ReservesAll between names answers after) :
      ReservesAll taken (name :: names) (answer :: answers) after

variable {taken after names answers : List String} {name answer : String}

/-! ## One request -/

theorem settles_underscored {count : Nat}
    (free : underscored count name ∉ taken ∧ underscored count name ∉ reservedWords)
    (before : ∀ fewer < count,
      underscored fewer name ∈ taken ∨ underscored fewer name ∈ reservedWords) :
    Settles taken name (underscored count name) := by
  induction count generalizing name with
  | zero => exact .free free.1 free.2
  | succ count ih =>
      refine .refused (before 0 (by omega)) ?_
      rw [← underscored_succ] at free ⊢
      refine ih free fun fewer less => ?_
      rw [underscored_succ]
      exact before (fewer + 1) (by omega)

theorem Settles.unique {found other : String} (settles : Settles taken name found)
    (others : Settles taken name other) : other = found := by
  induction settles with
  | free untaken unreserved =>
      cases others with
      | free => rfl
      | refused used _ => exact absurd used (not_or.mpr ⟨untaken, unreserved⟩)
  | refused used _ ih =>
      cases others with
      | free untaken unreserved => exact absurd used (not_or.mpr ⟨untaken, unreserved⟩)
      | refused _ rest => exact ih rest

theorem isLeast_fresh (taken : List String) (name : String) :
    ∃ count, fresh taken name = underscored count name ∧
      IsLeast {n | underscored n name ∉ taken ∧ underscored n name ∉ reservedWords} count := by
  obtain ⟨count, result, free, before⟩ := fresh_eq taken name
  refine ⟨count, result, not_or.mp (mt List.mem_append.mpr free), fun other freeToo => ?_⟩
  by_contra fewer
  exact not_or.mpr freeToo (List.mem_append.mp (before other (Nat.lt_of_not_le fewer)))

theorem settles_iff (taken : List String) (name found : String) :
    Settles taken name found ↔ found = fresh taken name := by
  have ended : Settles taken name (fresh taken name) := by
    obtain ⟨count, result, free, before⟩ := fresh_eq taken name
    rw [result]
    exact settles_underscored (not_or.mp (mt List.mem_append.mpr free))
      fun fewer less => List.mem_append.mp (before fewer less)
  constructor
  · exact ended.unique
  · rintro rfl
    exact ended

theorem reserves_fresh (taken : List String) (name : String) :
    Reserves taken name (fresh taken name) (taken ++ [fresh taken name]) where
  settles := settles_iff taken name
  least := isLeast_fresh taken name
  mem_after := by simp

theorem Reserves.unused (reserves : Reserves taken name answer after) : Unused taken [answer] := by
  rw [(settles_iff taken name answer).mp ((reserves.settles answer).mpr rfl)]
  exact Unused.fresh taken name

/-! ## Several requests -/

theorem ReservesAll.unused (reserves : ReservesAll taken names answers after) :
    Unused taken answers := by
  induction reserves with
  | nil taken => exact .nil taken
  | @cons taken between _ _ _ _ answer first _ ih =>
      have grows : taken ++ [answer] ⊆ between := by
        intro other member
        exact (first.mem_after other).mpr (by simpa using member)
      exact first.unused.append (ih.of_subset grows)

end Text

/-! ## Scripts and entry points -/

namespace Script

def reserveAll (script : Script) : List String → List String × Script
  | [] => ([], script)
  | name :: names =>
    let (answer, between) := script.reserve name
    let (answers, last) := between.reserveAll names
    (answer :: answers, last)

theorem reservesAll_reserveAll (script : Script) (requests : List String) :
    Text.ReservesAll script.names requests (script.reserveAll requests).1
        (script.reserveAll requests).2.names ∧
      (script.reserveAll requests).2 =
        { script with names := (script.reserveAll requests).2.names } := by
  induction requests generalizing script with
  | nil => exact ⟨.nil _, rfl⟩
  | cons name names ih =>
      obtain ⟨rest, same⟩ := ih (script.reserve name).2
      exact ⟨.cons (Text.reserves_fresh script.names name) rest, same⟩

end Script

namespace EntryPoint

theorem exists_ends_reserveAliases (before : EntryPoint) (requests : List String) :
    ∃ answers after, Ends (requests.mapM reserveAlias) before answers after ∧
      Text.ReservesAll before.aliases requests answers after.aliases ∧
      after = { before with aliases := after.aliases } := by
  induction requests generalizing before with
  | nil => exact ⟨[], before, rfl, .nil _, rfl⟩
  | cons name names ih =>
      obtain ⟨answers, after, ends, rest, same⟩ :=
        ih { before with aliases := before.aliases ++ [Text.fresh before.aliases name] }
      refine ⟨Text.fresh before.aliases name :: answers, after, ?_,
        .cons (Text.reserves_fresh before.aliases name) rest, same⟩
      exact (Ends.mapM_cons_iff _ _ _ _ _ _).mpr
        ⟨_, _, answers, ends_reserveAlias.mpr ⟨rfl, rfl⟩, ends, rfl⟩

end EntryPoint

/-- Whatever names are taken, every request that is made of a script or of an entry point is
answered, by the name behind the least number of underscores that makes it neither taken nor
reserved at that moment. This name is then taken too, and nothing else changes. So the answers to a
sequence of requests differ from each other and from the names that were taken first. -/
theorem requests_answered (script : Script) (entry : EntryPoint) (requests : List String) :
    (∃ answers last, script.reserveAll requests = (answers, last) ∧
      Text.ReservesAll script.names requests answers last.names ∧
      Text.Unused script.names answers ∧ last = { script with names := last.names }) ∧
    ∃ answers last, Ends (requests.mapM EntryPoint.reserveAlias) entry answers last ∧
      Text.ReservesAll entry.aliases requests answers last.aliases ∧
      Text.Unused entry.aliases answers ∧ last = { entry with aliases := last.aliases } := by
  constructor
  · obtain ⟨reserves, same⟩ := script.reservesAll_reserveAll requests
    exact ⟨_, _, rfl, reserves, reserves.unused, same⟩
  · obtain ⟨answers, last, ends, reserves, same⟩ := entry.exists_ends_reserveAliases requests
    exact ⟨answers, last, ends, reserves, reserves.unused, same⟩

-- a request may itself start with underscores, and the answers to earlier ones stay taken
example :
    let script : Script :=
      { path := "./a.js", id := 0, tree := .program [], stem := "a"
        names := ["instance", "_instance"] }
    (script.reserveAll ["instance", "_instance", "require", "fresh"]).1 =
      ["__instance", "___instance", "_require", "fresh"] := by decide

end ScriptModules
