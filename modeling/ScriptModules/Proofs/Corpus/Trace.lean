import Mathlib.Tactic.WLOG
import Mathlib.Algebra.Order.Group.Nat
import ScriptModules.Corpus.Trace
import ScriptModules.Proofs.Result

namespace ScriptModules

namespace Event

def Plain (event : Event) : Prop :=
  (∀ name detail, event ≠ .phaseStart name detail) ∧ event ≠ .phaseEnd

end Event

namespace Trace

open Event

inductive Balanced : List Event → Prop
  | nil : Balanced []
  | plain {event : Event} {rest : List Event} : event.Plain → Balanced rest →
      Balanced (event :: rest)
  | phase {inner rest : List Event} (name detail : String) : Balanced inner → Balanced rest →
      Balanced (phaseStart name detail :: inner ++ phaseEnd :: rest)

/-- The phase that is started at the first place is ended at the second one. -/
def Matches (events : List Event) (start stop : Nat) : Prop :=
  ∃ before name detail inner after, Balanced inner ∧
    events = before ++ phaseStart name detail :: inner ++ phaseEnd :: after ∧
    before.length = start ∧ start + inner.length + 1 = stop

def Open (events : List Event) (start : Nat) : Prop :=
  (∃ name detail, events[start]? = some (phaseStart name detail)) ∧
    ∀ stop, ¬Matches events start stop

def Innermost (events : List Event) (start : Nat) : Prop :=
  Open events start ∧ ∀ other, Open events other → other ≤ start

/-- The events have these phases open: each is started behind the one that encloses it, and what
lies between is balanced. -/
inductive Stacked : List Event → List Nat → Prop
  | base {events : List Event} : Balanced events → Stacked events []
  | push {events inner : List Event} {phases : List Nat} (name detail : String) :
      Stacked events phases → Balanced inner →
      Stacked (events ++ phaseStart name detail :: inner) (events.length :: phases)

/-! ## Balanced events -/

theorem Balanced.append {first second : List Event} (one : Balanced first)
    (other : Balanced second) : Balanced (first ++ second) := by
  induction one with
  | nil => exact other
  | plain free _ ih => exact .plain free ih
  | phase name detail inside _ _ ih =>
      rw [List.append_assoc, List.cons_append]
      exact .phase name detail inside ih

theorem Balanced.single {event : Event} (free : event.Plain) : Balanced [event] :=
  .plain free .nil

theorem Balanced.enclosed {inner : List Event} (name detail : String) (inside : Balanced inner) :
    Balanced (phaseStart name detail :: inner ++ [phaseEnd]) :=
  .phase name detail inside .nil

def level : Nat → List Event → Option Nat
  | depth, [] => some depth
  | depth, phaseStart .. :: rest => level (depth + 1) rest
  | depth + 1, phaseEnd :: rest => level depth rest
  | 0, phaseEnd :: _ => none
  | depth, _ :: rest => level depth rest

theorem level_plain {event : Event} (free : event.Plain) (depth : Nat) (rest : List Event) :
    level depth (event :: rest) = level depth rest := by
  cases event with
  | phaseStart name detail => exact absurd rfl (free.1 name detail)
  | phaseEnd => exact absurd rfl free.2
  | _ => cases depth <;> rfl

theorem level_append (depth : Nat) (first second : List Event) :
    level depth (first ++ second) = (level depth first).bind fun reached => level reached second := by
  induction first generalizing depth with
  | nil => cases depth <;> rfl
  | cons event first ih => cases event <;> cases depth <;> simp [level, ih]

theorem Balanced.level_append {events : List Event} (balanced : Balanced events) (depth : Nat)
    (rest : List Event) : level depth (events ++ rest) = level depth rest := by
  induction balanced generalizing depth rest with
  | nil => rfl
  | plain free _ ih => rw [List.cons_append, level_plain free, ih]
  | @phase inner behind name detail _ _ inside later =>
      calc level depth (phaseStart name detail :: inner ++ phaseEnd :: behind ++ rest)
        _ = level (depth + 1) (inner ++ (phaseEnd :: (behind ++ rest))) := by simp [level]
        _ = level depth (behind ++ rest) := inside (depth + 1) _
        _ = level depth rest := later depth rest

theorem Balanced.level_eq {events : List Event} (balanced : Balanced events) (depth : Nat) :
    level depth events = some depth := by
  simpa [level] using balanced.level_append depth []

/-! ## Matching starts and ends -/

theorem Matches.lt_length {events : List Event} {start stop : Nat}
    (matched : Matches events start stop) : start < stop ∧ stop < events.length := by
  obtain ⟨before, name, detail, inner, after, -, rfl, rfl, rfl⟩ := matched
  simp only [List.length_append, List.length_cons]
  omega

theorem Matches.within {events : List Event} {start stop : Nat} (matched : Matches events start stop)
    (front back : List Event) :
    Matches (front ++ events ++ back) (front.length + start) (front.length + stop) := by
  obtain ⟨before, name, detail, inner, after, inside, rfl, rfl, rfl⟩ := matched
  exact ⟨front ++ before, name, detail, inner, after ++ back, inside, by simp, by simp, by omega⟩

theorem Matches.append {events : List Event} {start stop : Nat} (matched : Matches events start stop)
    (back : List Event) : Matches (events ++ back) start stop := by
  simpa using matched.within [] back

theorem Matches.unique {events : List Event} {first second stop : Nat}
    (one : Matches events first stop) (other : Matches events second stop) : first = second := by
  wlog order : first < second
  · rcases Nat.lt_trichotomy first second with early | same | late
    · exact this one other early
    · exact same
    · exact (this other one late).symm
  obtain ⟨before, name, detail, inner, after, inside, parts, rfl, rfl⟩ := one
  obtain ⟨before', name', detail', inner', after', inside', parts', rfl, stops⟩ := other
  have same : before ++ phaseStart name detail :: inner =
      before' ++ phaseStart name' detail' :: inner' := by
    refine (List.append_inj (parts.symm.trans parts') ?_).1
    simp only [List.length_append, List.length_cons]
    omega
  -- the second start lies inside the first phase, which would end at its level
  rcases List.append_eq_append_iff.mp same with ⟨middle, rfl, rest⟩ | ⟨middle, rfl, -⟩
  · cases middle with
    | nil => simp at order
    | cons event middle =>
        rw [List.cons_append] at rest
        obtain ⟨-, rfl⟩ := List.cons.inj rest
        have ground := inside.level_eq 0
        rw [level_append] at ground
        obtain ⟨depth, -, reached⟩ := Option.bind_eq_some_iff.mp ground
        rw [level, inside'.level_eq] at reached
        cases reached
  · simp at order

theorem Matches.iff_eq {events : List Event} {start stop : Nat}
    (matched : Matches events start stop) (other : Nat) :
    Matches events other stop ↔ other = start := by
  constructor
  · exact fun again => again.unique matched
  · rintro rfl
    exact matched

theorem Balanced.matched {events : List Event} (balanced : Balanced events) {start : Nat}
    {name detail : String} (here : events[start]? = some (phaseStart name detail)) :
    ∃ stop, Matches events start stop := by
  induction balanced generalizing start with
  | nil => simp at here
  | @plain event rest free _ ih =>
      cases start with
      | zero => exact absurd (Option.some.inj here) (free.1 name detail)
      | succ start =>
          obtain ⟨stop, matched⟩ := ih here
          refine ⟨stop + 1, ?_⟩
          simpa [Nat.add_comm] using matched.within [event] []
  | @phase inner rest name' detail' inside _ within later =>
      cases start with
      | zero => exact ⟨_, [], name', detail', inner, rest, inside, rfl, rfl, rfl⟩
      | succ start =>
          rw [List.cons_append, List.getElem?_cons_succ] at here
          -- the start lies in the phase, or behind its end
          rcases Nat.lt_or_ge start inner.length with early | late
          · rw [List.getElem?_append_left early] at here
            obtain ⟨stop, matched⟩ := within here
            refine ⟨stop + 1, ?_⟩
            simpa [Nat.add_comm] using
              matched.within [phaseStart name' detail'] (phaseEnd :: rest)
          · rw [List.getElem?_append_right late] at here
            obtain ⟨offset, rfl⟩ := Nat.exists_eq_add_of_le late
            cases offset with
            | zero => simp at here
            | succ offset =>
                have there : rest[offset]? = some (phaseStart name detail) := by simpa using here
                obtain ⟨stop, matched⟩ := later there
                have shifted := matched.within
                  (phaseStart name' detail' :: inner ++ [phaseEnd]) []
                have place : (phaseStart name' detail' :: inner ++ [phaseEnd]).length + offset =
                    inner.length + (offset + 1) + 1 := by
                  simp only [List.length_append, List.length_cons, List.length_nil]
                  omega
                rw [place] at shifted
                exact ⟨_, by simpa using shifted⟩

/-! ## The open phases -/

section

variable {events : List Event} {phases : List Nat}

theorem Stacked.append {word : List Event} (stacked : Stacked events phases)
    (balanced : Balanced word) : Stacked (events ++ word) phases := by
  cases stacked with
  | base whole => exact .base (whole.append balanced)
  | push name detail outer inside =>
      rw [List.append_assoc, List.cons_append]
      exact .push name detail outer (inside.append balanced)

theorem Stacked.start (stacked : Stacked events phases) (name detail : String) :
    Stacked (events ++ [phaseStart name detail]) (events.length :: phases) :=
  .push name detail stacked .nil

theorem Stacked.stop {phase : Nat} (stacked : Stacked events (phase :: phases)) :
    Stacked (events ++ [phaseEnd]) phases ∧
      Matches (events ++ [phaseEnd]) phase events.length := by
  cases stacked with
  | @push before inner _ name detail outer inside =>
      constructor
      · rw [List.append_assoc]
        exact outer.append (inside.enclosed name detail)
      · exact ⟨before, name, detail, inner, [], inside, rfl, rfl, by
          rw [List.length_append, List.length_cons, Nat.add_assoc]⟩

theorem Stacked.balanced (stacked : Stacked events phases) :
    ∃ rest, Balanced (events ++ rest) := by
  -- the phases are ended from the inside, each around what is balanced already
  suffices closed : ∀ word, Balanced word → ∃ rest, Balanced (events ++ word ++ rest) by
    simpa using closed [] .nil
  induction stacked with
  | base whole => exact fun word balanced => ⟨[], by simpa using whole.append balanced⟩
  | push name detail _ inside ih =>
      intro word balanced
      obtain ⟨rest, whole⟩ := ih _ ((inside.append balanced).enclosed name detail)
      exact ⟨phaseEnd :: rest, by simpa using whole⟩

theorem Stacked.lt_length (stacked : Stacked events phases) :
    ∀ phase ∈ phases, phase < events.length := by
  induction stacked with
  | base whole => simp
  | push name detail _ _ ih =>
      intro phase member
      rw [List.length_append, List.length_cons]
      rcases List.mem_cons.mp member with rfl | outer
      · omega
      · exact (ih phase outer).trans (by omega)

theorem Stacked.decreasing (stacked : Stacked events phases) :
    phases.Pairwise (fun inner outer => outer < inner) := by
  induction stacked with
  | base whole => exact List.Pairwise.nil
  | push name detail outer _ ih => exact List.pairwise_cons.mpr ⟨outer.lt_length, ih⟩

theorem Stacked.started (stacked : Stacked events phases) {phase : Nat} (member : phase ∈ phases) :
    ∃ before name detail rest depth, events = before ++ phaseStart name detail :: rest ∧
      before.length = phase ∧ level 0 rest = some depth := by
  induction stacked with
  | base whole => cases member
  | @push before inner phases name detail outer inside ih =>
      rcases List.mem_cons.mp member with rfl | member
      · exact ⟨before, name, detail, inner, 0, rfl, rfl, inside.level_eq 0⟩
      · obtain ⟨front, name', detail', rest, depth, rfl, rfl, reached⟩ := ih member
        refine ⟨front, name', detail', rest ++ phaseStart name detail :: inner, depth + 1, by simp,
          rfl, ?_⟩
        rw [level_append, reached]
        exact inside.level_eq (depth + 1)

/-- The start of an open phase has no end: behind it a phase would end that is not open there. -/
theorem Stacked.opened (stacked : Stacked events phases) {phase : Nat} (member : phase ∈ phases) :
    Open events phase := by
  obtain ⟨before, name, detail, rest, depth, rfl, rfl, reached⟩ := stacked.started member
  refine ⟨⟨name, detail, by simp⟩, ?_⟩
  rintro stop ⟨before', name', detail', inner, after, inside, parts, place, -⟩
  rw [List.append_assoc] at parts
  obtain ⟨-, same⟩ := List.append_inj parts place.symm
  rw [List.cons_append] at same
  obtain ⟨-, rfl⟩ := List.cons.inj same
  rw [inside.level_append] at reached
  cases reached

theorem Stacked.matched (stacked : Stacked events phases) {start : Nat} {name detail : String}
    (here : events[start]? = some (phaseStart name detail)) (closed : start ∉ phases) :
    ∃ stop, Matches events start stop := by
  induction stacked with
  | base whole => exact whole.matched here
  | @push before inner phases name' detail' outer inside ih =>
      obtain ⟨other, closed⟩ := not_or.mp (mt List.mem_cons.mpr closed)
      rcases Nat.lt_or_gt_of_ne other with early | late
      · rw [List.getElem?_append_left early] at here
        obtain ⟨stop, matched⟩ := ih here closed
        exact ⟨stop, matched.append _⟩
      · obtain ⟨offset, rfl⟩ := Nat.exists_eq_add_of_lt late
        rw [List.getElem?_append_right (by omega)] at here
        have there : inner[offset]? = some (phaseStart name detail) := by
          simpa [Nat.add_sub_cancel_left, Nat.add_assoc] using here
        obtain ⟨stop, matched⟩ := inside.matched there
        have shifted := matched.within (before ++ [phaseStart name' detail']) []
        rw [List.length_append, List.length_singleton, Nat.add_right_comm] at shifted
        exact ⟨_, by simpa using shifted⟩

theorem Stacked.mem_iff (stacked : Stacked events phases) (start : Nat) :
    start ∈ phases ↔ Open events start := by
  refine ⟨stacked.opened, ?_⟩
  rintro ⟨⟨name, detail, here⟩, unmatched⟩
  by_contra closed
  obtain ⟨stop, matched⟩ := stacked.matched here closed
  exact unmatched stop matched

theorem Stacked.innermost (stacked : Stacked events phases) (start : Nat) :
    phases.head? = some start ↔ Innermost events start := by
  have decreasing := stacked.decreasing
  simp only [Innermost, ← stacked.mem_iff]
  cases phases with
  | nil => simp
  | cons phase phases =>
      have least := (List.pairwise_cons.mp decreasing).1
      constructor
      · rintro ⟨⟩
        refine ⟨List.mem_cons_self, ?_⟩
        intro other member
        rcases List.mem_cons.mp member with rfl | outer
        · exact le_rfl
        · exact (least other outer).le
      · rintro ⟨member, last⟩
        rcases List.mem_cons.mp member with rfl | outer
        · rfl
        · exact absurd (last phase List.mem_cons_self) (Nat.not_le.mpr (least start outer))

end

/-! ## Runs -/

inductive Call
  | startPhase (name detail : String)
  | endPhase
  | exclusion (path reason : String)
  | redefinition (name path previous : String)
  | importing (path required : String) (names : List String) (deferred : Bool)
  | typeCheck (path type : String) (native : Bool)
deriving DecidableEq, Repr

def apply (trace : Trace) : Call → Trace
  | .startPhase name detail => trace.startPhase name detail
  | .endPhase => trace.endPhase
  | .exclusion path reason => trace.record (.excluded path reason)
  | .redefinition name path previous => trace.record (.redefined name path previous)
  | .importing path required names deferred => trace.record (.imported path required names deferred)
  | .typeCheck path type native => trace.record (.typeChecked path type native)

def run (calls : List Call) : Trace :=
  calls.foldl apply {}

def events (trace : Trace) : List Event :=
  trace.entries.map TraceEntry.event

/-- An end belongs to the phase that it ends, and any other event to the innermost phase that was
open before it. -/
def Attributed (events : List Event) (moment : Nat) (entry : TraceEntry) : Prop :=
  (entry.event = .phaseEnd → ∃ start, entry.parent = some start ∧
      ∀ other, Matches events other moment ↔ other = start) ∧
    (entry.event ≠ .phaseEnd →
      (∀ start, entry.parent = some start ↔ Innermost (events.take moment) start) ∧
      (entry.parent = none ↔ ∀ start, ¬Open (events.take moment) start))

def Bracketed (trace : Trace) : Prop :=
  Stacked trace.events trace.phases ∧
    ∀ moment entry, trace.entries[moment]? = some entry → Attributed trace.events moment entry

theorem Attributed.concat {events : List Event} {moment : Nat} {entry : TraceEntry}
    (attributed : Attributed events moment entry) (early : moment < events.length)
    (event : Event) : Attributed (events ++ [event]) moment entry := by
  rw [Attributed, List.take_append_of_le_length early.le]
  refine ⟨?_, attributed.2⟩
  intro final
  obtain ⟨start, parent, own⟩ := attributed.1 final
  exact ⟨start, parent, (((own start).mpr rfl).append [event]).iff_eq⟩

theorem Bracketed.concat {trace : Trace} (bracketed : Bracketed trace) {entry : TraceEntry}
    {phases : List Nat} (stacked : Stacked (trace.events ++ [entry.event]) phases)
    (attributed : Attributed (trace.events ++ [entry.event]) trace.events.length entry) :
    Bracketed { entries := trace.entries ++ [entry], phases } := by
  have longer : events { entries := trace.entries ++ [entry], phases } =
      trace.events ++ [entry.event] := List.map_append
  have same : trace.events.length = trace.entries.length := List.length_map _
  rw [Bracketed, longer]
  refine ⟨stacked, ?_⟩
  intro moment known here
  rcases Nat.lt_or_ge moment trace.entries.length with early | late
  · rw [List.getElem?_append_left early] at here
    exact (bracketed.2 moment known here).concat (same ▸ early) entry.event
  · rw [List.getElem?_append_right late] at here
    obtain ⟨bound, rfl⟩ := List.getElem?_eq_some_iff.mp here
    obtain rfl : moment = trace.events.length := by
      rw [List.length_singleton] at bound
      omega
    simpa using attributed

theorem Stacked.attributed {events : List Event} {phases : List Nat}
    (stacked : Stacked events phases) {event : Event} (inner : event ≠ .phaseEnd) :
    Attributed (events ++ [event]) events.length { event, parent := phases.head? } := by
  refine ⟨fun final => absurd final inner, fun _ => ?_⟩
  rw [List.take_left]
  refine ⟨stacked.innermost, ?_⟩
  rw [List.head?_eq_none_iff, List.eq_nil_iff_forall_not_mem]
  exact forall_congr' fun start => not_congr (stacked.mem_iff start)

theorem Bracketed.record {trace : Trace} (bracketed : Bracketed trace) {event : Event}
    (free : event.Plain) : Bracketed (trace.record event) :=
  bracketed.concat (bracketed.1.append (.single free)) (bracketed.1.attributed free.2)

theorem Bracketed.startPhase {trace : Trace} (bracketed : Bracketed trace)
    (name detail : String) : Bracketed (trace.startPhase name detail) := by
  have place : trace.entries.length = trace.events.length := (List.length_map _).symm
  rw [Trace.startPhase, place]
  exact bracketed.concat (bracketed.1.start name detail) (bracketed.1.attributed (by simp))

theorem Bracketed.endPhase {trace : Trace} (bracketed : Bracketed trace) :
    Bracketed trace.endPhase := by
  rw [Trace.endPhase]
  split
  · exact bracketed
  · rename_i phase phases opened
    have stacked := bracketed.1
    rw [opened] at stacked
    obtain ⟨closed, matched⟩ := stacked.stop
    refine bracketed.concat closed ⟨fun _ => ⟨phase, rfl, matched.iff_eq⟩, ?_⟩
    exact fun inner => absurd rfl inner

theorem Bracketed.apply {trace : Trace} (bracketed : Bracketed trace) (call : Call) :
    Bracketed (trace.apply call) := by
  cases call with
  | startPhase name detail => exact bracketed.startPhase name detail
  | endPhase => exact bracketed.endPhase
  | _ => exact bracketed.record ⟨by simp, by simp⟩

theorem bracketed_run (calls : List Call) : Bracketed (run calls) := by
  refine foldl_invariant (fun _ trace => Bracketed trace) ?_ ?_
  · intro _ call _ trace _ bracketed
    exact bracketed.apply call
  · exact ⟨.base .nil, by simp⟩

theorem entries_prefix_apply (trace : Trace) (call : Call) :
    trace.entries <+: (trace.apply call).entries := by
  cases call with
  | endPhase =>
      rw [apply, endPhase]
      split
      · exact List.prefix_rfl
      · exact List.prefix_append _ _
  | _ => exact List.prefix_append _ _

theorem entries_prefix_run (calls later : List Call) :
    (run calls).entries <+: (run (calls ++ later)).entries := by
  rw [run, run, List.foldl_append]
  refine foldl_invariant
    (fun _ (trace : Trace) => (calls.foldl apply {}).entries <+: trace.entries) ?_ List.prefix_rfl
  intro _ call _ trace _ kept
  exact kept.trans (entries_prefix_apply trace call)

/-- The phases of a trace nest. Whatever was called, the events are the front of balanced ones; an
end belongs to the start that it matches, any other event to the innermost phase that was open when
it was recorded, if there was one. Where no phase is open, ending a phase changes nothing, and no
call changes what is recorded already. -/
theorem run_bracketed (calls : List Call) :
    let trace := run calls
    (∃ rest, Balanced (trace.events ++ rest)) ∧
      (∀ moment entry, trace.entries[moment]? = some entry →
        Attributed trace.events moment entry) ∧
      ((∀ start, ¬Open trace.events start) → trace.endPhase = trace) ∧
      ∀ later, trace.entries <+: (run (calls ++ later)).entries := by
  obtain ⟨stacked, attributed⟩ := bracketed_run calls
  refine ⟨stacked.balanced, attributed, ?_, entries_prefix_run calls⟩
  intro none
  have closed : (run calls).phases = [] := by
    rw [List.eq_nil_iff_forall_not_mem]
    exact fun start => mt (stacked.mem_iff start).mp (none start)
  rw [endPhase, closed]

end Trace

end ScriptModules
