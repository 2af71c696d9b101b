import ScriptModules.Proofs.Dependency.Reachability

/-!
# The search without its bound

`reaches` follows a search for a number of turns that is fixed beforehand. The search itself has no
such bound: it goes on turn after turn until it has an answer (`Answers`). It has one from every
corpus and every index, cycles and names without an owner included, since each turn takes a file off
the stack or looks at a file for the first time, which pays for what the turn puts on the stack
(`cost_lt_of_turn`). The bound of `reaches` exceeds what is to be paid, so both give the same answer
(`answers_iff`).

With that `reaches_iff_path` states what the search decides in terms of the scripts themselves: a
path of edges (`Edge`) of which there is at least one.
-/

namespace ScriptModules.Dependency

structure Search where
  seen : List String
  due : List String

def Search.turn (index : Index) (scripts : List Script) (target : String) (search : Search) :
    Bool ⊕ Search :=
  match search.due with
  | [] => .inl false
  | path :: due =>
    if search.seen.contains path then .inr { seen := search.seen, due }
    else
      match scriptAt? scripts path with
      | none => .inr { seen := path :: search.seen, due }
      | some script =>
        if (successors index script).contains target then .inl true
        else .inr { seen := path :: search.seen, due := (successors index script).reverse ++ due }

inductive Answers (index : Index) (scripts : List Script) (target : String) :
    Search → Bool → Prop
  | ends {search : Search} {answer : Bool}
      (turn : search.turn index scripts target = .inl answer) :
      Answers index scripts target search answer
  | goes {search next : Search} {answer : Bool}
      (turn : search.turn index scripts target = .inr next)
      (rest : Answers index scripts target next answer) :
      Answers index scripts target search answer

def Edge (index : Index) (scripts : List Script) (source target : Script) : Prop :=
  source ∈ scripts ∧ target ∈ scripts ∧
    ∃ name ∈ source.requires.names, index.owner? name = some target.path

variable {index : Index} {scripts : List Script} {target : String}

theorem Answers.unique {search : Search} {answer other : Bool}
    (answers : Answers index scripts target search answer)
    (others : Answers index scripts target search other) : answer = other := by
  induction answers with
  | ends turn =>
      cases others with
      | ends turn' => exact Sum.inl.inj (turn.symm.trans turn')
      | goes turn' _ => cases turn.symm.trans turn'
  | goes turn _ ih =>
      cases others with
      | ends turn' => cases turn.symm.trans turn'
      | goes turn' rest =>
          cases turn.symm.trans turn'
          exact ih rest

/-! ## Termination -/

/-- What a search may still have to look at: the files that are due and the edges of the files that
it did not look at. -/
def Search.cost (scripts : List Script) (search : Search) : Nat :=
  search.due.length + weight scripts search.seen

theorem cost_lt_of_turn {search next : Search}
    (turn : search.turn index scripts target = .inr next) :
    next.cost scripts < search.cost scripts := by
  obtain ⟨seen, due⟩ := search
  cases due with
  | nil => cases turn
  | cons path due =>
      simp only [Search.turn] at turn
      split at turn
      · cases turn
        simp only [Search.cost, List.length_cons]
        omega
      · rename_i unseen
        have unseen : path ∉ seen := by simpa using unseen
        split at turn
        · have less := weight_cons_le scripts seen path
          cases turn
          simp only [Search.cost, List.length_cons]
          omega
        · rename_i script found
          split at turn
          · cases turn
          · -- what the edges put on the stack was part of the cost as edges
            have short := length_successors_le index script
            have less := weight_cons unseen found
            cases turn
            simp only [Search.cost, List.length_cons, List.length_append, List.length_reverse]
            omega

theorem searchFrom_succ (steps : Nat) (search : Search) :
    searchFrom index scripts target (steps + 1) search.seen search.due =
      match search.turn index scripts target with
      | .inl answer => answer
      | .inr next => searchFrom index scripts target steps next.seen next.due := by
  obtain ⟨seen, due⟩ := search
  cases due with
  | nil => rfl
  | cons path due =>
      simp only [searchFrom, Search.turn]
      split
      · rfl
      · cases scriptAt? scripts path with
        | none => rfl
        | some script =>
            dsimp only
            split
            · rfl
            · rfl

theorem answers_searchFrom {steps : Nat} {search : Search}
    (enough : search.cost scripts < steps) :
    Answers index scripts target search
      (searchFrom index scripts target steps search.seen search.due) := by
  induction steps generalizing search with
  | zero => omega
  | succ steps ih =>
      rw [searchFrom_succ]
      cases turn : search.turn index scripts target with
      | inl answer => exact .ends turn
      | inr next =>
          have less := cost_lt_of_turn turn
          exact .goes turn (ih (by omega))

theorem answers_iff (index : Index) (scripts : List Script) (source target : String)
    (answer : Bool) :
    Answers index scripts target { seen := [], due := [source] } answer ↔
      answer = reaches index scripts source target := by
  have ended : Answers index scripts target { seen := [], due := [source] }
      (reaches index scripts source target) := by
    have enough : Search.cost scripts { seen := [], due := [source] } < searchSteps scripts := by
      rw [searchSteps_eq]
      simp only [Search.cost, List.length_singleton]
      omega
    exact answers_searchFrom enough
  constructor
  · intro answers
    exact answers.unique ended
  · rintro rfl
    exact ended

/-! ## Paths of scripts -/

theorem mem_successors {script : Script} {path : String} :
    path ∈ successors index script ↔
      ∃ name ∈ script.requires.names, index.owner? name = some path :=
  List.mem_filterMap

theorem Edge.requires (distinct : (scripts.map Script.path).Nodup) {source target : Script}
    (edge : Edge index scripts source target) :
    Requires index scripts source.path target.path := by
  obtain ⟨member, -, owned⟩ := edge
  exact ⟨source, scriptAt?_of_mem distinct member, mem_successors.mpr owned⟩

theorem edge_of_requires (distinct : (scripts.map Script.path).Nodup) {source target : Script}
    (member : source ∈ scripts) (member' : target ∈ scripts)
    (required : Requires index scripts source.path target.path) :
    Edge index scripts source target := by
  obtain ⟨script, found, next⟩ := required
  rw [scriptAt?_of_mem distinct member] at found
  cases found
  exact ⟨member, member', mem_successors.mp next⟩

theorem exists_script_of_requires {source : String}
    (path : Relation.TransGen (Requires index scripts) source target) :
    ∃ script ∈ scripts, script.path = source := by
  obtain ⟨_, ⟨script, found, -⟩, -⟩ := Relation.TransGen.head'_iff.mp path
  exact ⟨script, path_of_scriptAt? found⟩

theorem transGen_requires_iff (distinct : (scripts.map Script.path).Nodup)
    {source target : Script} (member : source ∈ scripts) (member' : target ∈ scripts) :
    Relation.TransGen (Requires index scripts) source.path target.path ↔
      Relation.TransGen (Edge index scripts) source target := by
  constructor
  · intro path
    generalize start : source.path = place at path
    induction path using Relation.TransGen.head_induction_on generalizing source with
    | single required =>
        subst start
        exact .single (edge_of_requires distinct member member' required)
    | head required rest ih =>
        subst start
        -- the next file has an edge of its own, so it is one of the scripts
        obtain ⟨next, there, rfl⟩ := exists_script_of_requires rest
        exact .head (edge_of_requires distinct member there required) (ih there rfl)
  · intro path
    exact path.lift Script.path fun _ _ edge => edge.requires distinct

/-- From a required file the search for a file always ends, with the answer `reaches` gives; and it
answers yes exactly if some path of at least one edge leads from the required file to the file. -/
theorem reaches_iff_path (distinct : (scripts.map Script.path).Nodup) {file required : Script}
    (file_mem : file ∈ scripts) (required_mem : required ∈ scripts) :
    (∀ answer, Answers index scripts file.path { seen := [], due := [required.path] } answer ↔
      answer = reaches index scripts required.path file.path) ∧
    (reaches index scripts required.path file.path = true ↔
      Relation.TransGen (Edge index scripts) required file) := by
  constructor
  · exact answers_iff index scripts required.path file.path
  · rw [reaches_iff]
    exact transGen_requires_iff distinct required_mem file_mem

/-- Two files that require each other and a third that is on a cycle of its own: the search from the
third passes over a name without an owner, comes back to the third and ends without success. -/
theorem reaches_iff_path_cycles :
    let a : Script :=
      { path := "./a.js", id := 0, tree := .program [], stem := "a", requires := [("B", [])] }
    let b : Script :=
      { path := "./b.js", id := 1, tree := .program [], stem := "b", requires := [("A", [])] }
    let c : Script :=
      { path := "./c.js", id := 2, tree := .program [], stem := "c"
        requires := [("Missing", []), ("C", [])] }
    let index : Index := { owners := [("A", "./a.js"), ("B", "./b.js"), ("C", "./c.js")] }
    Relation.TransGen (Edge index [a, b, c]) b a ∧
      Answers index [a, b, c] "./a.js" { seen := [], due := ["./c.js"] } false ∧
      ¬Relation.TransGen (Edge index [a, b, c]) c a := by
  intro a b c index
  have distinct : ([a, b, c].map Script.path).Nodup := by decide
  have onCycle := @reaches_iff_path index [a, b, c] distinct a b (by simp) (by simp)
  have offCycle := @reaches_iff_path index [a, b, c] distinct a c (by simp) (by simp)
  have never : reaches index [a, b, c] "./c.js" "./a.js" = false := by decide
  refine ⟨onCycle.2.mp (by decide), (offCycle.1 false).mpr never.symm, fun path => ?_⟩
  have found : reaches index [a, b, c] "./c.js" "./a.js" = true := offCycle.2.mpr path
  rw [never] at found
  cases found

end ScriptModules.Dependency
