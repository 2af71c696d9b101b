import ScriptModules.Proofs.Analysis.Access
import ScriptModules.Proofs.Tree.Exchange

namespace ScriptModules

open ScriptModules.Tree

/-! ## Type checks -/

namespace TypeCheck

variable {settings : Settings} {tree now : Node} {calls : List Position}

/-- Where the pass puts what replaces a check: at each check that is replaced, the last one first. -/
def exchanged (settings : Settings) (tree : Node) : List Position :=
  ((tree.walk.filter fun visit => (ofNode? settings visit.node).isSome).map Visit.position).reverse

theorem steady_exchanged (settings : Settings) (tree : Node) : Steady (exchanged settings tree) := by
  rw [Steady, exchanged, List.pairwise_reverse, List.pairwise_map]
  exact tree.steady_walk.sublist List.filter_sublist

theorem exchanged_eq (settings : Settings) (tree : Node) : exchanged settings tree =
    ((candidates tree).reverse.filter fun visit => (ofNode? settings visit.node).isSome).map
      Visit.position := by
  rw [List.filter_reverse, List.map_reverse, exchanged, candidates, List.filter_filter]
  congr 2
  refine List.filter_congr fun visit _ => ?_
  cases found : ofNode? settings visit.node with
  | none => rfl
  | some check =>
      obtain ⟨-, -, form, -⟩ := ofNode?_eq_some found
      simp [form]

/-! ### What stays below an exchange -/

theorem name?_modifyAt {node old value : Node} {p : Position} (here : node.at? p = some old)
    (check : old.form = .binary "instanceof") (grouped : value.form = .group) :
    (node.modifyAt (fun _ => value) p).form.name? = node.form.name? := by
  cases p with
  | nil =>
      rw [Node.at?_nil, Option.some.injEq] at here
      rw [Node.modifyAt_nil, grouped, here, check]
      rfl
  | cons index rest => rw [Node.form_modifyAt_cons]

theorem map_children_modifyAt {α : Type} {f : Node → α} {node : Node} {index : Nat}
    {rest : Position} {change : Node → Node}
    (same : ∀ child, node.children[index]? = some child → f (child.modifyAt change rest) = f child) :
    (node.modifyAt change (index :: rest)).children.map f = node.children.map f := by
  obtain ⟨form, comments, children⟩ := node
  rw [Node.modifyAt, Node.children_mk, Node.children_mk]
  apply List.ext_getElem?
  intro i
  rw [List.getElem?_map, List.getElem?_map]
  by_cases own : i = index
  · subst own
    rw [List.getElem?_modify_eq]
    cases place : children[i]? with
    | none => rfl
    | some child => exact congrArg some (same child place)
  · rw [List.getElem?_modify_ne _ _ (Ne.symm own)]

theorem ofRight?_modifyAt {right old value : Node} {p : Position} (here : right.at? p = some old)
    (check : old.form = .binary "instanceof") (grouped : value.form = .group) :
    ofRight? settings (right.modifyAt (fun _ => value) p) = ofRight? settings right := by
  cases p with
  | nil =>
      rw [Node.at?_nil, Option.some.injEq] at here
      rw [Node.modifyAt_nil, ofRight?, grouped, ofRight?, here, check]
  | cons index rest =>
      refine ofRight?_congr (Node.form_modifyAt_cons _ _ _ _)
        (map_children_modifyAt fun child place => name?_modifyAt ?_ check grouped)
      rwa [Node.at?_cons, place] at here

/-- A check stays the same check when another one below it is replaced. -/
theorem ofNode?_modifyAt {node old value : Node} {index : Nat} {rest : Position}
    (here : node.at? (index :: rest) = some old) (check : old.form = .binary "instanceof")
    (grouped : value.form = .group) :
    ofNode? settings (node.modifyAt (fun _ => value) (index :: rest)) = ofNode? settings node := by
  refine ofNode?_congr (Node.form_modifyAt_cons _ _ _ _)
    (map_children_modifyAt fun child place => ofRight?_modifyAt ?_ check grouped)
  rwa [Node.at?_cons, place] at here

/-- The nodes of a tree with no exchange at or above them are still there, and are the same checks. -/
def Stands (settings : Settings) (tree : Node) (calls : List Position) (now : Node) : Prop :=
  ∀ visit ∈ tree.walk, (∀ call ∈ calls, ¬call <+: visit.position) →
    ∃ node, now.at? visit.position = some node ∧ node.form = visit.node.form ∧
      ofNode? settings node = ofNode? settings visit.node

theorem Stands.start (settings : Settings) (tree : Node) : Stands settings tree [] tree :=
  fun visit met _ => ⟨visit.node, Node.at?_position_of_mem_walk met, rfl, rfl⟩

theorem Stands.exchange {old value : Node} {p : Position} (stands : Stands settings tree calls now)
    (here : now.at? p = some old) (check : old.form = .binary "instanceof")
    (grouped : value.form = .group) :
    Stands settings tree (calls ++ [p]) (now.modifyAt (fun _ => value) p) := by
  intro visit met outside
  obtain ⟨node, there, form, same⟩ :=
    stands visit met fun call member => outside call (List.mem_append_left _ member)
  have apart := outside p (by simp)
  by_cases above : visit.position <+: p
  · obtain ⟨below, rfl⟩ := above
    cases below with
    | nil => exact absurd (by simp) apart
    | cons index rest =>
        rw [Node.at?_append, there, Option.bind_some] at here
        rw [Node.at?_modifyAt_above, there]
        exact ⟨_, rfl, (Node.form_modifyAt_cons _ _ _ _).trans form,
          (ofNode?_modifyAt here check grouped).trans same⟩
  · rw [Node.at?_modifyAt_of_apart _ _ ⟨apart, above⟩]
    exact ⟨node, there, form, same⟩

/-! ### The run -/

/-- What the pass has done behind some exchanges. -/
structure Exchanging (settings : Settings) (script : Script) (calls : List Position) (pass : Pass) :
    Prop extends Keeps settings script pass where
  stands : Stands settings script.tree calls pass.script.tree
  exchanges : Exchanges calls script.tree pass.script.tree
  count : calls.length = pass.events.length

theorem Exchanging.start {script : Script} (sound : script.tree.Sound)
    (taken : ∀ name ∈ script.tree.names, name ∈ script.names) :
    Exchanging settings script [] { script } where
  toKeeps := .start sound taken
  stands := .start settings script.tree
  exchanges := .none _
  count := rfl

theorem Exchanging.step {script : Script} {pass : Pass} {met : Visit}
    (exchanging : Exchanging settings script calls pass) (member : met ∈ candidates script.tree)
    (outside : ∀ call ∈ calls, ¬call <+: met.position) :
    ∃ next, Pass.replaceAt settings pass met = .ok next ∧ Exchanging settings script
      (calls ++ if (ofNode? settings met.node).isSome then [met.position] else []) next := by
  obtain ⟨walked, form⟩ := List.mem_filter.mp member
  rw [beq_iff_eq] at form
  have keeps := exchanging.toKeeps
  obtain ⟨node, here, sameForm, same⟩ := exchanging.stands met walked outside
  have current : current? pass.script.tree met = some node :=
    current?_eq_some.mpr ⟨here, sameForm⟩
  rw [← same]
  cases found : ofNode? settings node with
  | none =>
      refine ⟨pass, ?_, by simpa using exchanging⟩
      simp only [Pass.replaceAt, current, Option.getD_some, found]
  | some check =>
      cases named : pass.helper check.native with
      | mk helper between =>
          obtain ⟨-, fits, -, -⟩ := helper_keeps keeps (keeps.global here found) named
          obtain ⟨value, made, replaces⟩ := exists_replacement (keeps.sound.at? here) found fits
          have run := replaceAt_eq current found named made
          have quiet : between.events = pass.events := by
            have events := helper_events pass check.native
            rwa [named] at events
          have put : pass.script.tree.modifyAt value.inPlaceOf met.position =
              pass.script.tree.modifyAt (fun _ => value) met.position :=
            Node.modifyAt_congr here (replacement_inPlaceOf made)
          refine ⟨_, run, replaceAt_keeps keeps run,
            exchanging.stands.exchange here (sameForm.trans form) replaces.grouped, ?_, ?_⟩
          · exact put ▸ exchanging.exchanges.put here (by simp [Visit.position]) value
          · simp [exchanging.count, quiet]

/-- The checks of a script are replaced one after another, the last one first, and each is found where
it was met. -/
theorem replace_exchanges {script : Script} (sound : script.tree.Sound)
    (taken : ∀ name ∈ script.tree.names, name ∈ script.names) :
    ∃ checked events, replace settings script = .ok (checked, events) ∧
      (exchanged settings script.tree).length = events.length ∧
      Exchanges (exchanged settings script.tree) script.tree checked.tree := by
  obtain ⟨pass, passed, exchanging⟩ : ∃ pass,
      (candidates script.tree).reverse.foldlM (Pass.replaceAt settings) { script } = .ok pass ∧
        Exchanging settings script (exchanged settings script.tree) pass := by
    rw [exchanged_eq]
    refine foldlM_total (fun done pass => Exchanging settings script
      ((done.filter fun visit => (ofNode? settings visit.node).isSome).map Visit.position) pass) ?_
      (.start sound taken)
    intro done met todo pass parts exchanging
    have order : (candidates script.tree).reverse.Pairwise fun late early =>
        ¬late.position <+: early.position :=
      List.pairwise_reverse.mpr (script.tree.steady_walk.sublist List.filter_sublist)
    rw [parts, List.pairwise_append] at order
    have member : met ∈ candidates script.tree := by
      rw [← List.mem_reverse, parts]
      simp
    obtain ⟨next, run, exchanging⟩ := exchanging.step member (by
      intro call known
      obtain ⟨late, behind, rfl⟩ := List.mem_map.mp known
      exact order.2.2 late (List.mem_filter.mp behind).1 met List.mem_cons_self)
    refine ⟨next, run, ?_⟩
    rw [List.filter_append, List.map_append]
    by_cases check : (ofNode? settings met.node).isSome <;> simpa [check] using exchanging
  refine ⟨{ pass.script with helpers := pass.script.helpers ++ pass.helperTrees }, pass.events,
    ?_, exchanging.count, exchanging.exchanges⟩
  rw [replace, passed]
  change (pass.declarations >>= _) = _
  rw [declarations_eq exchanging.toKeeps]
  rfl

end TypeCheck

/-! ## Accesses -/

namespace Access

/-- Where the classification of a script puts the marker: at the object of each access, unless it does
not get that far. -/
def markedBases (settings : Settings) (script : Script) : List Position :=
  let found := accesses settings.globalName script.tree
  match collectProvides settings.globalName (rootProvides settings script) script.tree with
  | .error _ => []
  | .ok _ =>
    if script.isRoot || found.any (fun visit => visit.node.form == .element) then []
    else found.map fun visit => visit.position ++ [0]

theorem steady_bases {globalName : String} {tree : Node} (sound : tree.Sound)
    (named : ∀ visit ∈ accesses globalName tree, visit.node.form ≠ .element) :
    Steady ((accesses globalName tree).map fun visit => visit.position ++ [0]) := by
  have walk : (accesses globalName tree).Pairwise fun early late =>
      ¬late.position <+: early.position := tree.steady_walk.sublist List.filter_sublist
  rw [Steady, List.pairwise_map]
  refine walk.imp_of_mem fun {early late} member member' apart below => ?_
  have access := (leafAccessAt_of_mem_accesses sound named member).1
  have access' := (leafAccessAt_of_mem_accesses sound named member').1
  -- a base has nothing below it, so an access below the base of another is that access
  by_cases same : early.position = late.position
  · exact apart (same ▸ List.prefix_rfl)
  · have between := access.apart access' same
    rcases List.prefix_concat_iff.mp below with same' | below
    · exact same (List.append_cancel_right same')
    · exact between.1 ((List.prefix_append _ _).trans below)

variable {settings : Settings} {script : Script}

theorem steady_markedBases (sound : script.tree.Sound) : Steady (markedBases settings script) := by
  unfold markedBases
  dsimp only
  split
  · exact .nil
  · split
    · exact .nil
    · rename_i marked
      exact steady_bases sound (named_of_not_any fun element => marked (by simp [element]))

theorem markAll_exchanges {globalName : String} (sound : script.tree.Sound)
    (named : ∀ visit ∈ accesses globalName script.tree, visit.node.form ≠ .element)
    (fresh : ∀ name, script.recorded name = []) (noRequires : script.requires = []) :
    Exchanges ((accesses globalName script.tree).map fun visit => visit.position ++ [0]) script.tree
      (markAll globalName script).tree := by
  refine (foldl_invariant (fun done marked => Marks globalName script done marked ∧
    Exchanges (done.map fun visit => visit.position ++ [0]) script.tree marked.tree) ?_
    ⟨.start fresh noRequires, .none _⟩).2
  rintro done visit todo marked parts ⟨marks, exchanges⟩
  have found : visit ∈ accesses globalName script.tree := by
    rw [parts]
    simp
  have behind : ∀ visit ∈ done, visit ∈ accesses globalName script.tree := by
    intro visit member
    rw [parts]
    exact List.mem_append_left _ member
  refine ⟨markAccess_marks sound named behind found marks, ?_⟩
  obtain ⟨base, access⟩ := marks.access sound named found
  rw [List.map_append, markAccess, tree_addSite]
  exact exchanges.put access.base_at? (by simp) _

theorem markAccesses_exchanges {globalName : String} (sound : script.tree.Sound)
    (fresh : ∀ name, script.recorded name = []) (noRequires : script.requires = []) :
    ∃ result exclusion?, markAccesses globalName script = .ok (result, exclusion?) ∧
      Exchanges (if (accesses globalName script.tree).any fun visit => visit.node.form == .element
        then [] else (accesses globalName script.tree).map fun visit => visit.position ++ [0])
        script.tree result.tree := by
  rcases markAccesses_cases globalName script with ⟨computed, excluded⟩ | ⟨noElement, marks⟩
  · rw [if_pos computed]
    exact ⟨_, _, excluded, .none _⟩
  · rw [if_neg noElement]
    exact ⟨_, _, marks, markAll_exchanges sound (named_of_not_any noElement) fresh noRequires⟩

theorem classify_exchanges (unread : Unread script) : ∃ result exclusion?,
    classify settings script = .ok (result, exclusion?) ∧
      Exchanges (markedBases settings script) script.tree result.tree := by
  cases collected : collectProvides settings.globalName (rootProvides settings script)
      script.tree with
  | error exclusion =>
      simp only [classify, markedBases, collected]
      exact ⟨_, _, rfl, .none _⟩
  | ok provides =>
      simp only [classify, markedBases, collected]
      by_cases root : script.isRoot = true
      · rw [if_pos root, root, Bool.true_or, if_pos rfl]
        exact ⟨_, _, rfl, .none _⟩
      · have other : script.isRoot = false := eq_false_of_ne_true root
        rw [show rootProvides settings script = [] by simp [rootProvides, other, unread.provides]]
          at collected
        have collected := collectProvides_collected (by simp) (by simp) collected
        have fresh := collected.recorded_eq_nil unread.requires
        obtain ⟨marked, exclusion?, run, exchanges⟩ :=
          @markAccesses_exchanges { script with provides } settings.globalName unread.sound fresh
            unread.requires
        rw [if_neg root, other, Bool.false_or, ← other, run]
        cases exclusion? with
        | none => exact ⟨_, _, rfl, exchanges⟩
        | some exclusion => exact ⟨_, _, rfl, exchanges⟩

/-! ## Recorded sites -/

theorem recorded_foldl_markAccess (base : Node) (script : Script) (visits : List Visit)
    (name : String) : (visits.foldl (markAccess base) script).recorded name =
      script.recorded name ++
        (visits.filter fun visit => accessedName visit.node == name).map Visit.position := by
  induction visits generalizing script with
  | nil => simp
  | cons visit visits ih =>
      have first : (markAccess base script visit).recorded name =
          (addSite script (accessedName visit.node) visit.position).recorded name := rfl
      rw [List.foldl_cons, ih, first, recorded_addSite]
      by_cases same : name = accessedName visit.node
      · simp [same]
      · simp [same, Ne.symm same]

theorem nodup_markAccesses {globalName : String} {script marked : Script}
    (fresh : ∀ name, script.recorded name = [])
    (run : markAccesses globalName script = .ok (marked, none)) (name : String) :
    (marked.recorded name).Nodup := by
  rw [eq_markAll run, markAll, recorded_foldl_markAccess, fresh, List.nil_append]
  exact script.tree.nodup_positions.sublist
    ((List.filter_sublist.trans List.filter_sublist).map _)

theorem nodup_recorded {result : Script} (unread : Unread script) (other : script.isRoot = false)
    (run : classify settings script = .ok (result, none)) (name : String) :
    (result.recorded name).Nodup := by
  obtain ⟨provides, collected, marks⟩ := classify_eq_ok unread.provides other run
  have collected := collectProvides_collected (by simp) (by simp) collected
  exact nodup_markAccesses (collected.recorded_eq_nil unread.requires) marks name

end Access

end ScriptModules
