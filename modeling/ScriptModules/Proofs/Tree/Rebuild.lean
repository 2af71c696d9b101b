import ScriptModules.Proofs.Tree.Exchange
import ScriptModules.Proofs.Tree.Names

/-!
# Rebuilding a tree from below

A tree is rebuilt from below if every node is changed after everything below it (`rebuild`). A pass
that goes through the positions of a walk from the last to the first, and changes the node that it
finds at each, rebuilds everything below the root, and finds at each position what the walk found
there (`foldl_changeAt`).
-/

namespace ScriptModules.Tree

def Visit.bare (visit : Visit) : Visit :=
  { visit with parent := visit.parent.bare, node := visit.node.bare }

namespace Node

/-! ## Changes at a position -/

theorem modifyAt_append (change : Node → Node) (root : Node) (p q : Position) :
    root.modifyAt change (p ++ q) = root.modifyAt (fun below => below.modifyAt change q) p := by
  induction p generalizing root with
  | nil =>
      cases root
      rfl
  | cons index p ih =>
      obtain ⟨form, comments, children⟩ := root
      rw [List.cons_append, modifyAt, modifyAt]
      exact congrArg (fun change => mk form comments (children.modify index change)) (funext ih)

theorem modifyAt_modifyAt (first second : Node → Node) (root : Node) (p : Position) :
    (root.modifyAt first p).modifyAt second p = root.modifyAt (second ∘ first) p := by
  induction p generalizing root with
  | nil =>
      cases root
      simp [modifyAt]
  | cons index p ih =>
      obtain ⟨form, comments, children⟩ := root
      rw [modifyAt, modifyAt, modifyAt, List.modify_modify_eq]
      exact congrArg (fun change => mk form comments (children.modify index change)) (funext ih)

theorem modifyAt_id (root : Node) (p : Position) : root.modifyAt id p = root := by
  induction p generalizing root with
  | nil =>
      cases root
      rfl
  | cons index p ih =>
      obtain ⟨form, comments, children⟩ := root
      rw [modifyAt, show (fun child : Node => child.modifyAt id p) = id from funext ih,
        List.modify_id]

theorem modifyAt_of_fixed {change : Node → Node} {root old : Node} {p : Position}
    (here : root.at? p = some old) (fixed : change old = old) : root.modifyAt change p = root :=
  (modifyAt_congr here fixed).trans (modifyAt_id root p)

theorem bare_modifyAt {change change' : Node → Node} {root : Node} {p : Position}
    (same : ∀ old, root.at? p = some old → (change old).bare = change' old.bare) :
    (root.modifyAt change p).bare = root.bare.modifyAt change' p := by
  induction p generalizing root with
  | nil =>
      cases root
      exact same _ (at?_nil _)
  | cons index p ih =>
      obtain ⟨form, comments, children⟩ := root
      rw [modifyAt, bare, bare, modifyAt, bares_eq_map, bares_eq_map]
      congr 1
      apply List.ext_getElem?
      intro i
      by_cases own : i = index
      · subst own
        rw [List.getElem?_map, List.getElem?_modify_eq, List.getElem?_modify_eq, List.getElem?_map]
        cases place : children[i]? with
        | none => rfl
        | some child =>
            refine congrArg some (ih fun old here => same old ?_)
            rwa [at?_cons, children_mk, place]
      · rw [List.getElem?_map, List.getElem?_modify_ne _ _ (Ne.symm own),
          List.getElem?_modify_ne _ _ (Ne.symm own), List.getElem?_map]

/-! ## Rebuilding -/

section

variable (change : Node → Node)

mutual

def rebuild : Node → Node
  | mk form comments children => change (mk form comments (rebuildAll children))

def rebuildAll : List Node → List Node
  | [] => []
  | node :: nodes => rebuild node :: rebuildAll nodes

end

def rebuildBelow : Node → Node
  | mk form comments children => mk form comments (rebuildAll change children)

theorem rebuild_eq (node : Node) : node.rebuild change = change (node.rebuildBelow change) := by
  cases node
  rw [rebuild, rebuildBelow]

@[simp] theorem form_rebuildBelow (node : Node) : (node.rebuildBelow change).form = node.form := by
  cases node
  rfl

theorem rebuildAll_eq_map (nodes : List Node) :
    rebuildAll change nodes = nodes.map (rebuild change) := by
  induction nodes with
  | nil => rw [rebuildAll, List.map_nil]
  | cons node nodes ih => rw [rebuildAll, List.map_cons, ih]

theorem children_rebuildBelow (node : Node) :
    (node.rebuildBelow change).children = node.children.map (rebuild change) := by
  cases node
  exact rebuildAll_eq_map change _

end

/-! ## Passes from the last position to the first -/

section

variable {α : Type} (change : Node → Node) (find : Node → Option α)

def changeAt (position : Position) (state : Node × List α) : Node × List α :=
  match state.1.at? position with
  | none => state
  | some node => (state.1.modifyAt change position, state.2 ++ (find node).toList)

/-- What a pass makes of a tree: the node at each of some visits is changed, the last visit first. -/
def sweep (due : Form → Bool) (visits : List Visit) (state : Node × List α) : Node × List α :=
  visits.foldr (fun visit state =>
    if due visit.node.form then changeAt change find visit.position state else state) state

theorem sweep_append (due : Form → Bool) (visits more : List Visit) (state : Node × List α) :
    sweep change find due (visits ++ more) state =
      sweep change find due visits (sweep change find due more state) :=
  List.foldr_append

/-- A pass may leave out the nodes that are not due, and finds in a node the same before and after the
changes below it. -/
structure Steadfast (due : Form → Bool) : Prop where
  idle : ∀ node : Node, due node.form = false → change node = node ∧ find node = none
  same : ∀ node : Node, find (node.rebuildBelow change) = find node

variable {change find} {due : Form → Bool}

theorem sweep_visit (steadfast : Steadfast change find due) {root : Node} (visit : Visit)
    {found : List α} (here : ∃ old, root.at? visit.position = some old) :
    sweep change find due [visit]
        (root.modifyAt (fun _ => visit.node.rebuildBelow change) visit.position, found) =
      (root.modifyAt (fun _ => visit.node.rebuild change) visit.position,
        found ++ (find visit.node).toList) := by
  obtain ⟨old, here⟩ := here
  have there : (root.modifyAt (fun _ => visit.node.rebuildBelow change) visit.position).at?
      visit.position = some (visit.node.rebuildBelow change) := by
    rw [at?_modifyAt_self, here, Option.map_some]
  rw [sweep, List.foldr_cons, List.foldr_nil, rebuild_eq]
  split
  · rw [changeAt, there]
    simp only [modifyAt_modifyAt, steadfast.same]
    rfl
  · rename_i undue
    have formed : due (visit.node.rebuildBelow change).form = false := by
      rw [form_rebuildBelow]
      exact eq_false_of_ne_true undue
    obtain ⟨unchanged, nothing⟩ := steadfast.idle _ formed
    rw [unchanged, ← steadfast.same, nothing, Option.toList_none, List.append_nil]

mutual

theorem sweep_visits (steadfast : Steadfast change find due) (above : Position) :
    ∀ (node root : Node) (found : List α), root.at? above = some node →
      sweep change find due (visits above node) (root, found) =
        (root.modifyAt (fun _ => node.rebuildBelow change) above,
          found ++ ((visits above node).filterMap fun visit => find visit.node).reverse)
  | mk form comments children, root, found, here => by
      rw [visits, rebuildBelow]
      exact sweep_visitsFrom steadfast _ above form comments [] children root found here

theorem sweep_visitsFrom (steadfast : Steadfast change find due) (parent : Node) (above : Position)
    (form : Form) (comments : List String) :
    ∀ (front nodes : List Node) (root : Node) (found : List α),
      root.at? above = some (mk form comments (front ++ nodes)) →
      sweep change find due (visitsFrom parent above front.length nodes) (root, found) =
        (root.modifyAt (fun _ => mk form comments (front ++ rebuildAll change nodes)) above,
          found ++ ((visitsFrom parent above front.length nodes).filterMap
            fun visit => find visit.node).reverse)
  | front, [], root, found, here => by
      rw [visitsFrom, rebuildAll, modifyAt_of_fixed here rfl, List.filterMap_nil, List.reverse_nil,
        List.append_nil]
      rfl
  | front, child :: rest, root, found, here => by
      let visit : Visit := ⟨parent, above, front.length, child⟩
      let rebuilt := root.modifyAt
        (fun _ => mk form comments (front ++ child :: rebuildAll change rest)) above
      let behind := visitsFrom parent above (front.length + 1) rest
      -- the children behind this one are rebuilt first
      have later : sweep change find due behind (root, found) =
          (rebuilt, found ++ (behind.filterMap fun visit => find visit.node).reverse) := by
        have split : front ++ child :: rest = (front ++ [child]) ++ rest := by simp
        rw [split] at here
        have rebuilds := sweep_visitsFrom steadfast parent above form comments (front ++ [child]) rest
          root found here
        rw [List.length_append, List.length_singleton] at rebuilds
        simpa [rebuilt, behind] using rebuilds
      have node : rebuilt.at? above =
          some (mk form comments (front ++ child :: rebuildAll change rest)) := by
        rw [at?_modifyAt_self, here, Option.map_some]
      have place : rebuilt.at? visit.position = some child := by
        rw [Visit.position, at?_snoc node]
        simp [visit]
      have whole : rebuilt.modifyAt (fun _ => child.rebuild change) visit.position =
          root.modifyAt (fun _ => mk form comments
            (front ++ rebuildAll change (child :: rest))) above := by
        rw [Visit.position, modifyAt_append, modifyAt_modifyAt, rebuildAll]
        refine congrArg (root.modifyAt · above) (funext fun _ => ?_)
        simp [visit, modifyAt, List.modify_eq_take_drop]
      have parts : visitsFrom parent above front.length (child :: rest) =
          [visit] ++ (visits visit.position child ++ behind) := by
        rw [visitsFrom]
        rfl
      rw [parts, sweep_append, sweep_append, later,
        sweep_visits steadfast visit.position child rebuilt _ place,
        sweep_visit steadfast visit ⟨child, place⟩, whole]
      simp only [List.singleton_append, List.filterMap_cons, List.filterMap_append]
      cases find child <;> simp

end

theorem sweep_walk (steadfast : Steadfast change find due) (root : Node) :
    sweep change find due root.walk (root, []) =
      (root.rebuildBelow change, (root.walk.filterMap fun visit => find visit.node).reverse) := by
  rw [walk_eq, sweep_visits steadfast [] root root [] (at?_nil root), List.nil_append]
  cases root
  rfl

/-- Changing the nodes that are due, from the last that a walk comes to to the first, rebuilds the tree
below its root. What is found is what the walk found, in the opposite order. -/
theorem foldl_changeAt (steadfast : Steadfast change find due) (root : Node) :
    ((root.walk.filter fun visit => due visit.node.form).map Visit.position).reverse.foldl
        (fun state position => changeAt change find position state) (root, []) =
      (root.rebuildBelow change, (root.walk.filterMap fun visit => find visit.node).reverse) := by
  rw [List.foldl_reverse, List.foldr_map, List.foldr_filter]
  exact sweep_walk steadfast root

end

/-! ## Walks without comments -/

mutual

theorem visits_bare (above : Position) : ∀ node : Node,
    visits above node.bare = (visits above node).map Visit.bare
  | mk form comments children => by
      have rest := visitsFrom_bares (mk form comments children) above 0 children
      rwa [bare] at rest ⊢

theorem visitsFrom_bares (parent : Node) (above : Position) : ∀ (index : Nat) (nodes : List Node),
    visitsFrom parent.bare above index (bares nodes) =
      (visitsFrom parent above index nodes).map Visit.bare
  | _, [] => rfl
  | index, child :: rest => by
      rw [bares, visitsFrom, visitsFrom, visits_bare _ child, visitsFrom_bares parent above _ rest,
        List.map_cons, List.map_append]
      rfl

end

theorem walk_bare (root : Node) : root.bare.walk = root.walk.map Visit.bare := by
  rw [walk_eq, walk_eq, visits_bare]

end Node

end ScriptModules.Tree
