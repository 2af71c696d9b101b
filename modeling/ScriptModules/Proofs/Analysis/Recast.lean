import ScriptModules.Proofs.Analysis.Exchange
import ScriptModules.Proofs.Tree.Rebuild

/-!
# Type checks by recursion

The pass over the type checks of a script goes through positions that it noted at first, and moves the
operands of a check into a new tree. It leaves the tree that a recursion gives which replaces the checks
below a node before the check of the node (`recast`), and it does nothing when it is run again
(`replace_recasts`).
-/

namespace ScriptModules.TypeCheck

open ScriptModules.Tree

variable {settings : Settings}

/-! ## The recursion -/

def checks (settings : Settings) (tree : Node) : List Check :=
  tree.walk.filterMap fun visit => ofNode? settings visit.node

/-- A node, or what replaces it if it is a check. The helper variables are the one for tags and the one
for values. -/
def recastNode (settings : Settings) (tag inst : String) (node : Node) : Node :=
  match ofNode? settings node, node.children with
  | some check, [left, _] => check.tree (if check.native then tag else inst) left
  | _, _ => node

/-- A tree with its checks replaced, each after the checks in its operands. -/
def recast (settings : Settings) (tag inst : String) : Node → Node :=
  Node.rebuild (recastNode settings tag inst)

/-! ## What tells a check -/

theorem ofRight?_bare (right : Node) : ofRight? settings right.bare = ofRight? settings right :=
  ofRight?_congr right.form_bare (by simp [Node.children_bare, Function.comp_def])

theorem ofNode?_bare (node : Node) : ofNode? settings node.bare = ofNode? settings node :=
  ofNode?_congr node.form_bare (by simp [Node.children_bare, Function.comp_def, ofRight?_bare])

section

variable (settings) (tag inst : String)

theorem recastNode_eq (node : Node) :
    ofNode? settings node = none ∧ recastNode settings tag inst node = node ∨
      ∃ check left right, ofNode? settings node = some check ∧ node.children = [left, right] ∧
        node.form = .binary "instanceof" ∧ recastNode settings tag inst node =
          check.tree (if check.native then tag else inst) left := by
  cases found : ofNode? settings node with
  | none => exact .inl ⟨rfl, by rw [recastNode, found]⟩
  | some check =>
      obtain ⟨left, right, form, children, -⟩ := ofNode?_eq_some found
      exact .inr ⟨check, left, right, rfl, children, form, by rw [recastNode, found, children]⟩

theorem name?_recast (node : Node) :
    (recast settings tag inst node).form.name? = node.form.name? := by
  rw [recast, Node.rebuild_eq]
  rcases recastNode_eq settings tag inst (node.rebuildBelow (recastNode settings tag inst)) with
    ⟨-, same⟩ | ⟨check, left, right, -, -, form, replaced⟩
  · rw [same, Node.form_rebuildBelow]
  · rw [Node.form_rebuildBelow] at form
    rw [replaced, check.form_tree, form]
    rfl

theorem ofRight?_recast (right : Node) :
    ofRight? settings (recast settings tag inst right) = ofRight? settings right := by
  rw [recast, Node.rebuild_eq]
  rcases recastNode_eq settings tag inst (right.rebuildBelow (recastNode settings tag inst)) with
    ⟨-, same⟩ | ⟨check, left, right', -, -, form, replaced⟩
  · rw [same]
    refine ofRight?_congr (Node.form_rebuildBelow _ _) ?_
    rw [Node.children_rebuildBelow, List.map_map]
    exact List.map_congr_left fun child _ => name?_recast settings tag inst child
  · rw [Node.form_rebuildBelow] at form
    rw [replaced, ofRight?, check.form_tree, ofRight?, form]

theorem ofNode?_rebuildBelow (node : Node) :
    ofNode? settings (node.rebuildBelow (recastNode settings tag inst)) = ofNode? settings node := by
  refine ofNode?_congr (Node.form_rebuildBelow _ _) ?_
  rw [Node.children_rebuildBelow, List.map_map]
  exact List.map_congr_left fun child _ => ofRight?_recast settings tag inst child

theorem recast_eq (tree : Node) :
    ofNode? settings tree = none ∧
        recast settings tag inst tree = tree.rebuildBelow (recastNode settings tag inst) ∨
      ∃ check left right, ofNode? settings tree = some check ∧ tree.children = [left, right] ∧
        tree.form = .binary "instanceof" ∧ recast settings tag inst tree =
          check.tree (if check.native then tag else inst) (recast settings tag inst left) := by
  rw [recast, Node.rebuild_eq]
  rcases recastNode_eq settings tag inst (tree.rebuildBelow (recastNode settings tag inst)) with
    ⟨unchecked, same⟩ | ⟨check, left, right, checked, parts, -, replaced⟩
  · rw [ofNode?_rebuildBelow] at unchecked
    exact .inl ⟨unchecked, same⟩
  · rw [ofNode?_rebuildBelow] at checked
    obtain ⟨value, type, form, children, -⟩ := ofNode?_eq_some checked
    rw [Node.children_rebuildBelow, children] at parts
    cases parts
    exact .inr ⟨check, value, type, checked, children, form, replaced⟩

theorem recast_of_ne {tree : Node} (other : tree.form ≠ .binary "instanceof") :
    recast settings tag inst tree = tree.rebuildBelow (recastNode settings tag inst) := by
  rcases recast_eq settings tag inst tree with ⟨-, same⟩ | ⟨_, _, _, _, _, form, _⟩
  · exact same
  · exact absurd form other

theorem steadfast_recastNode : Node.Steadfast (recastNode settings tag inst) (ofNode? settings)
    (fun form => form == .binary "instanceof") where
  idle := by
    intro node undue
    rcases recastNode_eq settings tag inst node with ⟨none, same⟩ | ⟨_, _, _, _, _, form, _⟩
    · exact ⟨same, none⟩
    · simp [form] at undue
  same := ofNode?_rebuildBelow settings tag inst

end

/-! ## The helper variables -/

theorem underscored_ne (count count' : Nat) :
    Text.underscored count "toString" ≠ Text.underscored count' "instance" := by
  intro same
  have last := congrArg (fun text : String => text.toList.getLast?) same
  simp [Text.toList_underscored] at last

def helperName (script : Script) (native : Bool) : String :=
  Text.fresh script.names (if native then "toString" else "instance")

def helper? (script : Script) (found : List Check) (native : Bool) : Option String :=
  if found.any (fun check => check.native == native) then some (helperName script native) else none

theorem helper?_concat (script : Script) (found : List Check) (check : Check) (native : Bool) :
    helper? script (found ++ [check]) native =
      if check.native = native then some (helperName script native)
      else helper? script found native := by
  by_cases same : check.native = native <;> simp [helper?, same]

theorem eq_helperName {script : Script} {found : List Check} {native : Bool} {name : String}
    (known : name ∈ helper? script found native) : name = helperName script native := by
  unfold helper? at known
  split at known
  · exact (Option.some.inj known).symm
  · cases known

structure Named (script : Script) (found : List Check) (pass : Pass) : Prop where
  tag : pass.tagName = helper? script found true
  inst : pass.instanceName = helper? script found false
  names : ∀ name, name ∈ pass.script.names ↔
    name ∈ script.names ∨ name ∈ pass.tagName ∨ name ∈ pass.instanceName

namespace Named

variable {script : Script} {found : List Check} {pass : Pass}

theorem fresh_tag (named : Named script found pass) (unnamed : pass.tagName = none) :
    Text.fresh pass.script.names "toString" = helperName script true := by
  refine Text.fresh_congr fun count => ?_
  rw [named.names, unnamed, named.inst]
  refine ⟨fun cases => ?_, .inl⟩
  rcases cases with taken | none | inst
  · exact taken
  · cases none
  · obtain ⟨count', result⟩ := Text.fresh_underscored script.names "instance"
    exact absurd ((eq_helperName inst).trans result) (underscored_ne count count')

theorem fresh_inst (named : Named script found pass) (unnamed : pass.instanceName = none) :
    Text.fresh pass.script.names "instance" = helperName script false := by
  refine Text.fresh_congr fun count => ?_
  rw [named.names, unnamed, named.tag]
  refine ⟨fun cases => ?_, .inl⟩
  rcases cases with taken | tag | none
  · exact taken
  · obtain ⟨count', result⟩ := Text.fresh_underscored script.names "toString"
    exact absurd ((eq_helperName tag).trans result).symm (underscored_ne count' count)
  · cases none

theorem helper (named : Named script found pass) (check : Check) :
    (pass.helper check.native).1 = helperName script check.native ∧
      Named script (found ++ [check]) (pass.helper check.native).2 := by
  have tag := helper?_concat script found check true
  have inst := helper?_concat script found check false
  cases kind : check.native with
  | true =>
      rw [kind, if_pos rfl] at tag
      rw [kind, if_neg (by decide), ← named.inst] at inst
      cases known : pass.tagName with
      | some name =>
          have own : name = helperName script true := eq_helperName (named.tag ▸ known)
          simp only [Pass.helper, known, if_true]
          exact ⟨own, by rw [known, tag, own], inst.symm, named.names⟩
      | none =>
          have own := named.fresh_tag known
          simp only [Pass.helper, known, if_true, Script.reserve]
          refine ⟨own, by rw [tag, own], inst.symm, fun name => ?_⟩
          rw [List.mem_append, named.names, known]
          simp only [List.mem_singleton, Option.mem_def, Option.some.injEq, reduceCtorEq, false_or]
          tauto
  | false =>
      rw [kind, if_neg (by decide), ← named.tag] at tag
      rw [kind, if_pos rfl] at inst
      cases known : pass.instanceName with
      | some name =>
          have own : name = helperName script false := eq_helperName (named.inst ▸ known)
          simp only [Pass.helper, known, Bool.false_eq_true, if_false]
          exact ⟨own, tag.symm, by rw [known, inst, own], named.names⟩
      | none =>
          have own := named.fresh_inst known
          simp only [Pass.helper, known, Bool.false_eq_true, if_false, Script.reserve]
          refine ⟨own, tag.symm, by rw [inst, own], fun name => ?_⟩
          rw [List.mem_append, named.names, known]
          simp only [List.mem_singleton, Option.mem_def, Option.some.injEq, reduceCtorEq, or_false]
          tauto

end Named

/-! ## The pass -/

structure Follows (script : Script) (state : Node × List Check) (pass : Pass) : Prop
    extends Named script state.2 pass where
  path : pass.script.path = script.path
  tree : pass.script.tree.bare = state.1
  events : pass.events =
    state.2.map fun check => .typeChecked script.path check.type check.native

theorem Follows.start (script : Script) : Follows script (script.tree.bare, []) { script } where
  tag := rfl
  inst := rfl
  names := by simp
  path := rfl
  tree := rfl
  events := rfl

theorem Check.bare_tree (check : Check) (helper : String) (value : Node) :
    (check.tree helper value).bare = check.tree helper value.bare := by
  unfold tree
  split
  · simp [tagTree, Node.access, Node.invocation, Node.of, Node.identifier, Node.bare, Node.bares]
  · simp [markTree, Node.access, Node.assignment, Node.of, Node.identifier, Node.bare, Node.bares]

def recastIn (settings : Settings) (script : Script) : Node → Node :=
  recastNode settings (helperName script true) (helperName script false)

theorem recastIn_of_check {script : Script} {node left right : Node} {check : Check}
    (found : ofNode? settings node = some check) (children : node.children = [left, right]) :
    recastIn settings script node = check.tree (helperName script check.native) left := by
  rw [recastIn, recastNode, found, children]
  cases kind : check.native <;> simp [kind]

theorem unchecked_of_current? {tree : Node} {met : Visit} (check : met.node.form = .binary "instanceof")
    (none : ofNode? settings ((current? tree met).getD met.node) = none) {node : Node}
    (here : tree.at? met.position = some node) : ofNode? settings node = Option.none := by
  by_cases same : node.form = met.node.form
  · rwa [current?_eq_some.mpr ⟨here, same⟩] at none
  · cases found : ofNode? settings node with
    | none => rfl
    | some other =>
        obtain ⟨-, -, form, -⟩ := ofNode?_eq_some found
        exact absurd (form.trans check.symm) same

theorem replaceAt_follows {script : Script} {state : Node × List Check} {pass next : Pass}
    {met : Visit} (check : met.node.form = .binary "instanceof") (keeps : Keeps settings script pass)
    (follows : Follows script state pass) (run : Pass.replaceAt settings pass met = .ok next) :
    Follows script
      (Node.changeAt (recastIn settings script) (ofNode? settings) met.position state) next := by
  obtain ⟨tree, found⟩ := state
  obtain rfl : pass.script.tree.bare = tree := follows.tree
  rw [Node.changeAt, Node.at?_bare]
  rcases replaceAt_cases run with
    ⟨none, rfl⟩ | ⟨node, check, helper, between, value, here, own, helped, made, rfl⟩
  · cases here : next.script.tree.at? met.position with
    | none => exact follows
    | some node =>
        have there : next.script.tree.bare.at? met.position = some node.bare := by
          rw [Node.at?_bare, here, Option.map_some]
        have none := unchecked_of_current? check none here
        rw [← ofNode?_bare] at none
        have fixed : recastIn settings script node.bare = node.bare := by
          rw [recastIn, recastNode, none]
        simp only [Option.map_some, none, Option.toList_none, List.append_nil,
          Node.modifyAt_of_fixed there fixed]
        exact follows
  · obtain ⟨-, fits, -, sameTree⟩ := helper_keeps keeps (keeps.global here own) helped
    obtain ⟨ownName, named⟩ := follows.toNamed.helper check
    have samePath := congrArg Script.path (helper_same pass check.native)
    have quiet := helper_events pass check.native
    rw [helped] at ownName named samePath quiet
    have path : between.script.path = script.path := samePath.trans follows.path
    have events : between.events = _ := quiet.trans follows.events
    obtain ⟨left, right, first, -, children, -, sameFirst, -, made'⟩ :=
      replacement_eq (keeps.sound.at? here) own fits
    cases made.symm.trans made'
    have checked : ofNode? settings node.bare = some check := (ofNode?_bare node).trans own
    have parts : node.bare.children = [left.bare, right.bare] := by
      rw [Node.children_bare, children]
      rfl
    simp only [here, Option.map_some, checked, Option.toList_some]
    refine ⟨⟨named.tag, named.inst, named.names⟩, path, ?_, by simp [events, path]⟩
    change (between.script.tree.modifyAt _ _).bare = _
    rw [sameTree]
    refine Node.bare_modifyAt fun old place => ?_
    cases here.symm.trans place
    rw [recastIn_of_check checked parts, Node.bare_withComments, Check.bare_tree, sameFirst,
      ← ownName]

theorem candidates_bare (tree : Node) :
    candidates tree.bare = (candidates tree).map Visit.bare := by
  rw [candidates, Node.walk_bare, List.filter_map, candidates]
  simp [Function.comp_def, Visit.bare]

theorem checks_bare (tree : Node) : checks settings tree.bare = checks settings tree := by
  rw [checks, checks, Node.walk_bare, List.filterMap_map]
  simp [Function.comp_def, Visit.bare, ofNode?_bare]

/-- What the pass leaves of a script: the tree of the recursion, and in front of it the declarations of
the helper variables for the kinds of checks that there are. -/
structure Recasts (settings : Settings) (script checked : Script) : Prop where
  tree : checked.tree.bare =
    recast settings (helperName script true) (helperName script false) script.tree.bare
  helpers : checked.helpers = script.helpers ++
    (if (checks settings script.tree).any (fun check => check.native)
      then [tagDeclaration (helperName script true)] else []) ++
    if (checks settings script.tree).any (fun check => !check.native)
      then [.declared [[.identifier (helperName script false)]]] else []

theorem Named.helperTrees_eq {script : Script} {found : List Check} {pass : Pass}
    (named : Named script found pass) : pass.helperTrees =
      (if found.any (fun check => check.native)
        then [tagDeclaration (helperName script true)] else []) ++
      if found.any (fun check => !check.native)
        then [.declared [[.identifier (helperName script false)]]] else [] := by
  rw [Pass.helperTrees, named.tag, named.inst, helper?, helper?]
  congr 1
  · simp only [beq_true]
    split <;> rfl
  · simp only [beq_false]
    split <;> rfl

theorem replace_follows {script checked : Script} {events : List Event}
    (sound : script.tree.Sound) (taken : ∀ name ∈ script.tree.names, name ∈ script.names)
    (inner : script.tree.form ≠ .binary "instanceof")
    (run : replace settings script = .ok (checked, events)) :
    Recasts settings script checked ∧ events = (checks settings script.tree).reverse.map
      fun check => .typeChecked script.path check.type check.native := by
  let change (state : Node × List Check) (met : Visit) :=
    Node.changeAt (recastIn settings script) (ofNode? settings) met.position state
  obtain ⟨pass, -, follows, rfl, rfl⟩ := replace_invariant sound taken
    (fun done pass => Follows script (done.foldl change (script.tree.bare, [])) pass)
    (.start script) (fun done met before after member keeps follows run => by
      rw [List.foldl_append]
      exact replaceAt_follows (beq_iff_eq.mp (List.mem_filter.mp member).2) keeps follows run) run
  have rebuilt := Node.foldl_changeAt
    (steadfast_recastNode settings (helperName script true) (helperName script false))
    script.tree.bare
  rw [← candidates, candidates_bare, List.map_map, ← List.map_reverse, List.foldl_map] at rebuilt
  rw [show (candidates script.tree).reverse.foldl change (script.tree.bare, []) = _ from rebuilt,
    show (script.tree.bare.walk.filterMap fun visit => ofNode? settings visit.node) =
      checks settings script.tree from checks_bare _] at follows
  have whole : recast settings (helperName script true) (helperName script false)
      script.tree.bare = script.tree.bare.rebuildBelow (recastIn settings script) :=
    recast_of_ne settings _ _ (script.tree.form_bare ▸ inner)
  refine ⟨⟨follows.tree.trans whole.symm, ?_⟩, follows.events⟩
  rw [follows.toNamed.helperTrees_eq, List.append_assoc]
  simp only [List.any_reverse]

/-! ## A second pass -/

def Settled (settings : Settings) (tree : Node) : Prop :=
  ∀ p node, tree.at? p = some node → ofNode? settings node = none

theorem settled_mk_iff {form : Form} {comments : List String} {children : List Node} :
    Settled settings (.mk form comments children) ↔
      ofNode? settings (.mk form comments children) = none ∧
        ∀ child ∈ children, Settled settings child := by
  constructor
  · intro settled
    refine ⟨settled [] _ (Node.at?_nil _), fun child member p node here => ?_⟩
    obtain ⟨index, place⟩ := List.mem_iff_getElem?.mp member
    exact settled (index :: p) node (by rw [Node.at?_cons, Node.children_mk, place]; exact here)
  · rintro ⟨own, below⟩ p node here
    cases p with
    | nil =>
        rw [Node.at?_nil] at here
        cases here
        exact own
    | cons index p =>
        rw [Node.at?_cons] at here
        obtain ⟨child, place, here⟩ := Option.bind_eq_some_iff.mp here
        exact below child (List.mem_of_getElem? place) p node here

theorem settled_of_checks {tree : Node} (program : tree.form = .program)
    (none : checks settings tree = []) : Settled settings tree := by
  intro p node here
  by_cases top : p = []
  · rw [top, Node.at?_nil, Option.some.injEq] at here
    rw [← here, ofNode?, program]
  · obtain ⟨visit, met, -, rfl⟩ := Node.exists_mem_walk top here
    exact List.filterMap_eq_nil_iff.mp none visit met

theorem settled_tree (check : Check) (helper : String) {value : Node}
    (settled : Settled settings value) : Settled settings (check.tree helper value) := by
  unfold Check.tree
  split
  · simp [tagTree, Node.access, Node.invocation, Node.of, Node.identifier, settled_mk_iff, ofNode?,
      settled]
  · simp [markTree, Node.access, Node.assignment, Node.of, Node.identifier, settled_mk_iff, ofNode?,
      settled]

mutual

theorem settled_recast (tag inst : String) : ∀ node : Node,
    Settled settings (recast settings tag inst node)
  | .mk form comments children => by
      have below := settled_recastAll tag inst children
      rw [recast, Node.rebuild]
      rcases recastNode_eq settings tag inst
          (.mk form comments (Node.rebuildAll (recastNode settings tag inst) children)) with
        ⟨none, same⟩ | ⟨check, left, right, -, parts, -, replaced⟩
      · rw [same, settled_mk_iff]
        exact ⟨none, below⟩
      · rw [replaced]
        rw [Node.children_mk] at parts
        exact settled_tree check _ (below left (by simp [parts]))

theorem settled_recastAll (tag inst : String) : ∀ nodes : List Node,
    ∀ node ∈ Node.rebuildAll (recastNode settings tag inst) nodes, Settled settings node
  | [], _, member => by cases member
  | first :: rest, node, member => by
      rw [Node.rebuildAll] at member
      rcases List.mem_cons.mp member with rfl | member
      · exact settled_recast tag inst first
      · exact settled_recastAll tag inst rest node member

end

theorem Recasts.settled {script checked : Script} (recasts : Recasts settings script checked) :
    Settled settings checked.tree := by
  intro p node here
  rw [← ofNode?_bare]
  refine settled_recast (helperName script true) (helperName script false) script.tree.bare p _ ?_
  rw [← recasts.tree, Node.at?_bare, here, Option.map_some]

theorem replace_settled {script : Script} (settled : Settled settings script.tree) :
    replace settings script = .ok (script, []) := by
  have idle (met : Visit) (member : met ∈ script.tree.walk) :
      Pass.replaceAt settings { script } met = .ok { script } := by
    have here := Node.at?_position_of_mem_walk member
    have current : current? script.tree met = some met.node := current?_eq_some.mpr ⟨here, rfl⟩
    simp only [Pass.replaceAt, current, Option.getD_some, settled _ _ here]
  have passed : ∀ visits : List Visit, (∀ met ∈ visits, met ∈ script.tree.walk) →
      visits.foldlM (Pass.replaceAt settings) { script } = .ok { script } := by
    intro visits walked
    induction visits with
    | nil => rfl
    | cons met visits ih =>
        rw [List.foldlM_cons, idle met (walked met List.mem_cons_self)]
        exact ih fun other member => walked other (List.mem_cons_of_mem _ member)
  rw [replace, passed (candidates script.tree).reverse fun met member =>
    (List.mem_filter.mp (List.mem_reverse.mp member)).1]
  change Except.ok ({ script with helpers := script.helpers ++ [] }, []) = _
  rw [List.append_nil]

/-- The pass leaves the tree of the recursion, reports each check that was there, and does nothing when
it is run again. -/
theorem replace_recasts {script : Script} (sound : script.tree.Sound)
    (taken : ∀ name ∈ script.tree.names, name ∈ script.names)
    (inner : script.tree.form ≠ .binary "instanceof") :
    ∃ checked, replace settings script = .ok (checked, (checks settings script.tree).reverse.map
        fun check => .typeChecked script.path check.type check.native) ∧
      Recasts settings script checked ∧ replace settings checked = .ok (checked, []) := by
  obtain ⟨checked, events, run, -⟩ := @replace_exchanges settings script sound taken
  obtain ⟨recasts, rfl⟩ := replace_follows sound taken inner run
  exact ⟨checked, run, recasts, replace_settled recasts.settled⟩

end ScriptModules.TypeCheck
