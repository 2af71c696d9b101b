import ScriptModules.Proofs.Analysis.Marker
import ScriptModules.Proofs.Analysis.Recast
import ScriptModules.Proofs.Corpus.Chunks
import ScriptModules.Proofs.Tree.Scope

/-!
# Origins of accesses

A node keeps its place behind the type checks, but for what stands in a checked value, which is moved
with it (`TypeCheck.moved?`). The checks bring no names into scopes and no accesses into a tree: an
access behind them was moved there from exactly one place, and no more names are bound around it than
at that place (`TypeCheck.recast_origin`, `TypeCheck.moved?_injective`).
-/

namespace ScriptModules

open ScriptModules.Tree
open Access (isAccess accessedName)

/-! ## Places in the tree of a check -/

namespace Tree.Node

theorem exists_getElem?_cons {α : Type} {first : α} {items : List α} {Meets : Nat → α → Prop} :
    (∃ index item, (first :: items)[index]? = some item ∧ Meets index item) ↔
      Meets 0 first ∨ ∃ index item, items[index]? = some item ∧ Meets (index + 1) item := by
  constructor
  · rintro ⟨index, item, place, meets⟩
    cases index with
    | zero =>
        cases place
        exact .inl meets
    | succ index => exact .inr ⟨index, item, place, meets⟩
  · rintro (meets | ⟨index, item, place, meets⟩)
    · exact ⟨0, first, rfl, meets⟩
    · exact ⟨index + 1, item, place, meets⟩

end Tree.Node

namespace Access

theorem globalName_mem_names {globalName : String} {node : Node}
    (access : isAccess globalName node = true) : globalName ∈ node.names := by
  simp only [isAccess, Bool.and_eq_true, Bool.or_eq_true, beq_iff_eq] at access
  obtain ⟨kind, based⟩ := access
  obtain ⟨base, first, named⟩ := Option.bind_eq_some_iff.mp based
  refine Node.mem_names.mpr ⟨0, base, List.head?_eq_getElem? ▸ first, .inl ⟨?_, named⟩⟩
  rcases kind with form | form <;> rw [form] <;> rfl

/-- Whether a node is an access or assigns one, other than by the code that a type check with the
given helper variable becomes. -/
def touches (globalName helper : String) (node : Node) : Bool :=
  match node.form with
  | .assign _ => node.children.head?.any (isAccess globalName)
  | _ => isAccess globalName node && helper != globalName

theorem touches_of_isAccess {globalName helper : String} {node : Node} (other : helper ≠ globalName)
    (access : isAccess globalName node = true) : touches globalName helper node = true := by
  obtain ⟨form, comments, children⟩ := node
  cases form with
  | member | element => simp [touches, access, other]
  | _ => cases access

end Access

/-- A node that touches the global object stands at a position. -/
structure Access.Touches (globalName helper : String) (tree : Node) (p : Position) (node : Node) :
    Prop where
  here : tree.at? p = some node
  touched : touches globalName helper node = true

namespace TypeCheck

variable {settings : Settings} {globalName helper : String}

theorem touches_mk_iff {form : Form} {comments : List String} {children : List Node} {p : Position}
    {node : Node} (silent : ¬Access.touches globalName helper (.mk form comments children) = true) :
    Access.Touches globalName helper (.mk form comments children) p node ↔
      ∃ index child, children[index]? = some child ∧
        ∃ rest, p = index :: rest ∧ Access.Touches globalName helper child rest node := by
  constructor
  · rintro ⟨here, touched⟩
    cases p with
    | nil =>
        rw [Node.at?_nil, Option.some.injEq] at here
        exact absurd (here ▸ touched) silent
    | cons index rest =>
        rw [Node.at?_cons] at here
        obtain ⟨child, place, here⟩ := Option.bind_eq_some_iff.mp here
        exact ⟨index, child, place, rest, rfl, here, touched⟩
  · rintro ⟨index, child, place, rest, rfl, here, touched⟩
    refine ⟨?_, touched⟩
    rw [Node.at?_cons, Node.children_mk, place]
    exact here

theorem touches_tagTree {literal : String} {value node : Node} {p : Position} :
    Access.Touches globalName helper (tagTree helper literal value) p node ↔
      ∃ rest, p = 0 :: 0 :: 0 :: 0 :: 1 :: 0 :: rest ∧
        Access.Touches globalName helper value rest node := by
  simp [tagTree, Node.of, Node.invocation, Node.access, Node.identifier, touches_mk_iff,
    Node.exists_getElem?_cons, Access.touches, isAccess, Form.name?]

theorem touches_markTree {marker : String} {value node : Node} {p : Position} :
    Access.Touches globalName helper (markTree helper marker value) p node ↔
      ∃ rest, p = 0 :: 0 :: 0 :: 0 :: 0 :: 1 :: rest ∧
        Access.Touches globalName helper value rest node := by
  simp [markTree, Node.of, Node.assignment, Node.access, Node.identifier, touches_mk_iff,
    Node.exists_getElem?_cons, Access.touches, isAccess, Form.name?]

theorem Check.touches_tree {check : Check} {value node : Node} {p : Position} :
    Access.Touches globalName helper (check.tree helper value) p node ↔
      ∃ rest, p = check.hole ++ rest ∧ Access.Touches globalName helper value rest node := by
  unfold Check.tree Check.hole
  split
  · exact touches_tagTree
  · exact touches_markTree

theorem Check.length_hole (check : Check) : check.hole.length = 6 := by
  unfold Check.hole
  split <;> rfl

theorem Check.boundAt_tree (check : Check) (helper : String) (value : Node) (rest : Position) :
    (check.tree helper value).boundAt (check.hole ++ rest) = value.boundAt rest := by
  have around : (check.tree helper value).boundAt check.hole = [] := by
    unfold Check.tree Check.hole
    split <;> rfl
  rw [Node.boundAt_append (check.at?_hole helper value), around, List.nil_append]

theorem Check.hoisted_tree (check : Check) (helper : String) (value : Node) :
    (check.tree helper value).hoisted = value.hoisted := by
  unfold Check.tree
  split
  · simp [tagTree, Node.of, Node.invocation, Node.access, Node.identifier, Node.hoisted,
      Node.hoistedAll, Node.ownNames, Form.declaredCount, Form.isScope]
  · simp [markTree, Node.of, Node.assignment, Node.access, Node.identifier, Node.hoisted,
      Node.hoistedAll, Node.ownNames, Form.declaredCount, Form.isScope]

/-! ## Where nodes are moved -/

/-- The position behind the type checks of what stands at a position in front of them. A check is
replaced and what it tests for is dropped, so nothing comes of these. -/
def moved? (settings : Settings) : Node → Position → Option Position
  | node, [] => if (ofNode? settings node).isSome then none else some []
  | node, index :: rest =>
    match node.children[index]?, ofNode? settings node with
    | some child, none => (moved? settings child rest).map (index :: ·)
    | some child, some check =>
      if index = 0 then (moved? settings child rest).map (check.hole ++ ·) else none
    | none, _ => none

theorem moved?_nil_iff {node : Node} {q : Position} :
    moved? settings node [] = some q ↔ ofNode? settings node = none ∧ q = [] := by
  cases found : ofNode? settings node <;> simp [moved?, found, eq_comm]

theorem moved?_cons_iff {node : Node} {index : Nat} {rest q : Position} :
    moved? settings node (index :: rest) = some q ↔ ∃ child below,
      node.children[index]? = some child ∧ moved? settings child rest = some below ∧
        (ofNode? settings node = none ∧ q = index :: below ∨ ∃ check,
          ofNode? settings node = some check ∧ index = 0 ∧ q = check.hole ++ below) := by
  rw [moved?]
  cases place : node.children[index]? with
  | none => simp
  | some child =>
      cases found : ofNode? settings node with
      | none => simp [eq_comm]
      | some check => by_cases first : index = 0 <;> simp [first, eq_comm]

theorem moved?_injective {node : Node} {p p' q : Position}
    (moved : moved? settings node p = some q) (moved' : moved? settings node p' = some q) :
    p = p' := by
  induction p generalizing node p' q with
  | nil =>
      obtain ⟨found, rfl⟩ := moved?_nil_iff.mp moved
      cases p' with
      | nil => rfl
      | cons index rest =>
          obtain ⟨child, below, -, -, ⟨-, same⟩ | ⟨check, found', -⟩⟩ := moved?_cons_iff.mp moved'
          · cases same
          · cases found.symm.trans found'
  | cons index rest ih =>
      obtain ⟨child, below, place, inner, outer⟩ := moved?_cons_iff.mp moved
      cases p' with
      | nil =>
          obtain ⟨found, rfl⟩ := moved?_nil_iff.mp moved'
          rcases outer with ⟨-, same⟩ | ⟨check, found', -⟩
          · cases same
          · cases found.symm.trans found'
      | cons index' rest' =>
          obtain ⟨child', below', place', inner', outer'⟩ := moved?_cons_iff.mp moved'
          rcases outer with ⟨found, rfl⟩ | ⟨check, found, rfl, rfl⟩
          · rcases outer' with ⟨-, same⟩ | ⟨check', found', -⟩
            · obtain ⟨rfl, rfl⟩ := List.cons.inj same
              cases place.symm.trans place'
              rw [ih inner inner']
            · cases found.symm.trans found'
          · rcases outer' with ⟨found', -⟩ | ⟨check', found', rfl, same⟩
            · cases found.symm.trans found'
            · cases found.symm.trans found'
              cases place.symm.trans place'
              rw [ih inner (List.append_cancel_left same ▸ inner')]

theorem moved?_bare (node : Node) (p : Position) :
    moved? settings node.bare p = moved? settings node p := by
  induction p generalizing node with
  | nil => rw [moved?, moved?, ofNode?_bare]
  | cons index rest ih =>
      rw [moved?, moved?, ofNode?_bare, Node.children_bare, List.getElem?_map]
      cases node.children[index]? with
      | none => rfl
      | some child => cases ofNode? settings node <;> simp [ih]

/-! ## The recursion -/

mutual

theorem recast_bindsWithin (tag inst : String) : ∀ node : Node,
    (recast settings tag inst node).BindsWithin [] node
  | .mk form comments children => by
      refine ⟨fun name named => .inl (name?_recast settings tag inst _ ▸ named), ?_⟩
      have all := recastAll_bindsWithin tag inst children
      have below := (Node.BindsWithin.congr all :
        (Node.mk form comments _).BindsWithin [] (.mk form comments children)).hoisted
      rw [recast, Node.rebuild]
      rcases recastNode_eq settings tag inst
          (.mk form comments (Node.rebuildAll (recastNode settings tag inst) children)) with
        ⟨-, same⟩ | ⟨check, left, right, -, parts, binary, replaced⟩
      · rwa [same]
      · rw [replaced, check.hoisted_tree]
        refine List.Subset.trans ?_ below
        obtain rfl : form = .binary "instanceof" := binary
        rw [show Node.rebuildAll (recastNode settings tag inst) children = [left, right] from parts]
        simp [Node.hoisted, Node.hoistedAll, Form.declaredCount, Form.isScope, Node.ownNames]

theorem recastAll_bindsWithin (tag inst : String) : ∀ nodes : List Node,
    List.Forall₂ (Node.BindsWithin [])
      (Node.rebuildAll (recastNode settings tag inst) nodes) nodes
  | [] => .nil
  | node :: nodes => by
      rw [Node.rebuildAll]
      exact .cons (recast_bindsWithin tag inst node) (recastAll_bindsWithin tag inst nodes)

end

theorem rebuildBelow_scope (tag inst : String) (node : Node) :
    (node.rebuildBelow (recastNode settings tag inst)).scope ⊆ node.scope := by
  obtain ⟨form, comments, children⟩ := node
  have all := @recastAll_bindsWithin settings tag inst children
  simpa [Node.rebuildBelow] using @Node.scope_subset [] form comments comments _ _ all

section

variable (settings) (tag inst : String)

/-- A node behind the checks was moved there from a node in front of them, with what stands below it
rebuilt, and no more names are bound around it than before. -/
structure MovedFrom (tree : Node) (q : Position) (node : Node) (p : Position) (old : Node) :
    Prop where
  here : tree.at? p = some old
  moved : moved? settings tree p = some q
  rebuilt : node = old.rebuildBelow (recastNode settings tag inst)
  scope : (recast settings tag inst tree).boundAt q ⊆ tree.boundAt p

end

section

variable {tag inst : String} {tree child node old : Node} {p rest : Position}

theorem MovedFrom.below {index : Nat} (unchecked : ofNode? settings tree = none)
    (same : recast settings tag inst tree = tree.rebuildBelow (recastNode settings tag inst))
    (place : tree.children[index]? = some child)
    (origin : MovedFrom settings tag inst child rest node p old) :
    MovedFrom settings tag inst tree (index :: rest) node (index :: p) old where
  here := by
    rw [Node.at?_cons, place]
    exact origin.here
  moved := moved?_cons_iff.mpr ⟨child, rest, place, origin.moved, .inl ⟨unchecked, rfl⟩⟩
  rebuilt := origin.rebuilt
  scope := by
    have place' : (tree.rebuildBelow (recastNode settings tag inst)).children[index]? =
        some (recast settings tag inst child) := by
      rw [Node.children_rebuildBelow, List.getElem?_map, place]
      rfl
    rw [same, Node.boundAt_cons place', Node.boundAt_cons place]
    exact List.append_subset.mpr
      ⟨List.Subset.trans (rebuildBelow_scope tag inst tree) (List.subset_append_left _ _),
        List.Subset.trans origin.scope (List.subset_append_right _ _)⟩

theorem MovedFrom.checked {check : Check} {helper : String}
    (checked : ofNode? settings tree = some check)
    (replaced : recast settings tag inst tree = check.tree helper (recast settings tag inst child))
    (place : tree.children[0]? = some child)
    (origin : MovedFrom settings tag inst child rest node p old) :
    MovedFrom settings tag inst tree (check.hole ++ rest) node (0 :: p) old where
  here := by
    rw [Node.at?_cons, place]
    exact origin.here
  moved := moved?_cons_iff.mpr
    ⟨child, rest, place, origin.moved, .inr ⟨check, checked, rfl, rfl⟩⟩
  rebuilt := origin.rebuilt
  scope := by
    rw [replaced, check.boundAt_tree, Node.boundAt_cons place]
    exact List.Subset.trans origin.scope (List.subset_append_right _ _)

/-- What touches the global object behind the checks was moved there. -/
theorem recast_origin {q : Position} (here : (recast settings tag inst tree).at? q = some node)
    (touched : ∀ helper ∈ [tag, inst], Access.touches globalName helper node = true) :
    ∃ p old, MovedFrom settings tag inst tree q node p old := by
  induction length : q.length using Nat.strong_induction_on generalizing tree q with
  | h length shorter =>
  subst length
  rcases recast_eq settings tag inst tree with
    ⟨unchecked, same⟩ | ⟨check, left, right, checked, parts, -, replaced⟩
  · cases q with
    | nil =>
        rw [Node.at?_nil, Option.some.injEq] at here
        exact ⟨[], tree, Node.at?_nil _, moved?_nil_iff.mpr ⟨unchecked, rfl⟩, here ▸ same, by simp⟩
    | cons index rest =>
        rw [same, Node.at?_cons, Node.children_rebuildBelow, List.getElem?_map] at here
        obtain ⟨child', place', here⟩ := Option.bind_eq_some_iff.mp here
        obtain ⟨child, place, rfl⟩ := Option.map_eq_some_iff.mp place'
        obtain ⟨p, old, origin⟩ := shorter rest.length (by simp) here rfl
        exact ⟨index :: p, old, origin.below unchecked same place⟩
  · have known : (if check.native then tag else inst) ∈ [tag, inst] := by
      split <;> simp
    rw [replaced] at here
    obtain ⟨rest, rfl, here, -⟩ := Check.touches_tree.mp ⟨here, touched _ known⟩
    have deeper : rest.length < (check.hole ++ rest).length := by
      simp [check.length_hole]
    obtain ⟨p, old, origin⟩ := shorter rest.length deeper here rfl
    exact ⟨0 :: p, old, origin.checked checked replaced (by simp [parts])⟩

end

theorem isAccess_rebuildBelow (tag inst : String) (node : Node) :
    isAccess globalName (node.rebuildBelow (recastNode settings tag inst)) =
      isAccess globalName node := by
  have names : ((node.children.map (recast settings tag inst)).head?.bind fun base =>
      base.form.name?) = node.children.head?.bind fun base => base.form.name? := by
    cases node.children <;> simp [name?_recast]
  rw [isAccess, isAccess, Node.form_rebuildBelow, Node.children_rebuildBelow]
  exact congrArg (fun name => _ && name == some globalName) names

theorem isAccess_bare (node : Node) : isAccess globalName node.bare = isAccess globalName node := by
  rw [isAccess, isAccess, Node.form_bare, Node.children_bare, List.head?_map]
  cases node.children.head? <;> simp

theorem isAccess_of_recast {tag inst : String} {node : Node}
    (access : isAccess globalName (recast settings tag inst node.bare) = true) :
    isAccess globalName node = true := by
  rcases recast_eq settings tag inst node.bare with
    ⟨-, same⟩ | ⟨check, left, right, -, -, -, replaced⟩
  · rwa [same, isAccess_rebuildBelow, isAccess_bare] at access
  · rw [replaced, isAccess, check.form_tree] at access
    cases access

section

variable {script checked : Script} {events : List Event} (sound : script.tree.Sound)
  (taken : ∀ name ∈ script.tree.names, name ∈ script.names)
  (program : script.tree.form = .program)
  (run : replace settings script = .ok (checked, events))

include sound taken program run

theorem replace_recast : checked.tree.bare =
    recast settings (helperName script true) (helperName script false) script.tree.bare :=
  (replace_follows sound taken (by simp [program]) run).1.tree

theorem replace_scope : checked.tree.scope ⊆ script.tree.scope := by
  have other : script.tree.bare.form ≠ .binary "instanceof" := by
    simp [program]
  rw [← Node.scope_bare, replace_recast sound taken program run, recast_of_ne settings _ _ other,
    ← script.tree.scope_bare]
  exact rebuildBelow_scope _ _ _

theorem exists_origin {site : Position} {node : Node} (here : checked.tree.at? site = some node)
    (touched : ∀ native, Access.touches globalName (helperName script native) node.bare = true) :
    ∃ origin old, script.tree.at? origin = some old ∧
      moved? settings script.tree origin = some site ∧
      node.bare = old.bare.rebuildBelow
        (recastNode settings (helperName script true) (helperName script false)) ∧
      checked.tree.boundAt site ⊆ script.tree.boundAt origin := by
  have root := replace_recast sound taken program run
  have there : checked.tree.bare.at? site = some node.bare := by
    rw [Node.at?_bare, here, Option.map_some]
  rw [root] at there
  have both : ∀ helper ∈ [helperName script true, helperName script false],
      Access.touches globalName helper node.bare = true := by
    simp [touched]
  obtain ⟨origin, bare, found, moved, rebuilt, less⟩ := recast_origin there both
  rw [← root, Node.boundAt_bare, Node.boundAt_bare] at less
  rw [moved?_bare] at moved
  rw [Node.at?_bare] at found
  obtain ⟨old, place, rfl⟩ := Option.map_eq_some_iff.mp found
  exact ⟨origin, old, place, moved, rebuilt, less⟩

/-- An access behind the type checks was moved there from an access, around which no fewer names are
bound. -/
theorem replace_origin (named : globalName ∈ script.names) {site : Position} {node : Node}
    (here : checked.tree.at? site = some node) (access : isAccess globalName node = true) :
    ∃ origin old, script.tree.at? origin = some old ∧ isAccess globalName old = true ∧
      moved? settings script.tree origin = some site ∧
      checked.tree.boundAt site ⊆ script.tree.boundAt origin := by
  have other (native : Bool) : helperName script native ≠ globalName := by
    intro same
    exact Text.fresh_not_mem script.names _ (same ▸ named)
  obtain ⟨origin, old, found, moved, rebuilt, less⟩ :=
    exists_origin sound taken program run here fun native =>
      Access.touches_of_isAccess (other native) ((isAccess_bare node).trans access)
  refine ⟨origin, old, found, ?_, moved, less⟩
  rw [← isAccess_bare, ← isAccess_rebuildBelow, ← rebuilt, isAccess_bare]
  exact access

theorem replace_assigns {name : String} (assigns : Access.Assigns globalName checked.tree name) :
    globalName ∈ script.names := by
  obtain ⟨site, operator, comments, left, right, here, access, -, -⟩ := assigns
  have touched (native : Bool) : Access.touches globalName (helperName script native)
      (Node.mk (.assign operator) comments [left, right]).bare = true := by
    simp [Access.touches, Node.bare, Node.bares, isAccess_bare, access]
  obtain ⟨origin, old, found, -, rebuilt, -⟩ :=
    exists_origin sound taken program run here touched
  have first := congrArg (fun node : Node => node.children[0]?) rebuilt
  simp only [Node.children_rebuildBelow, Node.children_bare, Node.children_mk, List.getElem?_map,
    Option.map_map, List.getElem?_cons_zero, Option.map_some] at first
  obtain ⟨target, place, same⟩ := Option.map_eq_some_iff.mp first.symm
  have assigned : isAccess globalName (recast settings (helperName script true)
      (helperName script false) target.bare) = true := by
    rw [show recast settings _ _ target.bare = left.bare from same, isAccess_bare]
    exact access
  have below : old.at? [0] = some target := by
    rw [Node.at?_cons, place, Option.bind_some, Node.at?_nil]
  exact taken _ (Node.mem_names_of_at? found
    (Node.mem_names_of_at? below (Access.globalName_mem_names (isAccess_of_recast assigned))))

end

end TypeCheck

/-! ## Shader chunks -/

namespace Chunks

open TypeCheck (moved?)

variable {settings : Settings} {globalName : String}

def entries (chunks : Ledger String) : List Node :=
  chunks.map fun chunk => chunkTree (Text.Quoted.quote chunk.1) (Text.Quoted.quote chunk.2)

theorem hoistedAll_append_entries (properties : List Node) (chunks : Ledger String) :
    Node.hoistedAll (properties ++ entries chunks) = Node.hoistedAll properties := by
  have silent (key value : String) : (chunkTree key value).hoisted = [] := rfl
  rw [Node.hoistedAll_eq_flatMap, List.flatMap_append, entries, List.flatMap_map,
    Node.hoistedAll_eq_flatMap]
  simp [silent]

theorem scope_fill {frame : Frame} (program : frame.form = .program) (properties : List Node)
    (chunks : Ledger String) :
    (frame.fill (properties ++ entries chunks)).scope = (frame.fill properties).scope := by
  rw [Node.scope_of_program (by exact program), Node.scope_of_program (by exact program)]
  simp [Frame.fill, Node.hoistedAll, Node.hoisted, hoistedAll_append_entries, Form.declaredCount,
    Form.isScope, Node.ownNames]

theorem not_access_chunkTree {key value : String} {p : Position} {node : Node}
    (here : (chunkTree key value).at? p = some node) : isAccess globalName node = false := by
  match p with
  | [] | [0] | [1] =>
      cases here
      rfl
  | 0 :: _ :: _ | 1 :: _ :: _ | (_ + 2) :: _ => cases here

theorem access_fill {frame : Frame} (program : frame.form = .program) {properties : List Node}
    {chunks : Ledger String} {p : Position} {node : Node}
    (here : (frame.fill (properties ++ entries chunks)).at? p = some node)
    (access : isAccess globalName node = true) :
    (frame.fill properties).at? p = some node ∧
      moved? settings (frame.fill (properties ++ entries chunks)) p =
        moved? settings (frame.fill properties) p ∧
      (frame.fill (properties ++ entries chunks)).boundAt p = (frame.fill properties).boundAt p := by
  have scope := scope_fill program properties chunks
  obtain ⟨form, operator, target, c₀, c₁, c₂, c₃, behindTable, behindValue, statements⟩ := frame
  obtain rfl : form = .program := program
  have flat (children : List Node) : (Node.mk .expression c₁ children).scope = [] ∧
      (Node.mk (.assign operator) c₂ children).scope = [] ∧
      (Node.mk .object c₃ children).scope = [] :=
    ⟨rfl, rfl, rfl⟩
  match p with
  | [] | [0] | [0, 0] | [0, 0, 1] =>
      cases here
      cases access
  | (_ + 1) :: _ | 0 :: (_ + 1) :: _ | 0 :: 0 :: 0 :: _ | 0 :: 0 :: (_ + 2) :: _ =>
      refine ⟨here, ?_⟩
      simpa [Frame.fill, moved?, TypeCheck.ofNode?, Node.boundAt, flat] using scope
  | 0 :: 0 :: 1 :: index :: rest =>
      simp only [Frame.fill, Node.at?_cons, Node.children_mk, List.getElem?_cons_zero,
        List.getElem?_cons_succ, Option.bind_some] at here
      obtain ⟨child, place, below⟩ := Option.bind_eq_some_iff.mp here
      by_cases old : index < properties.length
      · have same : (properties ++ entries chunks)[index]? = properties[index]? :=
          List.getElem?_append_left old
        refine ⟨?_, by
          simpa [Frame.fill, moved?, TypeCheck.ofNode?, Node.boundAt, flat, same] using scope⟩
        simp only [Frame.fill, Node.at?_cons, Node.children_mk, List.getElem?_cons_zero,
          List.getElem?_cons_succ, Option.bind_some]
        rw [← same, place]
        exact below
      · rw [List.getElem?_append_right (not_lt.mp old), entries, List.getElem?_map] at place
        obtain ⟨chunk, -, rfl⟩ := Option.map_eq_some_iff.mp place
        rw [not_access_chunkTree below] at access
        cases access

end Chunks

end ScriptModules
