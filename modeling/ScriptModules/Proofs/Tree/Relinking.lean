import Mathlib.Data.List.Induction
import Mathlib.Logic.Function.Basic
import ScriptModules.Fault
import ScriptModules.Proofs.Tree.Names
import ScriptModules.Proofs.Tree.Store

/-!
# Children replaced in a store

A cell is replaced in a parent by finding it in the slots of the parent, moving the comments in
front of it to the new cell and writing the new reference in its place (`Replaces`). Comments apart,
nothing but this one reference changes (`Relinked`). Where no cell is shared, the position of the
old cell then leads to the new one and all other positions lead where they led before
(`Relinked.exchanged`); and if the new cell shares nothing with the tree either, the store shows
what `Node.replaceChild?` gives (`Replaces.shows`). What is no child of the parent is refused, and
nothing changes at all.

With the walks of `Proofs.Tree.Store`, every pair of a walk can be replaced in this way, and nothing
else can.
-/

namespace ScriptModules.Tree

theorem Node.at?_inPlaceOf_cons (new old : Node) (index : Nat) (rest : Position) :
    (new.inPlaceOf old).at? (index :: rest) = new.at? (index :: rest) := by
  rw [at?_cons, at?_cons, children_inPlaceOf]

namespace Store

variable {Ref : Type} {store between last other : Store Ref} {root parent old new ref : Ref}
  {tree oldTree newTree : Node}

theorem Outlines.inPlaceOf (outlines : store.Outlines ref newTree) (oldTree : Node) :
    store.Outlines ref (newTree.inPlaceOf oldTree) := by
  intro p
  rw [outlines p]
  cases p with
  | nil => simp
  | cons index p => rw [Node.at?_inPlaceOf_cons]

/-! ## Comments in front of a cell -/

inductive Leads (store : Store Ref) : Ref → Option Ref → Prop
  | here {ref : Ref} (commented : (store ref).comments ≠ []) : Leads store ref (some ref)
  | nowhere {ref : Ref} (bare : (store ref).comments = []) (leaf : store.children ref = []) :
      Leads store ref none
  | down {ref child : Ref} {rest : List Ref} {found : Option Ref}
      (bare : (store ref).comments = []) (first : store.children ref = child :: rest)
      (below : Leads store child found) : Leads store ref found

theorem Leads.unique {found found' : Option Ref} (leads : store.Leads ref found)
    (too : store.Leads ref found') : found' = found := by
  induction leads with
  | here commented =>
      cases too with
      | here => rfl
      | nowhere bare => exact absurd bare commented
      | down bare => exact absurd bare commented
  | nowhere bare leaf =>
      cases too with
      | here commented => exact absurd bare commented
      | nowhere => rfl
      | down _ first => cases leaf.symm.trans first
  | down bare first _ ih =>
      cases too with
      | here commented => exact absurd bare commented
      | nowhere _ leaf => cases leaf.symm.trans first
      | down _ first' below =>
          cases first.symm.trans first'
          exact ih below

theorem exists_leads (store : Store Ref) : ∀ (node : Node) {ref : Ref},
    store.Outlines ref node → ∃ found, store.Leads ref found
  | .mk form comments [], ref, outlines => by
      have leaf : store.children ref = [] := List.forall₂_nil_right_iff.mp outlines.children
      by_cases bare : (store ref).comments = []
      · exact ⟨none, .nowhere bare leaf⟩
      · exact ⟨some ref, .here bare⟩
  | .mk form comments (first :: nodes), ref, outlines => by
      obtain ⟨child, rest, below, -, parts⟩ := List.forall₂_cons_right_iff.mp outlines.children
      by_cases bare : (store ref).comments = []
      · obtain ⟨found, leads⟩ := exists_leads store first below
        exact ⟨found, .down bare parts leads⟩
      · exact ⟨some ref, .here bare⟩

theorem Leads.exists_refAt {source : Ref} (leads : store.Leads ref (some source)) :
    ∃ p, store.refAt ref p = some source := by
  generalize target : some source = found at leads
  induction leads with
  | here =>
      cases target
      exact ⟨[], store.refAt_nil source⟩
  | nowhere => cases target
  | down _ first _ ih =>
      obtain ⟨p, there⟩ := ih target
      refine ⟨0 :: p, ?_⟩
      rw [refAt, first]
      exact there

theorem Shows.comments_eq (shows : store.Shows ref tree) :
    (store ref).comments = tree.comments := by
  simpa using shows.comments []

theorem Leads.leadingComments {found : Option Ref} (leads : store.Leads ref found)
    (shows : store.Shows ref tree) :
    (found.elim [] fun source => (store source).comments) = tree.leadingComments := by
  induction leads generalizing tree with
  | here commented =>
      have same := shows.comments_eq
      obtain ⟨form, comments, nodes⟩ := tree
      cases comments with
      | nil => exact absurd same commented
      | cons comment comments =>
          rw [Node.leadingComments]
          exact same
  | nowhere bare leaf =>
      have same := shows.comments_eq
      have children := shows.outlines.children
      obtain ⟨form, comments, nodes⟩ := tree
      rw [bare] at same
      rw [leaf, List.forall₂_nil_left_iff] at children
      cases same
      cases children
      rfl
  | down bare first _ ih =>
      have same := shows.comments_eq
      obtain ⟨node, there, below⟩ := shows.below (p := [0]) (by rw [refAt, first]; rfl)
      obtain ⟨form, comments, nodes⟩ := tree
      rw [bare] at same
      cases same
      cases nodes with
      | nil => cases there
      | cons child nodes =>
          cases (Node.at?_nil child).symm.trans there
          rw [Node.leadingComments]
          exact ih below

/-! ## A child that was replaced -/

structure Relinked (store : Store Ref) (parent old new : Ref) (last : Store Ref) : Prop where
  swaps : Swaps old new (store.children parent) (last.children parent)
  children_eq : ∀ ref, ref ≠ parent → last.children ref = store.children ref
  form_eq : ∀ ref, (last ref).form = (store ref).form

/-- Below a root the cell at a position is another one, all other positions lead to the cell they
led to, and all cells have the forms they had. -/
structure Exchanged (store last : Store Ref) (root : Ref) (p : Position) (new : Ref) : Prop where
  here : last.refAt root p = some new
  elsewhere : ∀ q, ¬p <+: q → last.refAt root q = store.refAt root q
  form_eq : ∀ ref, (last ref).form = (store ref).form

namespace Relinked

variable {above p q : Position} {index : Nat}

theorem refAt_of_away (relinked : store.Relinked parent old new last)
    (away : ∀ q, store.refAt ref q ≠ some parent) (q : Position) :
    last.refAt ref q = store.refAt ref q := by
  induction q generalizing ref with
  | nil => rw [refAt_nil, refAt_nil]
  | cons index q ih =>
      have other : ref ≠ parent := by
        rintro rfl
        exact away [] (store.refAt_nil ref)
      rw [refAt, refAt, relinked.children_eq ref other]
      cases child : (store.children ref)[index]? with
      | none => rfl
      | some below =>
          refine ih fun q there => away (index :: q) ?_
          rw [refAt, child]
          exact there

theorem children_parent (relinked : store.Relinked parent old new last)
    (unshared : store.Unshared root) (here : store.refAt root above = some parent)
    (place : store.refAt root (above ++ [index]) = some old) :
    last.children parent = (store.children parent).set index new := by
  obtain ⟨front, back, before, after⟩ := relinked.swaps
  have place' : store.refAt root (above ++ [front.length]) = some old := by
    rw [refAt_snoc here, before]
    simp
  obtain rfl : front.length = index := by
    simpa using unshared _ _ old place' place
  rw [before, after]
  simp

theorem refAt_of_not_prefix (relinked : store.Relinked parent old new last)
    (unshared : store.Unshared root) (here : store.refAt root above = some parent)
    (place : store.refAt root (above ++ [index]) = some old) (q : Position)
    (outside : ¬above ++ [index] <+: q) : last.refAt root q = store.refAt root q := by
  induction q using List.reverseRecOn with
  | nil => rw [refAt_nil, refAt_nil]
  | append_singleton q i ih =>
      have same := ih fun inside => outside (inside.trans (List.prefix_append q [i]))
      cases there : store.refAt root q with
      | none => rw [refAt_append, refAt_append, same, there]; rfl
      | some below =>
          rw [refAt_snoc (same.trans there), refAt_snoc there]
          by_cases own : below = parent
          · subst own
            -- the parent stands nowhere else, so this is another one of its children
            obtain rfl := unshared _ _ below here there
            have other : index ≠ i := by
              rintro rfl
              exact outside (List.prefix_refl _)
            rw [relinked.children_parent unshared here place, List.getElem?_set_ne other]
          · rw [relinked.children_eq below own]

theorem exchanged (relinked : store.Relinked parent old new last)
    (unshared : store.Unshared root) (here : store.refAt root above = some parent)
    (place : store.refAt root (above ++ [index]) = some old) :
    Exchanged store last root (above ++ [index]) new where
  here := by
    have longer : ¬above ++ [index] <+: above := by
      intro inside
      have less := inside.length_le
      rw [List.length_append, List.length_singleton] at less
      omega
    have stays := (relinked.refAt_of_not_prefix unshared here place above longer).trans here
    have bound : index < (store.children parent).length := by
      rw [refAt_snoc here] at place
      exact (List.getElem?_eq_some_iff.mp place).1
    rw [refAt_snoc stays, relinked.children_parent unshared here place]
    exact List.getElem?_set_self bound
  elsewhere := relinked.refAt_of_not_prefix unshared here place
  form_eq := relinked.form_eq

end Relinked

theorem Exchanged.outlines {p : Position} (exchanged : Exchanged store last root p new)
    (stays : ∀ q, last.refAt new q = store.refAt new q) (outlines : store.Outlines root tree)
    (place : store.refAt root p = some old) (outlines' : store.Outlines new newTree) :
    last.Outlines root (tree.modifyAt (fun _ => newTree) p) := by
  intro q
  rw [funext exchanged.form_eq]
  by_cases inside : p <+: q
  · obtain ⟨rest, rfl⟩ := inside
    obtain ⟨node, there, -⟩ := outlines.below place
    rw [refAt_append, exchanged.here, Option.bind_some, Node.at?_modifyAt_append, there,
      Option.bind_some, stays]
    exact outlines' rest
  · rw [exchanged.elsewhere q inside, Node.form_at?_modifyAt _ _ inside]
    exact outlines q

/-! ## Replacing a child -/

def Separate (store : Store Ref) (root new : Ref) : Prop :=
  ∀ p q ref, store.refAt root p = some ref → store.refAt new q ≠ some ref

theorem separate_of_stray (leaf : store.children new = []) (stray : ∀ ref, new ∉ store.children ref)
    (other : root ≠ new) : store.Separate root new := by
  rintro p (_ | ⟨index, q⟩) ref here there
  · cases (store.refAt_nil new).symm.trans there
    rcases List.eq_nil_or_concat p with rfl | ⟨above, index, rfl⟩
    · exact other (Option.some.inj ((store.refAt_nil root).symm.trans here))
    · rw [List.concat_eq_append, refAt_append] at here
      obtain ⟨parent, place, last⟩ := Option.bind_eq_some_iff.mp here
      rw [← List.nil_append [index], refAt_snoc (store.refAt_nil parent)] at last
      exact stray parent (List.mem_of_getElem? last)
  · rw [refAt, leaf] at there
    cases there

section

variable [DecidableEq Ref]

def moveComments (store : Store Ref) (source new : Ref) : Store Ref := fun ref =>
  { store ref with
    comments :=
      if ref = new then (store source).comments
      else if ref = source then []
      else (store ref).comments }

inductive Takes (store : Store Ref) (old new : Ref) : Store Ref → Prop
  | own (commented : (store new).comments ≠ []) : Takes store old new store
  | nothing (bare : (store new).comments = []) (leads : store.Leads old none) :
      Takes store old new store
  | moved {source : Ref} (bare : (store new).comments = [])
      (leads : store.Leads old (some source)) :
      Takes store old new (store.moveComments source new)

/-- A child of a cell is replaced, or refused with the store left as it is. -/
inductive Replaces (store : Store Ref) (parent old new : Ref) :
    Except Fault Unit → Store Ref → Prop
  | found {between : Store Ref} {cell : Cell Ref}
      (search : (store parent).relink old new ≠ none) (takes : store.Takes old new between)
      (relinked : (between parent).relink old new = some cell) :
      Replaces store parent old new (.ok ()) (Function.update between parent cell)
  | missing (search : (store parent).relink old new = none) :
      Replaces store parent old new
        (.error (.notAChild (store old).form.typeName (store parent).form.typeName)) store

theorem Takes.form_eq (takes : store.Takes old new between) (ref : Ref) :
    (between ref).form = (store ref).form := by
  cases takes <;> rfl

theorem Takes.children_eq (takes : store.Takes old new between) (ref : Ref) :
    between.children ref = store.children ref := by
  cases takes <;> rfl

theorem Takes.unique (takes : store.Takes old new between) (too : store.Takes old new other) :
    other = between := by
  cases takes with
  | own commented =>
      cases too with
      | own => rfl
      | nothing => rfl
      | moved bare => exact absurd bare commented
  | nothing bare leads =>
      cases too with
      | own => rfl
      | nothing => rfl
      | moved _ leads' => cases leads.unique leads'
  | moved bare leads =>
      cases too with
      | own commented => exact absurd bare commented
      | nothing _ leads' => cases leads.unique leads'
      | moved _ leads' =>
          cases leads.unique leads'
          rfl

theorem exists_takes (outlines : store.Outlines old tree) (new : Ref) :
    ∃ between, store.Takes old new between := by
  by_cases bare : (store new).comments = []
  · obtain ⟨found, leads⟩ := exists_leads store tree outlines
    cases found with
    | none => exact ⟨store, .nothing bare leads⟩
    | some source => exact ⟨store.moveComments source new, .moved bare leads⟩
  · exact ⟨store, .own bare⟩

theorem Takes.comments_new (takes : store.Takes old new between) (shows : store.Shows old oldTree)
    (shows' : store.Shows new newTree) :
    (between new).comments = (newTree.inPlaceOf oldTree).comments := by
  have same := shows'.comments_eq
  obtain ⟨form, comments, nodes⟩ := newTree
  rw [Node.comments_mk] at same
  rw [Node.inPlaceOf, Node.comments_mk, ← same]
  cases takes with
  | own commented =>
      rw [if_neg (by simpa using commented), Node.comments_mk, same]
  | nothing bare leads =>
      rw [bare, ← leads.leadingComments shows]
      rfl
  | moved bare leads =>
      rw [bare, ← leads.leadingComments shows]
      exact if_pos rfl

theorem Takes.comments_of_away (takes : store.Takes old new between) (ne : ref ≠ new)
    (away : ∀ p, store.refAt old p ≠ some ref) : (between ref).comments = (store ref).comments := by
  cases takes with
  | own => rfl
  | nothing => rfl
  | @moved source _ leads =>
      obtain ⟨p, there⟩ := leads.exists_refAt
      have other : ref ≠ source := by
        rintro rfl
        exact away p there
      simp only [moveComments, if_neg ne, if_neg other]

theorem Replaces.relinked (replaces : store.Replaces parent old new (.ok ()) last) :
    store.Relinked parent old new last ∧
      ∃ between, store.Takes old new between ∧
        ∀ ref, (last ref).comments = (between ref).comments := by
  cases replaces with
  | @found between cell _ takes relinked =>
      obtain ⟨form, comments, swaps⟩ := Cell.relink_eq_some relinked
      refine ⟨⟨?_, fun ref ne => ?_, fun ref => ?_⟩, between, takes, fun ref => ?_⟩
      · rw [← takes.children_eq]
        simpa only [children, Function.update_self] using swaps
      · rw [← takes.children_eq]
        simp only [children, Function.update_of_ne ne]
      · rw [← takes.form_eq]
        by_cases own : ref = parent
        · subst own
          rw [Function.update_self, form]
        · rw [Function.update_of_ne own]
      · by_cases own : ref = parent
        · subst own
          rw [Function.update_self, comments]
        · rw [Function.update_of_ne own]

theorem Replaces.unique {outcome outcome' : Except Fault Unit}
    (replaces : store.Replaces parent old new outcome last)
    (too : store.Replaces parent old new outcome' other) : outcome' = outcome ∧ other = last := by
  cases replaces with
  | found search takes relinked =>
      cases too with
      | found _ takes' relinked' =>
          cases takes.unique takes'
          cases relinked.symm.trans relinked'
          exact ⟨rfl, rfl⟩
      | missing absent => exact absurd absent search
  | missing absent =>
      cases too with
      | found search => exact absurd absent search
      | missing => exact ⟨rfl, rfl⟩

theorem exists_replaces (child : old ∈ store.children parent) (outlines : store.Outlines old tree)
    (new : Ref) : ∃ last, store.Replaces parent old new (.ok ()) last := by
  obtain ⟨between, takes⟩ := exists_takes outlines new
  have search : (store parent).relink old new ≠ none := fun absent =>
    Cell.relink_eq_none_iff.mp absent child
  have search' : (between parent).relink old new ≠ none := by
    intro absent
    rw [← takes.children_eq] at child
    exact Cell.relink_eq_none_iff.mp absent child
  obtain ⟨cell, relinked⟩ := Option.ne_none_iff_exists'.mp search'
  exact ⟨_, .found search takes relinked⟩

theorem replaces_iff_of_not_mem (absent : old ∉ store.children parent) (new : Ref)
    (outcome : Except Fault Unit) (last : Store Ref) :
    store.Replaces parent old new outcome last ↔
      outcome = .error (.notAChild (store old).form.typeName (store parent).form.typeName) ∧
        last = store := by
  have missing : store.Replaces parent old new _ store :=
    .missing (Cell.relink_eq_none_iff.mpr absent)
  constructor
  · exact missing.unique
  · rintro ⟨rfl, rfl⟩
    exact missing

/-- A new cell that shares nothing with the tree ends up in it as a node does in `Node.modifyAt`,
comments included. -/
theorem Replaces.shows {above : Position} {index : Nat}
    (replaces : store.Replaces parent old new (.ok ()) last) (shows : store.Shows root tree)
    (unshared : store.Unshared root) (here : store.refAt root above = some parent)
    (place : store.refAt root (above ++ [index]) = some old)
    (there : tree.at? (above ++ [index]) = some oldTree) (shows' : store.Shows new newTree)
    (unshared' : store.Unshared new) (separate : store.Separate root new) :
    last.Shows root
      (tree.modifyAt (fun _ => newTree.inPlaceOf oldTree) (above ++ [index])) := by
  obtain ⟨relinked, between, takes, comments⟩ := replaces.relinked
  have exchanged := relinked.exchanged unshared here place
  have stays := relinked.refAt_of_away fun q => separate above q parent here
  obtain ⟨node, there', below⟩ := shows.below place
  cases there.symm.trans there'
  -- what is below the old cell is below the root too, and at no other position there
  have under {p : Position} {ref : Ref} (inner : store.refAt old p = some ref) :
      store.refAt root (above ++ [index] ++ p) = some ref := by
    rw [refAt_append, place]
    exact inner
  refine ⟨exchanged.outlines stays shows.outlines place (shows'.outlines.inPlaceOf _), fun q => ?_⟩
  rw [funext comments]
  by_cases inside : above ++ [index] <+: q
  · obtain ⟨rest, rfl⟩ := inside
    rw [refAt_append, exchanged.here, Option.bind_some, Node.at?_modifyAt_append, there,
      Option.bind_some, stays]
    cases rest with
    | nil => simpa using takes.comments_new below shows'
    | cons i rest =>
        rw [Node.at?_inPlaceOf_cons, ← shows'.comments]
        refine Option.map_congr fun ref inner => takes.comments_of_away ?_ fun p shared => ?_
        · rintro rfl
          cases unshared' _ _ ref inner (store.refAt_nil ref)
        · exact separate _ _ ref (under shared) inner
  · rw [exchanged.elsewhere q inside, Node.comments_at?_modifyAt _ _ inside, ← shows.comments]
    refine Option.map_congr fun ref outer => takes.comments_of_away ?_ fun p shared => ?_
    · rintro rfl
      exact separate q [] ref outer (store.refAt_nil ref)
    · exact inside ⟨p, unshared _ _ ref (under shared) outer⟩

/-- A visited cell gives way to another one. -/
structure Replaceable (store : Store Ref) (root : Ref) (tree : Node) (visit : Visit)
    (parent old new : Ref) (last : Store Ref) : Prop where
  replaces : ∀ outcome other, store.Replaces parent old new outcome other ↔
    outcome = .ok () ∧ other = last
  exchanged : Exchanged store last root visit.position new
  /-- If the parent is not below the new cell, there is a tree afterwards. -/
  outlines : ∀ newTree, store.Outlines new newTree → (∀ q, store.refAt new q ≠ some parent) →
    last.Outlines root (tree.modifyAt (fun _ => newTree) visit.position)
  /-- If the new cell is no part of the tree, that is the one of `Node.replaceChild?`. -/
  shows : ∀ newTree, store.Shows new newTree → store.Unshared new → store.Separate root new →
    ∃ result, tree.replaceChild? visit.above visit.position newTree = some result ∧
      last.Shows root result

theorem exists_replaceable {visit : Visit} (shows : store.Shows root tree)
    (unshared : store.Unshared root) (met : visit ∈ tree.walk)
    (here : store.refAt root visit.above = some parent)
    (place : store.refAt root visit.position = some old) (new : Ref) :
    ∃ last, store.Replaceable root tree visit parent old new last := by
  have there := Node.at?_position_of_mem_walk met
  obtain ⟨node, there', below⟩ := shows.outlines.below place
  have child : old ∈ store.children parent := by
    rw [Visit.position, refAt_snoc here] at place
    exact List.mem_of_getElem? place
  obtain ⟨last, replaces⟩ := exists_replaces child below new
  obtain ⟨relinked, -⟩ := replaces.relinked
  have exchanged := relinked.exchanged unshared here place
  refine ⟨last, fun outcome other => ⟨replaces.unique, ?_⟩, exchanged, ?_, ?_⟩
  · rintro ⟨rfl, rfl⟩
    exact replaces
  · intro newTree outlines away
    exact exchanged.outlines (relinked.refAt_of_away away) shows.outlines place outlines
  · intro newTree shows' unshared' separate
    exact ⟨_, Node.replaceChild?_of_mem_walk met newTree,
      replaces.shows shows unshared here place there shows' unshared' separate⟩

/-- A walk over a tree without shared cells ends with the pairs of the recursion in pre-order, every
cell below the root once, and these are what `Node.walk` visits. Every pair of it can be replaced.
What is no child of a cell is refused there, in the store with nothing changed and by
`Node.replaceChild?`. -/
theorem walk_exchanges (shows : store.Shows root tree) (unshared : store.Unshared root) :
    (∃ pairs, (∀ others, store.Walks root others ↔ others = pairs) ∧
      store.Meets root pairs (Node.visits [] tree) ∧ tree.walk = Node.visits [] tree ∧
      (pairs.map Prod.snd).Nodup ∧
      (∀ parent ref, (parent, ref) ∈ pairs ↔
        ∃ p, store.refAt root p = some parent ∧ ref ∈ store.children parent) ∧
      ∀ parent old, (parent, old) ∈ pairs → ∃ visit ∈ tree.walk,
        store.refAt root visit.above = some parent ∧ store.refAt root visit.position = some old ∧
          ∀ new, ∃ last, store.Replaceable root tree visit parent old new last) ∧
    (∀ parent old, old ∉ store.children parent → ∀ new outcome last,
      store.Replaces parent old new outcome last ↔
        outcome = .error (.notAChild (store old).form.typeName (store parent).form.typeName) ∧
          last = store) ∧
    ∀ above p, (∀ visit ∈ tree.walk, ¬(visit.above = above ∧ visit.position = p)) →
      ∀ newTree, tree.replaceChild? above p newTree = none := by
  refine ⟨?_, fun parent old absent => replaces_iff_of_not_mem absent,
    fun above p => Node.replaceChild?_eq_none⟩
  obtain ⟨pairs, walks, meets⟩ := exists_walks shows.outlines
  refine ⟨pairs, fun others => ⟨walks.unique, ?_⟩, tree.walk_eq ▸ meets, tree.walk_eq,
    nodup_pairs unshared meets, fun parent ref => mem_pairs_iff shows.outlines meets, ?_⟩
  · rintro rfl
    exact walks
  · intro parent old member
    obtain ⟨visit, met, here, place⟩ := (mem_iff_of_meets meets).mp member
    exact ⟨visit, met, here, place, exists_replaceable shows unshared met here place⟩

end

def sumCells : Store (Fin 6)
  | 0 =>
    { form := .program, comments := [], slots := [("statements", .many [some 1])]
      order := ["statements"], distinct := by decide, complete := .refl _ }
  | 1 =>
    { form := .expression, comments := [], slots := [("expr", .one (some 2))]
      order := ["expr"], distinct := by decide, complete := .refl _ }
  | 2 =>
    { form := .binary "+", comments := []
      slots := [("left", .one (some 3)), ("right", .one (some 4))]
      order := ["left", "right"], distinct := by decide, complete := .refl _ }
  | 3 =>
    { form := .identifier "a", comments := ["// first"], slots := [], order := []
      distinct := by decide, complete := .refl _ }
  | 4 =>
    { form := .identifier "b", comments := [], slots := [], order := []
      distinct := by decide, complete := .refl _ }
  | 5 =>
    { form := .identifier "c", comments := [], slots := [], order := []
      distinct := by decide, complete := .refl _ }

def sumWith (first : Node) : Node :=
  .of (.binary "+") [first, .identifier "b"]

def sumTrees : Fin 6 → Node
  | 0 => .program [.of .expression [sumWith (.mk (.identifier "a") ["// first"] [])]]
  | 1 => .of .expression [sumWith (.mk (.identifier "a") ["// first"] [])]
  | 2 => sumWith (.mk (.identifier "a") ["// first"] [])
  | 3 => .mk (.identifier "a") ["// first"] []
  | 4 => .identifier "b"
  | 5 => .identifier "c"

/-- Where the cells stand below the program, and a place of its own for the last. -/
def sumPlaces : Fin 6 → Position
  | 0 => []
  | 1 => [0]
  | 2 => [0, 0]
  | 3 => [0, 0, 0]
  | 4 => [0, 0, 1]
  | 5 => [1]

/-- A walk over `a + b;`; then `c` takes the place of `a` and its comment, and is refused to give
way to `a` in the statement, where it does not stand. -/
theorem walk_exchanges_sumCells :
    sumCells.Walks 0 [(0, 1), (1, 2), (2, 3), (2, 4)] ∧
      (∃ last, sumCells.Replaces 2 3 5 (.ok ()) last ∧ last.Shows 0
        (.program [.of .expression [sumWith (.mk (.identifier "c") ["// first"] [])]])) ∧
      sumCells.Replaces 1 5 3 (.error (.notAChild "Identifier" "ExprStatement")) sumCells := by
  have shows : ∀ ref, sumCells.Shows ref (sumTrees ref) :=
    shows_of_reads (by decide)
  have unshared : ∀ ref, sumCells.Unshared ref := by
    have placed : ∀ ref, ∀ entry ∈ (sumCells.children ref).zipIdx,
        sumPlaces entry.1 = sumPlaces ref ++ [entry.2] := by decide
    exact unshared_of_places fun ref index child first =>
      placed ref (child, index) (List.mk_mem_zipIdx_iff_getElem?.mpr first)
  have separate : sumCells.Separate 0 5 := separate_of_stray rfl (by decide) (by decide)
  obtain ⟨⟨pairs, walks, meets, -, -, -, replaceable⟩, refused, -⟩ :=
    walk_exchanges (shows 0) (unshared 0)
  obtain rfl : pairs = [(0, 1), (1, 2), (2, 3), (2, 4)] := by
    have injective : Function.Injective fun pair : Fin 6 × Fin 6 => (some pair.1, some pair.2) := by
      rintro ⟨parent, ref⟩ ⟨parent', ref'⟩ same
      simpa using same
    exact List.map_injective_iff.mpr injective (meets.trans (by decide))
  refine ⟨(walks _).mpr rfl, ?_, (refused 1 5 (by decide) 3 _ _).mpr ⟨rfl, rfl⟩⟩
  obtain ⟨visit, met, here, place, replaced⟩ := replaceable 2 3 (by decide)
  obtain ⟨last, replaces, -, -, showsLast⟩ := replaced 5
  obtain ⟨result, computed, after⟩ := showsLast _ (shows 5) (unshared 5) separate
  rw [unshared 0 _ [0, 0] 2 here rfl, unshared 0 _ [0, 0, 0] 3 place rfl] at computed
  cases computed
  exact ⟨last, (replaces _ _).mpr ⟨rfl, rfl⟩, after⟩

end Store

end ScriptModules.Tree
