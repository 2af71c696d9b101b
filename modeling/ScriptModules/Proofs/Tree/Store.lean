import Mathlib.Data.List.Forall2
import ScriptModules.Proofs.Ledger
import ScriptModules.Proofs.Tree.Exchange

/-!
# Trees in a store

A tree may also be kept as cells that refer to each other. A cell has slots with names, and a slot
refers to one cell, to several or to none. The children of a cell are listed slot by slot, in an
order of its own; a child is searched in the slots as they stand. Both ways lead to the same cells
(`Cell.relink_eq_none_iff`).

A position leads from a cell to another (`refAt`). A store shows a tree below a cell if both agree
at every position (`Shows`), and shares nothing there if no cell has two positions (`Unshared`);
every tree is kept in such a store (`ofTree`). A walk over cells with a stack makes the visits of
`Node.walk`, which are those of the recursion `Node.visits` (`exists_walks`).
-/

namespace ScriptModules.Tree

def Swaps {α : Type} (old new : α) (items items' : List α) : Prop :=
  ∃ front back, items = front ++ old :: back ∧ items' = front ++ new :: back

theorem Swaps.within {α : Type} {old new : α} {items items' : List α}
    (swaps : Swaps old new items items') (front back : List α) :
    Swaps old new (front ++ items ++ back) (front ++ items' ++ back) := by
  obtain ⟨before, behind, rfl, rfl⟩ := swaps
  exact ⟨front ++ before, behind ++ back, by simp, by simp⟩

def changeFirst {α : Type} (change : α → Option α) : List α → Option (List α)
  | [] => none
  | item :: items =>
    match change item with
    | some changed => some (changed :: items)
    | none => (changeFirst change items).map (item :: ·)

theorem changeFirst_eq_some {α : Type} {change : α → Option α} {items items' : List α}
    (changes : changeFirst change items = some items') :
    ∃ front item changed back, items = front ++ item :: back ∧ change item = some changed ∧
      items' = front ++ changed :: back := by
  induction items generalizing items' with
  | nil => cases changes
  | cons item items ih =>
      rw [changeFirst] at changes
      split at changes
      · rename_i changed here
        cases changes
        exact ⟨[], item, changed, items, rfl, here, rfl⟩
      · obtain ⟨rest, later, rfl⟩ := Option.map_eq_some_iff.mp changes
        obtain ⟨front, other, changed, back, rfl, here, rfl⟩ := ih later
        exact ⟨item :: front, other, changed, back, rfl, here, rfl⟩

theorem changeFirst_eq_none_iff {α : Type} {change : α → Option α} {items : List α} :
    changeFirst change items = none ↔ ∀ item ∈ items, change item = none := by
  induction items with
  | nil => simp [changeFirst]
  | cons item items ih =>
      rw [changeFirst, List.forall_mem_cons, ← ih]
      cases change item <;> simp

variable {Ref : Type}

/-! ## Cells -/

/-- What a slot of a cell refers to. Any place in it may be empty. -/
inductive Slot (Ref : Type) where
  | one (item : Option Ref)
  | many (items : List (Option Ref))

namespace Slot

def items : Slot Ref → List Ref
  | one item => item.toList
  | many items => items.filterMap id

section

variable [DecidableEq Ref]

def relink (old new : Ref) : Slot Ref → Option (Slot Ref)
  | one item => if item = some old then some (one (some new)) else none
  | many items =>
    (changeFirst (fun item => if item = some old then some (some new) else none) items).map many

theorem relink_eq_some {old new : Ref} {slot slot' : Slot Ref}
    (relinked : slot.relink old new = some slot') : Swaps old new slot.items slot'.items := by
  cases slot with
  | one item =>
      obtain ⟨rfl, same⟩ := Option.ite_none_right_eq_some.mp relinked
      cases same
      exact ⟨[], [], rfl, rfl⟩
  | many items =>
      obtain ⟨items', changes, rfl⟩ := Option.map_eq_some_iff.mp relinked
      obtain ⟨front, item, changed, back, rfl, here, rfl⟩ := changeFirst_eq_some changes
      obtain ⟨rfl, same⟩ := Option.ite_none_right_eq_some.mp here
      cases same
      exact ⟨front.filterMap id, back.filterMap id, by simp [Slot.items], by simp [Slot.items]⟩

theorem relink_eq_none_iff {old new : Ref} {slot : Slot Ref} :
    slot.relink old new = none ↔ old ∉ slot.items := by
  cases slot with
  | one item => simp [relink, Slot.items]
  | many items =>
      have none_iff (item : Option Ref) :
          (if item = some old then some (some new) else none) = none ↔ item ≠ some old := by simp
      rw [relink, Option.map_eq_none_iff, changeFirst_eq_none_iff]
      simp only [none_iff, Slot.items, List.mem_filterMap, id_eq, exists_eq_right]
      exact ⟨fun others member => others _ member rfl, fun absent item member same =>
        absent (same ▸ member)⟩

end

end Slot

/-- A node as a cell of a store. Its comments are texts and no cells. -/
structure Cell (Ref : Type) where
  form : Form
  comments : List String
  /-- The slots in the order in which a child is searched. -/
  slots : Ledger (Slot Ref)
  /-- The names of the slots in the order in which the children are listed. -/
  order : List String
  distinct : order.Nodup
  complete : order.Perm slots.names

namespace Cell

def itemsAt (slots : Ledger (Slot Ref)) (name : String) : List Ref :=
  ((slots.get? name).map Slot.items).getD []

def children (cell : Cell Ref) : List Ref :=
  cell.order.flatMap (itemsAt cell.slots)

theorem mem_children {cell : Cell Ref} {ref : Ref} :
    ref ∈ cell.children ↔ ∃ entry ∈ cell.slots, ref ∈ entry.2.items := by
  have distinct : cell.slots.names.Nodup := cell.complete.nodup_iff.mp cell.distinct
  rw [children, List.mem_flatMap]
  constructor
  · rintro ⟨name, -, member⟩
    rw [itemsAt] at member
    cases found : cell.slots.get? name with
    | none =>
        rw [found] at member
        cases member
    | some slot =>
        rw [found] at member
        exact ⟨(name, slot), Ledger.mem_of_get? found, member⟩
  · rintro ⟨⟨name, slot⟩, entry, member⟩
    refine ⟨name, cell.complete.mem_iff.mpr (List.mem_map_of_mem entry), ?_⟩
    rw [itemsAt, Ledger.get?_of_mem distinct entry]
    exact member

theorem itemsAt_of_ne {front back : Ledger (Slot Ref)} {name other : String}
    (ne : other ≠ name) (slot slot' : Slot Ref) :
    itemsAt (front ++ (name, slot) :: back) other =
      itemsAt (front ++ (name, slot') :: back) other := by
  simp [itemsAt, Ledger.get?, List.find?_append, Ne.symm ne]

section

variable [DecidableEq Ref]

def relinkSlots (old new : Ref) (slots : Ledger (Slot Ref)) : Option (Ledger (Slot Ref)) :=
  changeFirst (fun entry => (entry.2.relink old new).map (entry.1, ·)) slots

theorem relinkSlots_eq_some {old new : Ref} {slots slots' : Ledger (Slot Ref)}
    (relinked : relinkSlots old new slots = some slots') :
    ∃ front name slot slot' back, slots = front ++ (name, slot) :: back ∧
      Swaps old new slot.items slot'.items ∧ slots' = front ++ (name, slot') :: back := by
  obtain ⟨front, ⟨name, slot⟩, changed, back, rfl, here, rfl⟩ := changeFirst_eq_some relinked
  obtain ⟨slot', within, rfl⟩ := Option.map_eq_some_iff.mp here
  exact ⟨front, name, slot, slot', back, rfl, Slot.relink_eq_some within, rfl⟩

theorem names_relinkSlots {old new : Ref} {slots slots' : Ledger (Slot Ref)}
    (relinked : relinkSlots old new slots = some slots') : slots'.names = slots.names := by
  obtain ⟨front, name, slot, slot', back, rfl, -, rfl⟩ := relinkSlots_eq_some relinked
  simp [Ledger.names]

def relink (old new : Ref) (cell : Cell Ref) : Option (Cell Ref) :=
  match relinked : relinkSlots old new cell.slots with
  | none => none
  | some slots =>
    some { cell with slots, complete := names_relinkSlots relinked ▸ cell.complete }

theorem relink_eq_some {old new : Ref} {cell cell' : Cell Ref}
    (relinked : cell.relink old new = some cell') :
    cell'.form = cell.form ∧ cell'.comments = cell.comments ∧
      Swaps old new cell.children cell'.children := by
  rw [relink] at relinked
  split at relinked
  · cases relinked
  · rename_i slots' found
    cases relinked
    refine ⟨rfl, rfl, ?_⟩
    have distinct : cell.slots.names.Nodup := cell.complete.nodup_iff.mp cell.distinct
    have distinct' := names_relinkSlots found ▸ distinct
    obtain ⟨front, name, slot, slot', back, parts, swaps, rfl⟩ := relinkSlots_eq_some found
    have entry : (name, slot) ∈ cell.slots := by simp [parts]
    have entry' : (name, slot') ∈ front ++ (name, slot') :: back := by simp
    have here : itemsAt cell.slots name = slot.items := by
      rw [itemsAt, Ledger.get?_of_mem distinct entry]
      rfl
    have here' : itemsAt (front ++ (name, slot') :: back) name = slot'.items := by
      rw [itemsAt, Ledger.get?_of_mem distinct' entry']
      rfl
    -- the name stands in the order once, and what is listed for the other names stays
    obtain ⟨first, last, order⟩ := List.append_of_mem
      (cell.complete.mem_iff.mpr (List.mem_map_of_mem entry))
    have once := List.nodup_middle.mp (order ▸ cell.distinct)
    have others {names : List String} (subset : names ⊆ first ++ last) :
        names.flatMap (itemsAt (front ++ (name, slot') :: back)) =
          names.flatMap (itemsAt cell.slots) := by
      refine List.flatMap_congr fun other member => ?_
      rw [parts]
      refine itemsAt_of_ne ?_ _ _
      rintro rfl
      exact (List.nodup_cons.mp once).1 (subset member)
    simp only [children, order, List.flatMap_append, List.flatMap_cons, here, here']
    rw [others (List.subset_append_left _ _), others (List.subset_append_right _ _),
      ← List.append_assoc, ← List.append_assoc]
    exact swaps.within _ _

theorem relink_eq_none_iff {old new : Ref} {cell : Cell Ref} :
    cell.relink old new = none ↔ old ∉ cell.children := by
  have search : cell.relink old new = none ↔ relinkSlots old new cell.slots = none := by
    rw [relink]
    split
    · rename_i absent
      simp [absent]
    · rename_i slots found
      simp [found]
  rw [search, relinkSlots, changeFirst_eq_none_iff, mem_children]
  simp only [Option.map_eq_none_iff, Slot.relink_eq_none_iff, not_exists, not_and]

end

end Cell

/-! ## Positions -/

abbrev Store (Ref : Type) := Ref → Cell Ref

namespace Store

variable {store : Store Ref} {root ref : Ref} {tree : Node}

def children (store : Store Ref) (ref : Ref) : List Ref :=
  (store ref).children

def refAt (store : Store Ref) : Ref → Position → Option Ref
  | ref, [] => some ref
  | ref, index :: rest => (store.children ref)[index]?.bind fun child => store.refAt child rest

@[simp] theorem refAt_nil (store : Store Ref) (ref : Ref) : store.refAt ref [] = some ref := by
  rw [refAt]

theorem refAt_append (store : Store Ref) (ref : Ref) (p q : Position) :
    store.refAt ref (p ++ q) = (store.refAt ref p).bind fun below => store.refAt below q := by
  induction p generalizing ref with
  | nil => rfl
  | cons index p ih =>
      rw [List.cons_append, refAt, refAt]
      cases (store.children ref)[index]? with
      | none => rfl
      | some child => exact ih child

theorem refAt_snoc {parent : Ref} {p : Position} (here : store.refAt ref p = some parent)
    (index : Nat) : store.refAt ref (p ++ [index]) = (store.children parent)[index]? := by
  rw [refAt_append, here, Option.bind_some, refAt]
  cases (store.children parent)[index]? <;> rfl

def Outlines (store : Store Ref) (ref : Ref) (tree : Node) : Prop :=
  ∀ p, (store.refAt ref p).map (fun below => (store below).form) = (tree.at? p).map Node.form

structure Shows (store : Store Ref) (ref : Ref) (tree : Node) : Prop where
  outlines : store.Outlines ref tree
  comments : ∀ p,
    (store.refAt ref p).map (fun below => (store below).comments) = (tree.at? p).map Node.comments

def Unshared (store : Store Ref) (root : Ref) : Prop :=
  ∀ p q ref, store.refAt root p = some ref → store.refAt root q = some ref → p = q

theorem Outlines.isSome_iff (outlines : store.Outlines ref tree) (p : Position) :
    (store.refAt ref p).isSome ↔ (tree.at? p).isSome := by
  have same := congrArg Option.isSome (outlines p)
  rw [Option.isSome_map, Option.isSome_map] at same
  rw [same]

theorem Outlines.below {below : Ref} {p : Position} (outlines : store.Outlines ref tree)
    (here : store.refAt ref p = some below) :
    ∃ node, tree.at? p = some node ∧ store.Outlines below node := by
  obtain ⟨node, there⟩ :=
    Option.isSome_iff_exists.mp ((outlines.isSome_iff p).mp (by simp [here]))
  refine ⟨node, there, fun q => ?_⟩
  have same := outlines (p ++ q)
  rwa [refAt_append, here, Node.at?_append, there] at same

theorem Shows.below {below : Ref} {p : Position} (shows : store.Shows ref tree)
    (here : store.refAt ref p = some below) :
    ∃ node, tree.at? p = some node ∧ store.Shows below node := by
  obtain ⟨node, there, outlines⟩ := shows.outlines.below here
  refine ⟨node, there, outlines, fun q => ?_⟩
  have same := shows.comments (p ++ q)
  rwa [refAt_append, here, Node.at?_append, there] at same

theorem Outlines.children (outlines : store.Outlines ref tree) :
    List.Forall₂ store.Outlines (store.children ref) tree.children := by
  have child (i : Nat) : store.refAt ref [i] = (store.children ref)[i]? :=
    refAt_snoc (store.refAt_nil ref) i
  have child' (i : Nat) : tree.at? [i] = tree.children[i]? := Node.at?_snoc tree.at?_nil i
  have same (i : Nat) : i < (store.children ref).length ↔ i < tree.children.length := by
    have both := outlines.isSome_iff [i]
    rwa [child, child', isSome_getElem?, isSome_getElem?] at both
  refine List.forall₂_iff_get.mpr ⟨?_, fun i bound bound' => ?_⟩
  · exact Nat.le_antisymm (Nat.le_of_not_lt fun less => Nat.lt_irrefl _ ((same _).mp less))
      (Nat.le_of_not_lt fun less => Nat.lt_irrefl _ ((same _).mpr less))
  · obtain ⟨node, there, below⟩ := outlines.below ((child i).trans (List.getElem?_eq_getElem bound))
    rw [child', List.getElem?_eq_getElem bound'] at there
    cases there
    exact below

theorem shows_of_reads {reads : Ref → Node} (unfolds : ∀ ref, reads ref =
      .mk (store ref).form (store ref).comments ((store.children ref).map reads)) (ref : Ref) :
    store.Shows ref (reads ref) := by
  have places (p : Position) (ref : Ref) : (reads ref).at? p = (store.refAt ref p).map reads := by
    induction p generalizing ref with
    | nil => simp
    | cons index p ih =>
        rw [Node.at?_cons, refAt, unfolds ref, Node.children_mk, List.getElem?_map]
        cases (store.children ref)[index]? with
        | none => rfl
        | some child => exact ih child
  constructor
  · intro p
    rw [places, Option.map_map]
    exact congrArg (Option.map · _) (funext fun below => by simp [unfolds below])
  · intro p
    rw [places, Option.map_map]
    exact congrArg (Option.map · _) (funext fun below => by simp [unfolds below])

theorem unshared_of_places {place : Ref → Position} (leads : ∀ ref index child,
      (store.children ref)[index]? = some child → place child = place ref ++ [index]) (root : Ref) :
    store.Unshared root := by
  have follows (p : Position) (start ref : Ref) (here : store.refAt start p = some ref) :
      place ref = place start ++ p := by
    induction p generalizing start with
    | nil =>
        cases (store.refAt_nil start).symm.trans here
        simp
    | cons index p ih =>
        rw [refAt] at here
        obtain ⟨child, first, below⟩ := Option.bind_eq_some_iff.mp here
        rw [ih child below, leads start index child first, List.append_assoc]
        rfl
  intro p q ref here there
  exact List.append_cancel_left ((follows p root ref here).symm.trans (follows q root ref there))

/-! ## The positions of a tree as cells -/

def nodeAt (tree : Node) (p : Position) : Node :=
  (tree.at? p).getD (.program [])

def ofTree (tree : Node) : Store Position := fun p =>
  { form := (nodeAt tree p).form
    comments := (nodeAt tree p).comments
    slots := [("children",
      .many ((List.range (nodeAt tree p).children.length).map fun index => some (p ++ [index])))]
    order := ["children"]
    distinct := List.nodup_singleton _
    complete := .refl _ }

theorem nodeAt_snoc {p : Position} {index : Nat} (bound : index < (nodeAt tree p).children.length) :
    nodeAt tree (p ++ [index]) = (nodeAt tree p).children[index] := by
  cases here : tree.at? p with
  | none => simp [nodeAt, here, Node.program, Node.of] at bound
  | some node =>
      have same : nodeAt tree p = node := by rw [nodeAt, here, Option.getD_some]
      simp only [same] at bound ⊢
      rw [nodeAt, Node.at?_snoc here, List.getElem?_eq_getElem bound, Option.getD_some]

theorem children_ofTree (tree : Node) (p : Position) :
    (ofTree tree).children p =
      (List.range (nodeAt tree p).children.length).map fun index => p ++ [index] := by
  simp [children, Cell.children, Cell.itemsAt, ofTree, Ledger.get?, Slot.items, List.filterMap_map]

theorem shows_ofTree (tree : Node) : (ofTree tree).Shows [] tree := by
  have unfolds (p : Position) : nodeAt tree p = .mk (ofTree tree p).form (ofTree tree p).comments
      (((ofTree tree).children p).map (nodeAt tree)) := by
    have nodes : ((ofTree tree).children p).map (nodeAt tree) = (nodeAt tree p).children := by
      rw [children_ofTree, List.map_map]
      refine List.ext_getElem (by simp) fun index _ bound => ?_
      simpa using nodeAt_snoc bound
    rw [nodes, ofTree]
    cases nodeAt tree p
    rfl
  have whole : nodeAt tree [] = tree := by rw [nodeAt, Node.at?_nil, Option.getD_some]
  have shows := shows_of_reads unfolds []
  rwa [whole] at shows

theorem unshared_ofTree (tree : Node) : (ofTree tree).Unshared [] := by
  have leads (p : Position) (index : Nat) (child : Position)
      (place : ((ofTree tree).children p)[index]? = some child) : id child = id p ++ [index] := by
    rw [children_ofTree, List.getElem?_map, Option.map_eq_some_iff] at place
    obtain ⟨i, there, rfl⟩ := place
    obtain ⟨-, rfl⟩ := List.getElem?_eq_some_iff.mp there
    rw [List.getElem_range]
    rfl
  exact unshared_of_places leads []

/-! ## Walks -/

def offspring (store : Store Ref) (parent : Ref) : List (Ref × Ref) :=
  (store.children parent).map (parent, ·)

/-- A stack of pairs that are due, the next one last, is worked off: the next pair is made, and what
is below its cell is due before all the rest. -/
inductive Unwinds (store : Store Ref) : List (Ref × Ref) → List (Ref × Ref) → Prop
  | ends : Unwinds store [] []
  | goes {due later : List (Ref × Ref)} {parent ref : Ref}
      (rest : Unwinds store (due ++ (store.offspring ref).reverse) later) :
      Unwinds store (due ++ [(parent, ref)]) ((parent, ref) :: later)

def Walks (store : Store Ref) (root : Ref) (pairs : List (Ref × Ref)) : Prop :=
  store.Unwinds (store.offspring root).reverse pairs

theorem Unwinds.unique {due pairs others : List (Ref × Ref)} (unwinds : store.Unwinds due pairs)
    (too : store.Unwinds due others) : others = pairs := by
  induction unwinds generalizing others with
  | ends =>
      generalize none : ([] : List (Ref × Ref)) = due at too
      cases too with
      | ends => rfl
      | goes => simp at none
  | @goes due _ parent ref _ ih =>
      generalize some : due ++ [(parent, ref)] = stack at too
      cases too with
      | ends => simp at some
      | goes rest =>
          obtain ⟨rfl, last⟩ := List.append_inj' some rfl
          cases last
          rw [ih rest]

def Meets (store : Store Ref) (root : Ref) (pairs : List (Ref × Ref)) (visits : List Visit) :
    Prop :=
  pairs.map (fun pair => (some pair.1, some pair.2)) =
    visits.map fun visit => (store.refAt root visit.above, store.refAt root visit.position)

mutual

theorem exists_unwinds_visits (store : Store Ref) (root : Ref) : ∀ (node : Node)
    {above : Position} {ref : Ref} {due later : List (Ref × Ref)},
    store.refAt root above = some ref → store.Outlines ref node → store.Unwinds due later →
    ∃ pairs, store.Meets root pairs (Node.visits above node) ∧
      store.Unwinds (due ++ (store.offspring ref).reverse) (pairs ++ later)
  | .mk form comments nodes, above, ref, due, later, here, outlines, rest => by
      rw [Node.visits]
      exact exists_unwinds_visitsFrom store root nodes here (fun i => by rw [Nat.zero_add])
        outlines.children rest

theorem exists_unwinds_visitsFrom (store : Store Ref) (root : Ref) : ∀ (nodes : List Node)
    {parent : Node} {above : Position} {index : Nat} {ref : Ref} {refs : List Ref}
    {due later : List (Ref × Ref)},
    store.refAt root above = some ref → (∀ i, refs[i]? = (store.children ref)[index + i]?) →
    List.Forall₂ store.Outlines refs nodes → store.Unwinds due later →
    ∃ pairs, store.Meets root pairs (Node.visitsFrom parent above index nodes) ∧
      store.Unwinds (due ++ (refs.map (ref, ·)).reverse) (pairs ++ later)
  | [], parent, above, index, ref, refs, due, later, here, places, outlines, rest => by
      cases outlines
      exact ⟨[], by rw [Node.visitsFrom]; rfl, by simpa using rest⟩
  | node :: nodes, parent, above, index, ref, refs, due, later, here, places, outlines, rest => by
      cases outlines with
      | @cons child _ refs _ first others =>
          have place : store.refAt root (above ++ [index]) = some child := by
            rw [refAt_snoc here]
            exact (places 0).symm
          have behind (i : Nat) : refs[i]? = (store.children ref)[index + 1 + i]? := by
            rw [Nat.add_assoc, Nat.add_comm 1, ← places (i + 1), List.getElem?_cons_succ]
          -- the other children are due first, so they are worked off behind this one
          obtain ⟨last, meets, unwinds⟩ :=
            exists_unwinds_visitsFrom store root nodes here behind others rest
          obtain ⟨inner, meets', unwinds'⟩ :=
            exists_unwinds_visits store root node place first unwinds
          refine ⟨(ref, child) :: (inner ++ last), ?_, ?_⟩
          · rw [Meets, Node.visitsFrom, List.map_cons, List.map_cons, List.map_append,
              List.map_append, meets, meets', Visit.position, here, place]
          · rw [List.map_cons, List.reverse_cons, ← List.append_assoc, List.cons_append,
              List.append_assoc inner]
            exact .goes unwinds'

end

/-- A walk over the cells of a tree ends. It meets the cells that stand where `Node.walk` makes its
visits, in the same order. -/
theorem exists_walks (outlines : store.Outlines root tree) :
    ∃ pairs, store.Walks root pairs ∧ store.Meets root pairs tree.walk := by
  obtain ⟨pairs, meets, unwinds⟩ := exists_unwinds_visits store root tree
    (store.refAt_nil root) outlines .ends
  rw [List.append_nil] at unwinds
  exact ⟨pairs, unwinds, tree.walk_eq ▸ meets⟩

theorem mem_iff_of_meets {pairs : List (Ref × Ref)} {visits : List Visit}
    (meets : store.Meets root pairs visits) {parent ref : Ref} :
    (parent, ref) ∈ pairs ↔ ∃ visit ∈ visits,
      store.refAt root visit.above = some parent ∧ store.refAt root visit.position = some ref := by
  have placed : (parent, ref) ∈ pairs ↔
      (some parent, some ref) ∈ pairs.map fun pair => (some pair.1, some pair.2) := by
    simp
  rw [placed, meets]
  simp

theorem mem_pairs_iff {pairs : List (Ref × Ref)} (outlines : store.Outlines root tree)
    (meets : store.Meets root pairs tree.walk) {parent ref : Ref} :
    (parent, ref) ∈ pairs ↔
      ∃ p, store.refAt root p = some parent ∧ ref ∈ store.children parent := by
  rw [mem_iff_of_meets meets]
  constructor
  · rintro ⟨visit, -, above, place⟩
    rw [Visit.position, refAt_snoc above] at place
    exact ⟨visit.above, above, List.mem_of_getElem? place⟩
  · rintro ⟨p, here, member⟩
    obtain ⟨index, place⟩ := List.mem_iff_getElem?.mp member
    rw [← refAt_snoc here] at place
    obtain ⟨node, there, -⟩ := outlines.below place
    obtain ⟨visit, walked, same, -⟩ := Node.exists_mem_walk (by simp) there
    obtain ⟨rfl, rfl⟩ : visit.above = p ∧ visit.index = index := by
      simpa [Visit.position] using same
    exact ⟨visit, walked, here, place⟩

theorem nodup_pairs {pairs : List (Ref × Ref)} (unshared : store.Unshared root)
    (meets : store.Meets root pairs tree.walk) : (pairs.map Prod.snd).Nodup := by
  have places : (pairs.map Prod.snd).map some =
      (tree.walk.map Visit.position).map (store.refAt root) := by
    have seconds := congrArg (List.map Prod.snd) meets
    simpa [Function.comp_def] using seconds
  refine List.Nodup.of_map some ?_
  rw [places]
  refine tree.nodup_positions.map_on fun p member q _ same => ?_
  obtain ⟨ref, -, here⟩ := List.mem_map.mp (places ▸ List.mem_map_of_mem member)
  exact unshared p q ref here.symm (same ▸ here.symm)

end Store

end ScriptModules.Tree
