import ScriptModules.Proofs.Tree.Rebuild
import ScriptModules.Proofs.Tree.Sound
import ScriptModules.Tree.Template

namespace ScriptModules.Tree.Template

mutual

/-- The tree with the first of the given nodes in its first place, the second in its second one and
so on, as long as there are nodes; also returned are the nodes that are left. The children are gone
through in their order, which for a `do` loop puts the condition in front. -/
def plug : Node → List Node → Node × List Node
  | .mk form comments children, holes =>
    if form.name? = some placeholder then (holes.headD (.mk form comments children), holes.tail)
    else
      let (children, holes) := plugAll children holes
      (.mk form comments children, holes)

def plugAll : List Node → List Node → List Node × List Node
  | [], holes => ([], holes)
  | node :: nodes, holes =>
    let (node, holes) := plug node holes
    let (nodes, holes) := plugAll nodes holes
    (node :: nodes, holes)

end

def plugBelow (tree : Node) (holes : List Node) : Node × List Node :=
  let (children, holes) := plugAll tree.children holes
  (.mk tree.form tree.comments children, holes)

mutual

def spots : Node → List Position
  | .mk form _ children =>
    if form.name? = some placeholder then [[]] else spotsFrom 0 children

def spotsFrom : Nat → List Node → List Position
  | _, [] => []
  | index, child :: rest => (spots child).map (index :: ·) ++ spotsFrom (index + 1) rest

end

/-! ## The places -/

def placed (visits : List Visit) : List Visit :=
  visits.filter fun visit => visit.node.form.name? == some placeholder

mutual

theorem spots_eq (above : Position) (parent : Node) (index : Nat) : ∀ node : Node, node.Sound →
    (placed (⟨parent, above, index, node⟩ :: Node.visits (above ++ [index]) node)).map
      Visit.position = (spots node).map (above ++ [index] ++ ·)
  | .mk form comments children, sound => by
      rw [placed, List.filter_cons, spots]
      by_cases place : form.name? = some placeholder
      · have leaf : children = [] := sound.leaf place
        subst leaf
        simp [place, Node.visits, Node.visitsFrom, Visit.position]
      · have below := spotsFrom_eq (.mk form comments children) (above ++ [index]) 0 children
          fun child member => sound.child member
        simpa [place, Node.visits, placed] using below

theorem spotsFrom_eq (parent : Node) (above : Position) : ∀ (index : Nat) (nodes : List Node),
    (∀ node ∈ nodes, node.Sound) →
    (placed (Node.visitsFrom parent above index nodes)).map Visit.position =
      (spotsFrom index nodes).map (above ++ ·)
  | _, [], _ => rfl
  | index, child :: rest, sound => by
      have first := spots_eq above parent index child (sound child List.mem_cons_self)
      have later := spotsFrom_eq parent above (index + 1) rest
        fun node member => sound node (List.mem_cons_of_mem _ member)
      rw [Node.visitsFrom, ← List.cons_append, placed, List.filter_append, List.map_append, spotsFrom,
        List.map_append, ← placed, ← placed, first, later]
      simp

end

theorem places_eq {tree : Node} (sound : tree.Sound) :
    places tree.bare = spotsFrom 0 tree.children := by
  have noted := spotsFrom_eq tree [] 0 tree.children fun node member => sound.child member
  have forms : (fun visit : Visit => visit.node.form.name? == some placeholder) ∘ Visit.bare =
      fun visit => visit.node.form.name? == some placeholder := by
    funext visit
    simp [Visit.bare]
  rw [places, Node.walk_bare, List.filter_map, List.map_map, forms, Node.walk_eq, Node.visits_eq]
  exact noted.trans (by simp)

/-! ## Filling -/

theorem inPlaceOf_place {form : Form} (hole : Node) :
    hole.inPlaceOf (.mk form [] []) = hole := by
  rw [Node.inPlaceOf, Node.leadingComments]
  split
  · rename_i none
    obtain ⟨form, comments, children⟩ := hole
    rw [Node.comments_mk, List.isEmpty_iff] at none
    rw [none]
    rfl
  · rfl

theorem putAt_append (tree : Node) (first second : List Position) (holes : List Node) :
    putAt tree ((first ++ second).zip holes) =
      putAt (putAt tree (first.zip holes)) (second.zip (holes.drop first.length)) := by
  induction first generalizing tree holes with
  | nil => rfl
  | cons position first ih =>
      cases holes with
      | nil => simp [putAt]
      | cons hole holes => exact ih (tree.modifyAt hole.inPlaceOf position) holes

theorem putAt_child (form : Form) (comments : List String) (front : List Node) (child : Node)
    (rest : List Node) (positions : List Position) (holes : List Node) :
    putAt (.mk form comments (front ++ child :: rest))
        ((positions.map (front.length :: ·)).zip holes) =
      .mk form comments (front ++ putAt child (positions.zip holes) :: rest) := by
  induction positions generalizing child holes with
  | nil => rfl
  | cons position positions ih =>
      cases holes with
      | nil => rfl
      | cons hole holes =>
          have first : (Node.mk form comments (front ++ child :: rest)).modifyAt hole.inPlaceOf
              (front.length :: position) = .mk form comments
                (front ++ child.modifyAt hole.inPlaceOf position :: rest) := by
            simp [Node.modifyAt, List.modify_eq_take_drop]
          rw [List.map_cons, List.zip_cons_cons, putAt, List.foldl_cons, first]
          exact ih _ holes

mutual

theorem putAt_spots : ∀ (node : Node) (holes : List Node), node.Sound →
    putAt node.bare ((spots node).zip holes) = (plug node.bare holes).1 ∧
      (plug node.bare holes).2 = holes.drop (spots node).length
  | .mk form comments children, holes, sound => by
      rw [spots, Node.bare, plug]
      by_cases place : form.name? = some placeholder
      · have leaf : children = [] := sound.leaf place
        subst leaf
        rw [if_pos place, if_pos place]
        cases holes with
        | nil => exact ⟨rfl, rfl⟩
        | cons hole holes => exact ⟨inPlaceOf_place hole, rfl⟩
      · obtain ⟨filled, left⟩ := putAt_spotsFrom form [] children holes
          fun child member => sound.child member
        rw [if_neg place, if_neg place]
        exact ⟨filled, left⟩

theorem putAt_spotsFrom (form : Form) (front : List Node) : ∀ (nodes holes : List Node),
    (∀ node ∈ nodes, node.Sound) →
    putAt (.mk form [] (front ++ Node.bares nodes)) ((spotsFrom front.length nodes).zip holes) =
        .mk form [] (front ++ (plugAll (Node.bares nodes) holes).1) ∧
      (plugAll (Node.bares nodes) holes).2 = holes.drop (spotsFrom front.length nodes).length
  | [], holes, _ => ⟨rfl, rfl⟩
  | child :: rest, holes, sound => by
      -- the children in front are filled, and the places of the others are still where they were
      obtain ⟨filled, left⟩ := putAt_spots child holes (sound child List.mem_cons_self)
      obtain ⟨filled', left'⟩ := putAt_spotsFrom form (front ++ [(plug child.bare holes).1]) rest
        (holes.drop (spots child).length) fun node member => sound node (List.mem_cons_of_mem _ member)
      rw [List.length_append, List.length_singleton] at filled' left'
      rw [Node.bares, spotsFrom, plugAll, putAt_append, putAt_child, filled, List.length_map]
      constructor
      · simpa [left] using filled'
      · simpa [left] using left'

end

theorem putAt_places {tree : Node} (sound : tree.Sound) (holes : List Node) :
    putAt tree.bare ((places tree.bare).zip holes) = (plugBelow tree.bare holes).1 ∧
      (plugBelow tree.bare holes).2 = holes.drop (places tree.bare).length := by
  rw [places_eq sound]
  obtain ⟨form, comments, children⟩ := tree
  exact putAt_spotsFrom form [] children holes fun child member => sound.child member

/-- A template read with nodes is the template read without nodes, filled at once. -/
theorem statement_eq_plug (text : String) {holes : List Node} (given : holes ≠ []) :
    statement text holes = (statement text []).bind fun template =>
      if (places template).length = holes.length then .ok (plugBelow template holes).1
      else .error (.wrongHoles (places template).length holes.length) := by
  unfold statement
  cases parsed : Node.parse? text with
  | none => rfl
  | some program =>
      simp only [Node.children_bare]
      cases statements : program.children with
      | nil => rfl
      | cons first rest =>
          have sound : first.Sound := (parse?_sound parsed).child (by simp [statements])
          have none : holes.isEmpty = false := by
            simpa [List.isEmpty_eq_false_iff] using given
          have filled := (putAt_places sound holes).1
          simp only [List.map_cons, none, Bool.false_eq_true, if_false, fill, filled]
          rfl

-- the condition of a loop takes the first node although it is written behind the body
example : plugBelow (.of .doLoop [.identifier "$", .of .expression [.identifier "$"]])
      [.identifier "a", .identifier "b"] =
    (.of .doLoop [.identifier "a", .of .expression [.identifier "b"]], []) := rfl

end ScriptModules.Tree.Template
