import ScriptModules.Proofs.Tree.Position

namespace ScriptModules.Tree

def Form.isKeyAt (form : Form) (index : Nat) : Bool :=
  match form with
  | .member => index == 1
  | .property | .getter | .setter => index == 0
  | _ => false

theorem Visit.isKey_eq (visit : Visit) : visit.isKey = visit.parent.form.isKeyAt visit.index :=
  rfl

namespace Node

mutual

def names : Node → List String
  | mk form _ children => namesFrom form 0 children

def namesFrom (form : Form) : Nat → List Node → List String
  | _, [] => []
  | index, child :: rest =>
    (if form.isKeyAt index then none else child.form.name?).toList ++
      (names child ++ namesFrom form (index + 1) rest)

end

mutual

theorem filterMap_visits (above : Position) : ∀ node : Node,
    ((visits above node).filterMap fun visit =>
      if visit.isKey then none else visit.node.form.name?) = names node
  | mk form comments children => by
      rw [visits, names, filterMap_visitsFrom, form_mk]

theorem filterMap_visitsFrom (parent : Node) (above : Position) :
    ∀ (index : Nat) (nodes : List Node), ((visitsFrom parent above index nodes).filterMap
      fun visit => if visit.isKey then none else visit.node.form.name?) =
        namesFrom parent.form index nodes
  | _, [] => rfl
  | index, child :: rest => by
      rw [visitsFrom, namesFrom, List.filterMap_cons, List.filterMap_append,
        filterMap_visits _ child, filterMap_visitsFrom parent above (index + 1) rest,
        Visit.isKey_eq]
      cases (if parent.form.isKeyAt index then none else child.form.name?) <;> rfl

end

@[simp] theorem mem_boundNames {program : Node} {name : String} :
    name ∈ program.boundNames ↔ name ∈ program.names := by
  rw [boundNames, List.mem_eraseDups, walk_eq, filterMap_visits]

theorem mem_namesFrom {form : Form} {name : String} {index : Nat} {nodes : List Node} :
    name ∈ namesFrom form index nodes ↔ ∃ i child, nodes[i]? = some child ∧
      ((form.isKeyAt (index + i) = false ∧ child.form.name? = some name) ∨
        name ∈ child.names) := by
  induction nodes generalizing index with
  | nil => simp [namesFrom]
  | cons node nodes ih =>
      rw [namesFrom, List.mem_append, List.mem_append, ih]
      constructor
      · rintro (here | below | ⟨i, child, member, met⟩)
        · refine ⟨0, node, rfl, .inl ?_⟩
          rw [Option.mem_toList] at here
          by_cases key : form.isKeyAt index = true
          · simp [key] at here
          · exact ⟨by simpa using key, by simpa [key] using here⟩
        · exact ⟨0, node, rfl, .inr below⟩
        · refine ⟨i + 1, child, member, ?_⟩
          rwa [Nat.add_right_comm, Nat.add_assoc] at met
      · rintro ⟨i, child, member, met⟩
        cases i with
        | zero =>
            cases member
            rcases met with ⟨key, here⟩ | below
            · exact .inl (by rw [Nat.add_zero] at key; simp [key, here])
            · exact .inr (.inl below)
        | succ i =>
            refine .inr (.inr ⟨i, child, member, ?_⟩)
            rwa [Nat.add_right_comm, Nat.add_assoc]

theorem mem_names {node : Node} {name : String} :
    name ∈ node.names ↔ ∃ i child, node.children[i]? = some child ∧
      ((node.form.isKeyAt i = false ∧ child.form.name? = some name) ∨ name ∈ child.names) := by
  obtain ⟨form, comments, children⟩ := node
  rw [names, mem_namesFrom]
  simp

theorem mem_names_of_no_key {node : Node} (noKey : ∀ i, node.form.isKeyAt i = false)
    {name : String} : name ∈ node.names ↔
      ∃ child ∈ node.children, child.form.name? = some name ∨ name ∈ child.names := by
  rw [mem_names]
  constructor
  · rintro ⟨i, child, place, met⟩
    exact ⟨child, List.mem_of_getElem? place, met.imp_left And.right⟩
  · rintro ⟨child, member, met⟩
    obtain ⟨i, place⟩ := List.mem_iff_getElem?.mp member
    exact ⟨i, child, place, met.imp_left fun named => ⟨noKey i, named⟩⟩

theorem mem_names_of_at? {root below : Node} {p : Position} {name : String}
    (here : root.at? p = some below) (member : name ∈ below.names) : name ∈ root.names := by
  induction p generalizing root with
  | nil =>
      rw [at?_nil] at here
      cases here
      exact member
  | cons i p ih =>
      rw [at?_cons] at here
      obtain ⟨child, place, here⟩ := Option.bind_eq_some_iff.mp here
      exact mem_names.mpr ⟨i, child, place, .inr (ih here)⟩

theorem mem_names_modifyAt {change : Node → Node} {root : Node} {p : Position} {name : String}
    (below : p ≠ []) (member : name ∈ (root.modifyAt change p).names) :
    name ∈ root.names ∨ ∃ old, root.at? p = some old ∧
      ((change old).form.name? = some name ∨ name ∈ (change old).names) := by
  induction p generalizing root with
  | nil => exact absurd rfl below
  | cons i p ih =>
      obtain ⟨form, comments, children⟩ := root
      rw [modifyAt, mem_names] at member
      obtain ⟨j, child, here, met⟩ := member
      rw [children_mk] at here
      by_cases same : i = j
      · subst same
        rw [List.getElem?_modify_eq] at here
        obtain ⟨old, place, rfl⟩ := Option.map_eq_some_iff.mp here
        have at?_eq (q : Position) : (mk form comments children).at? (i :: q) = old.at? q := by
          rw [at?_cons, children_mk, place, Option.bind_some]
        rw [at?_eq]
        cases p with
        | nil =>
            rw [modifyAt_nil] at met
            exact .inr ⟨old, at?_nil old, met.imp_left And.right⟩
        | cons k p =>
            rcases met with ⟨key, met⟩ | met
            · rw [form_modifyAt_cons] at met
              exact .inl (mem_names.mpr ⟨i, old, place, .inl ⟨key, met⟩⟩)
            · rcases ih (List.cons_ne_nil k p) met with met | met
              · exact .inl (mem_names.mpr ⟨i, old, place, .inr met⟩)
              · exact .inr met
      · rw [List.getElem?_modify_ne _ _ same] at here
        exact .inl (mem_names.mpr ⟨j, child, here, met⟩)

/-! ## Comments -/

@[simp] theorem form_withComments (node : Node) (comments : List String) :
    (node.withComments comments).form = node.form := by
  cases node
  rfl

@[simp] theorem children_withComments (node : Node) (comments : List String) :
    (node.withComments comments).children = node.children := by
  cases node
  rfl

@[simp] theorem names_withComments (node : Node) (comments : List String) :
    (node.withComments comments).names = node.names := by
  cases node
  rw [withComments, names, names]

theorem inPlaceOf_eq (new old : Node) : ∃ comments, new.inPlaceOf old = new.withComments comments := by
  unfold inPlaceOf
  split
  · exact ⟨_, rfl⟩
  · exact ⟨new.comments, by cases new; rfl⟩

@[simp] theorem form_inPlaceOf (new old : Node) : (new.inPlaceOf old).form = new.form := by
  obtain ⟨comments, same⟩ := inPlaceOf_eq new old
  rw [same, form_withComments]

@[simp] theorem children_inPlaceOf (new old : Node) :
    (new.inPlaceOf old).children = new.children := by
  obtain ⟨comments, same⟩ := inPlaceOf_eq new old
  rw [same, children_withComments]

@[simp] theorem names_inPlaceOf (new old : Node) : (new.inPlaceOf old).names = new.names := by
  obtain ⟨comments, same⟩ := inPlaceOf_eq new old
  rw [same, names_withComments]

/-! ## Trees without comments -/

@[simp] theorem form_bare (node : Node) : node.bare.form = node.form := by
  cases node
  rfl

theorem children_bare (node : Node) : node.bare.children = node.children.map bare := by
  cases node
  exact bares_eq_map _

mutual

theorem bare_bare : ∀ node : Node, node.bare.bare = node.bare
  | mk form comments children => by
      rw [bare, bare, bares_bares children]

theorem bares_bares : ∀ nodes : List Node, bares (bares nodes) = bares nodes
  | [] => rfl
  | node :: nodes => by
      rw [bares, bares, bare_bare node, bares_bares nodes]

end

theorem bare_of_mem_bare {node child : Node} (member : child ∈ node.bare.children) :
    child.bare = child := by
  rw [children_bare] at member
  obtain ⟨own, -, rfl⟩ := List.mem_map.mp member
  exact own.bare_bare

theorem at?_bare (node : Node) (p : Position) : node.bare.at? p = (node.at? p).map bare := by
  induction p generalizing node with
  | nil => simp
  | cons index p ih =>
      rw [at?_cons, at?_cons, children_bare, List.getElem?_map]
      cases node.children[index]? with
      | none => rfl
      | some child => exact ih child

theorem form_at?_of_bare {node other : Node} (same : node.bare = other.bare) (p : Position) :
    (node.at? p).map form = (other.at? p).map form := by
  have forms (node : Node) : (node.bare.at? p).map form = (node.at? p).map form := by
    rw [at?_bare, Option.map_map]
    congr 1
    funext below
    exact below.form_bare
  rw [← forms node, ← forms other, same]

@[simp] theorem bare_withComments (node : Node) (comments : List String) :
    (node.withComments comments).bare = node.bare := by
  cases node
  rfl

@[simp] theorem bare_inPlaceOf (new old : Node) : (new.inPlaceOf old).bare = new.bare := by
  obtain ⟨comments, same⟩ := inPlaceOf_eq new old
  rw [same, bare_withComments]

theorem bare_dropLeadingComments (node : Node) : node.dropLeadingComments.bare = node.bare := by
  induction node using dropLeadingComments.induct with
  | case1 form comment comments children => rw [dropLeadingComments, bare, bare]
  | case2 form => rw [dropLeadingComments]
  | case3 form child children ih => rw [dropLeadingComments, bare, bare, bares, bares, ih]

mutual

theorem names_bare : ∀ node : Node, node.bare.names = node.names
  | mk form comments children => by
      rw [bare, names, names, namesFrom_bares]

theorem namesFrom_bares (form : Form) : ∀ (index : Nat) (nodes : List Node),
    namesFrom form index (bares nodes) = namesFrom form index nodes
  | _, [] => rfl
  | index, child :: rest => by
      rw [bares, namesFrom, namesFrom, names_bare child, namesFrom_bares form _ rest, form_bare]

end

/-! ## Declared names -/

mutual

/-- The names that a node declares in the scope that it stands in. What stands inside a function is
declared in the scope of that function. -/
def declares : Node → List String
  | mk form _ children =>
    let first := (children.head?.bind fun child => child.form.name?).toList
    match form with
    | .function declared named _ => if declared && named then first else []
    | .declarator | .headDeclarator => first ++ declaresAll children
    | _ => declaresAll children

def declaresAll : List Node → List String
  | [] => []
  | node :: nodes => declares node ++ declaresAll nodes

end

@[simp] theorem declaresAll_nil : declaresAll [] = [] :=
  rfl

@[simp] theorem declaresAll_cons (node : Node) (nodes : List Node) :
    declaresAll (node :: nodes) = node.declares ++ declaresAll nodes :=
  rfl

@[simp] theorem declaresAll_append (nodes more : List Node) :
    declaresAll (nodes ++ more) = declaresAll nodes ++ declaresAll more := by
  induction nodes with
  | nil => rfl
  | cons node nodes ih =>
      rw [List.cons_append, declaresAll_cons, declaresAll_cons, ih, List.append_assoc]

end Node
end ScriptModules.Tree
