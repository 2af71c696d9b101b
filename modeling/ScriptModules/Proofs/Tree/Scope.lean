import Mathlib.Data.List.Forall2
import ScriptModules.Proofs.Tree.Names

namespace ScriptModules.Tree

namespace Form

def isScope : Form → Bool
  | program | function .. | getter | setter => true
  | _ => false

/-- How many of the first children of a node are names that the node declares in the scope around
it. -/
def declaredCount : Form → Nat
  | declarator | headDeclarator | function true true _ => 1
  | _ => 0

/-- Where the names that a node binds for what stands in it start among its children, and how many
they are. -/
def boundRange : Form → Nat × Nat
  | function _ named parameters => (0, named.toNat + parameters)
  | setter => (1, 1)
  | catchClause => (0, 1)
  | _ => (0, 0)

end Form

namespace Node

def ownNames (nodes : List Node) : List String :=
  nodes.filterMap fun node => node.form.name?

theorem ownNames_nil : ownNames [] = [] :=
  rfl

theorem ownNames_singleton (node : Node) : ownNames [node] = node.form.name?.toList := by
  rw [ownNames]
  cases named : node.form.name? <;> simp [named]

mutual

def hoisted : Node → List String
  | mk form _ children =>
    ownNames (children.take form.declaredCount) ++
      if form.isScope then [] else hoistedAll children

def hoistedAll : List Node → List String
  | [] => []
  | node :: nodes => hoisted node ++ hoistedAll nodes

end

theorem hoistedAll_eq_flatMap (nodes : List Node) : hoistedAll nodes = nodes.flatMap hoisted := by
  induction nodes with
  | nil => rfl
  | cons node nodes ih => rw [hoistedAll, ih, List.flatMap_cons]

def scope : Node → List String
  | mk form _ children =>
    ownNames ((children.drop form.boundRange.1).take form.boundRange.2) ++
      if form.isScope then hoistedAll children else []

theorem scope_of_program {tree : Node} (program : tree.form = .program) :
    tree.scope = hoistedAll tree.children := by
  obtain ⟨form, comments, children⟩ := tree
  cases program
  simp [scope, Form.boundRange, Form.isScope, ownNames_nil]

def boundAt : Node → Position → List String
  | _, [] => []
  | node, index :: rest =>
    node.scope ++
      match node.children[index]? with
      | some child => child.boundAt rest
      | none => []

@[simp] theorem boundAt_nil (node : Node) : node.boundAt [] = [] := by
  cases node
  rw [boundAt]

theorem boundAt_cons {node child : Node} {index : Nat} (here : node.children[index]? = some child)
    (rest : Position) : node.boundAt (index :: rest) = node.scope ++ child.boundAt rest := by
  rw [boundAt, here]

theorem boundAt_append {root node : Node} {p : Position} (here : root.at? p = some node)
    (q : Position) : root.boundAt (p ++ q) = root.boundAt p ++ node.boundAt q := by
  induction p generalizing root with
  | nil =>
      rw [at?_nil, Option.some.injEq] at here
      rw [here, boundAt_nil]
      rfl
  | cons index p ih =>
      rw [at?_cons] at here
      obtain ⟨child, place, here⟩ := Option.bind_eq_some_iff.mp here
      rw [List.cons_append, boundAt_cons place, boundAt_cons place, ih here, List.append_assoc]

mutual

def bindings : Node → List String
  | mk form comments children => scope (mk form comments children) ++ bindingsAll children

def bindingsAll : List Node → List String
  | [] => []
  | node :: nodes => bindings node ++ bindingsAll nodes

end

theorem bindings_child {nodes : List Node} {child : Node} (member : child ∈ nodes) :
    child.bindings ⊆ bindingsAll nodes := by
  induction nodes with
  | nil => cases member
  | cons node nodes ih =>
      rw [bindingsAll]
      rcases List.mem_cons.mp member with rfl | member
      · exact List.subset_append_left _ _
      · exact List.Subset.trans (ih member) (List.subset_append_right _ _)

theorem boundAt_subset_bindings (node : Node) (p : Position) : node.boundAt p ⊆ node.bindings := by
  induction p generalizing node with
  | nil => simp
  | cons index p ih =>
      obtain ⟨form, comments, children⟩ := node
      rw [boundAt, bindings]
      refine List.append_subset.mpr ⟨List.subset_append_left _ _, ?_⟩
      rw [children_mk]
      cases place : children[index]? with
      | none => exact List.nil_subset _
      | some child =>
          exact List.Subset.trans (ih child) (List.Subset.trans
            (bindings_child (List.mem_of_getElem? place)) (List.subset_append_right _ _))

mutual

theorem hoisted_subset_declares : ∀ node : Node, node.hoisted ⊆ node.declares
  | mk form comments children => by
    have below := hoistedAll_subset_declaresAll children
    unfold hoisted declares
    cases form with
    | function declared named parameters =>
        cases declared <;> cases named <;> cases children <;>
          simp [Form.declaredCount, Form.isScope, ownNames_singleton, ownNames_nil]
    | declarator | headDeclarator =>
        cases children with
        | nil => exact List.nil_subset _
        | cons first rest =>
            refine List.append_subset.mpr
              ⟨?_, List.Subset.trans below (List.subset_append_right _ _)⟩
            exact List.subset_append_left _ _
    | _ => first | exact below | exact List.nil_subset _

theorem hoistedAll_subset_declaresAll : ∀ nodes : List Node, hoistedAll nodes ⊆ declaresAll nodes
  | [] => List.nil_subset _
  | node :: nodes => by
    rw [hoistedAll, declaresAll]
    exact List.append_subset.mpr
      ⟨List.Subset.trans (hoisted_subset_declares node) (List.subset_append_left _ _),
        List.Subset.trans (hoistedAll_subset_declaresAll nodes) (List.subset_append_right _ _)⟩

end

/-! ## Replacements that bind no more names -/

/-- A node that binds no names but those of another one and some given ones. -/
structure BindsWithin (more : List String) (new old : Node) : Prop where
  name : ∀ name, new.form.name? = some name → old.form.name? = some name ∨ name ∈ more
  hoisted : new.hoisted ⊆ old.hoisted ++ more

variable {more : List String} {form : Form} {comments comments' : List String}
  {news olds : List Node}

theorem ownNames_subset (all : List.Forall₂ (BindsWithin more) news olds) :
    ownNames news ⊆ ownNames olds ++ more := by
  intro name member
  obtain ⟨new, inside, named⟩ := List.mem_filterMap.mp member
  obtain ⟨index, bound, rfl⟩ := List.mem_iff_getElem.mp inside
  have bound' := all.length_eq ▸ bound
  refine List.mem_append.mpr (((all.get bound bound').name name named).imp_left fun named => ?_)
  exact List.mem_filterMap.mpr ⟨olds[index], List.getElem_mem bound', named⟩

theorem hoistedAll_subset (all : List.Forall₂ (BindsWithin more) news olds) :
    hoistedAll news ⊆ hoistedAll olds ++ more := by
  induction all with
  | nil => exact List.nil_subset _
  | cons first _ ih =>
      intro name member
      rw [hoistedAll, List.append_assoc]
      rcases List.mem_append.mp member with member | member
      · have cases := first.hoisted member
        simp only [List.mem_append] at cases ⊢
        tauto
      · exact List.mem_append_right _ (ih member)

theorem scope_subset (all : List.Forall₂ (BindsWithin more) news olds) :
    (mk form comments news).scope ⊆ (mk form comments' olds).scope ++ more := by
  have binders := ownNames_subset
    (List.forall₂_take form.boundRange.2 (List.forall₂_drop form.boundRange.1 all))
  have below := hoistedAll_subset all
  intro name member
  unfold scope at member ⊢
  simp only [List.mem_append] at member ⊢
  rcases member with binder | declared
  · exact (List.mem_append.mp (binders binder)).imp_left .inl
  · by_cases inner : form.isScope = true
    · rw [if_pos inner] at declared ⊢
      exact (List.mem_append.mp (below declared)).imp_left .inr
    · rw [if_neg inner] at declared
      cases declared

theorem BindsWithin.congr (all : List.Forall₂ (BindsWithin more) news olds) :
    (Node.mk form comments news).BindsWithin more (.mk form comments' olds) where
  name := fun _ => .inl
  hoisted := by
    have own := ownNames_subset (List.forall₂_take form.declaredCount all)
    have below := hoistedAll_subset all
    intro name member
    unfold Node.hoisted at member ⊢
    simp only [List.mem_append] at member ⊢
    rcases member with declared | declared
    · exact (List.mem_append.mp (own declared)).imp_left .inl
    · by_cases inner : form.isScope = true
      · rw [if_pos inner] at declared
        cases declared
      · rw [if_neg inner] at declared ⊢
        exact (List.mem_append.mp (below declared)).imp_left .inr

/-! ## Comments -/

theorem ownNames_bares (nodes : List Node) : ownNames (bares nodes) = ownNames nodes := by
  rw [bares_eq_map, ownNames, List.filterMap_map]
  exact congrArg (List.filterMap · nodes) (funext fun node => by simp)

mutual

theorem hoisted_bare : ∀ node : Node, node.bare.hoisted = node.hoisted
  | mk form comments children => by
    rw [bare, hoisted, hoisted, hoistedAll_bares children, bares_eq_map, ← List.map_take,
      ← bares_eq_map, ownNames_bares]

theorem hoistedAll_bares : ∀ nodes : List Node, hoistedAll (bares nodes) = hoistedAll nodes
  | [] => rfl
  | node :: nodes => by
    rw [bares, hoistedAll, hoistedAll, hoisted_bare node, hoistedAll_bares nodes]

end

theorem scope_bare (node : Node) : node.bare.scope = node.scope := by
  obtain ⟨form, comments, children⟩ := node
  rw [bare, scope, scope, hoistedAll_bares, bares_eq_map, ← List.map_drop, ← List.map_take,
    ← bares_eq_map, ownNames_bares]

theorem boundAt_bare (node : Node) (p : Position) : node.bare.boundAt p = node.boundAt p := by
  induction p generalizing node with
  | nil => rw [boundAt_nil, boundAt_nil]
  | cons index p ih =>
      rw [boundAt, boundAt, scope_bare, children_bare, List.getElem?_map]
      cases node.children[index]? with
      | none => rfl
      | some child => exact congrArg _ (ih child)

theorem below_of_silent {root value : Node} {p : Position}
    (here : (root.at? p).map bare = some value.bare) (silent : value.bindings = []) (q : Position) :
    (root.at? (p ++ q)).map Node.form = (value.at? q).map Node.form ∧
      root.boundAt (p ++ q) = root.boundAt p := by
  obtain ⟨node, place, same⟩ := Option.map_eq_some_iff.mp here
  have inner : value.boundAt q = [] :=
    List.subset_nil.mp (silent ▸ value.boundAt_subset_bindings q)
  refine ⟨by rw [at?_append, place, Option.bind_some, form_at?_of_bare same], ?_⟩
  rw [boundAt_append place, ← boundAt_bare node, same, boundAt_bare, inner, List.append_nil]

end Node

end ScriptModules.Tree
