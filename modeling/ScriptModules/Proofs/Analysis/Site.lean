import ScriptModules.Analysis.Access
import ScriptModules.Proofs.Tree.Names

namespace ScriptModules

open ScriptModules.Tree

def AccessAt (tree : Node) (site : Position) (name : String) (base : Node) : Prop :=
  ∃ comments key, tree.at? site = some (.mk .member comments [base, key]) ∧
    key.form = .propertyName name ∧ key.children = []

/-- An access stands at a position, with nothing below its object. -/
def LeafAccessAt (tree : Node) (site : Position) (name : String) : Prop :=
  ∃ base, AccessAt tree site name base ∧ base.children = []

namespace AccessAt

variable {tree : Node} {site : Position} {name : String} {base : Node}

theorem base_at? (access : AccessAt tree site name base) : tree.at? (site ++ [0]) = some base := by
  obtain ⟨comments, key, here, -, -⟩ := access
  rw [Node.at?_snoc here, Node.children_mk]
  rfl

theorem inner (access : AccessAt tree site name base) (program : tree.form = .program) :
    site ≠ [] := by
  rintro rfl
  obtain ⟨comments, key, here, -, -⟩ := access
  rw [Node.at?_nil, Option.some.injEq] at here
  rw [here] at program
  cases program

theorem of_at? {other : Node} (access : AccessAt tree site name base)
    (same : other.at? site = tree.at? site) : AccessAt other site name base := by
  obtain ⟨comments, key, here, named⟩ := access
  exact ⟨comments, key, same.trans here, named⟩

theorem setBase (access : AccessAt tree site name base) (new : Node) :
    AccessAt (Access.setBase tree site new) site name (new.inPlaceOf base) := by
  obtain ⟨comments, key, here, named, leaf⟩ := access
  refine ⟨comments, key, ?_, named, leaf⟩
  rw [Access.setBase, Node.at?_modifyAt_above, here, Option.map_some, Node.modifyAt]
  cases base
  rfl

end AccessAt

theorem LeafAccessAt.not_below {tree : Node} {site other : Position} {name name' : String}
    (access : LeafAccessAt tree site name) (access' : LeafAccessAt tree other name')
    (below : site <+: other) : site = other := by
  obtain ⟨base, ⟨comments, key, here, named, keyLeaf⟩, baseLeaf⟩ := access
  obtain ⟨base', ⟨comments', key', here', -, -⟩, -⟩ := access'
  obtain ⟨rest, rfl⟩ := below
  rw [Node.at?_append, here, Option.bind_some] at here'
  cases rest with
  | nil => simp
  | cons index rest =>
      exfalso
      rw [Node.at?_cons, Node.children_mk] at here'
      obtain ⟨child, place, here'⟩ := Option.bind_eq_some_iff.mp here'
      have leaf : child.children = [] := by
        match index with
        | 0 => cases place; exact baseLeaf
        | 1 => cases place; exact keyLeaf
        | _ + 2 => cases place
      cases rest with
      | nil =>
          rw [Node.at?_nil] at here'
          cases here'
          cases leaf
      | cons index rest =>
          rw [Node.at?_cons, leaf] at here'
          cases here'

theorem LeafAccessAt.apart {tree : Node} {site other : Position} {name name' : String}
    (access : LeafAccessAt tree site name) (access' : LeafAccessAt tree other name')
    (distinct : site ≠ other) : Node.Apart site other :=
  ⟨fun below => distinct (access.not_below access' below),
    fun below => distinct (access'.not_below access below).symm⟩

theorem apart_base {site other : Position} (apart : Node.Apart site other) :
    Node.Apart (site ++ [0]) other := by
  refine ⟨fun below => apart.1 ((List.prefix_append site [0]).trans below), fun below => ?_⟩
  rcases List.prefix_concat_iff.mp below with rfl | below
  · exact apart.1 (List.prefix_append site [0])
  · exact apart.2 below

theorem at?_setBase_of_apart (tree : Node) {site other : Position} (apart : Node.Apart site other)
    (new : Node) : (Access.setBase tree site new).at? other = tree.at? other :=
  Node.at?_modifyAt_of_apart _ tree (apart_base apart)

theorem mem_names_setBase {tree : Node} {site : Position} {new : Node} {name : String}
    (member : name ∈ (Access.setBase tree site new).names) :
    name ∈ tree.names ∨ new.form.name? = some name ∨ name ∈ new.names := by
  rcases Node.mem_names_modifyAt (by simp) member with member | ⟨old, -, member⟩
  · exact .inl member
  · right
    simpa using member

theorem LeafAccessAt.not_base_above {tree : Node} {site q : Position} {name : String}
    (access : LeafAccessAt tree site name) {node : Node} (here : tree.at? q = some node)
    (inner : node.children ≠ []) : ¬site ++ [0] <+: q := by
  obtain ⟨base, access, leaf⟩ := access
  rintro ⟨rest, rfl⟩
  rw [Node.at?_append, access.base_at?, Option.bind_some] at here
  cases rest with
  | nil =>
      rw [Node.at?_nil] at here
      cases here
      exact inner leaf
  | cons index rest =>
      rw [Node.at?_cons, leaf] at here
      cases here

def Script.recorded (script : Script) (name : String) : List Position :=
  match script.provides.get? name with
  | some provide => provide.sites
  | none => (script.requires.get? name).getD []

end ScriptModules
