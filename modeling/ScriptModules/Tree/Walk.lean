import ScriptModules.Tree.Node

namespace ScriptModules.Tree

/-- The way from a root to a node: the index of a child for every step down. -/
abbrev Position := List Nat

/-- A node met on a walk, its parent, the position of the parent and the index among the parent's
children. -/
structure Visit where
  parent : Node
  above : Position
  index : Nat
  node : Node
deriving Repr

namespace Visit

def position (visit : Visit) : Position :=
  visit.above ++ [visit.index]

def isKey (visit : Visit) : Bool :=
  match visit.parent.form with
  | .member => visit.index == 1
  | .property | .getter | .setter => visit.index == 0
  | _ => false

/-- Whether the visited node refers to the binding of the given name, or declares it. -/
def binds (visit : Visit) (name : String) : Bool :=
  visit.node.form.name? == some name && !visit.isKey

def children (parent : Node) (above : Position) : Nat → List Node → List Visit
  | _, [] => []
  | index, node :: nodes => ⟨parent, above, index, node⟩ :: children parent above (index + 1) nodes

end Visit

namespace Node

/-- Walks on from a stack of visits that are due, in as many steps as stated: the first visit is
made and replaced on the stack by the visits of the children. -/
def walkFrom : Nat → List Visit → List Visit
  | 0, _ => []
  | _ + 1, [] => []
  | steps + 1, visit :: due =>
    visit ::
      walkFrom steps (Visit.children visit.node visit.position 0 visit.node.children ++ due)

def walk (root : Node) : List Visit :=
  walkFrom root.size (Visit.children root [] 0 root.children)

def at? : Node → Position → Option Node
  | node, [] => some node
  | node, index :: rest =>
    match node.children[index]? with
    | some child => child.at? rest
    | none => none

def modifyAt (change : Node → Node) : Node → Position → Node
  | node, [] => change node
  | mk form comments children, index :: rest =>
    mk form comments (children.modify index fun child => child.modifyAt change rest)

/-- The first comments on the way from a node to its first child, the first child of that, and so
on. -/
def leadingComments : Node → List String
  | mk _ (comment :: comments) _ => comment :: comments
  | mk _ [] [] => []
  | mk _ [] (child :: _) => leadingComments child

def dropLeadingComments : Node → Node
  | mk form (_ :: _) children => mk form [] children
  | mk form [] [] => mk form [] []
  | mk form [] (child :: children) => mk form [] (dropLeadingComments child :: children)

/-- The node as a replacement for another: it takes over the leading comments unless it has
comments of its own. -/
def inPlaceOf (new old : Node) : Node :=
  if new.comments.isEmpty then new.withComments old.leadingComments else new

/-- Replaces the child of the node at `above` that stands at `position`; the new node takes over
its comments. There is no result if no child stands there. -/
def replaceChild? (root : Node) (above position : Position) (new : Node) : Option Node :=
  if position.dropLast = above ∧ position ≠ [] then
    match root.at? position with
    | some old => some (root.modifyAt (fun _ => new.inPlaceOf old) position)
    | none => none
  else none

/-- The names that a program binds or refers to, in order of first appearance. Names of properties
are left out. -/
def boundNames (program : Node) : List String :=
  (program.walk.filterMap fun visit =>
    if visit.isKey then none else visit.node.form.name?).eraseDups

end Node

end ScriptModules.Tree
