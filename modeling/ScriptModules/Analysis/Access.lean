import ScriptModules.Analysis.TypeCheck
import ScriptModules.Corpus.Index

/-!
# Accesses to the global object

The analysis of a script finds the properties of the global object that it assigns, its provides,
and the ones that it only uses, its requires. At each access the name of the global object is
replaced by a marker. A script is excluded if it accesses a property that is not named, or if the
global object is used in any other way. The file that creates the global object is only searched
for provides.
-/

namespace ScriptModules

inductive Exclusion where
  | computedAssignment
  | computedExpression
  | globalReferenced
deriving DecidableEq, Repr

def Exclusion.reason : Exclusion → String
  | computedAssignment => "computed assignment"
  | computedExpression => "computed expression"
  | globalReferenced => "namespace still referenced"

namespace Access

open ScriptModules.Tree

def marker : String :=
  "$"

def isAccess (globalName : String) (node : Node) : Bool :=
  (node.form == .member || node.form == .element) &&
    (node.children.head?.bind fun base => base.form.name?) == some globalName

def accessedName (node : Node) : String :=
  (node.children[1]?.bind fun name => name.form.name?).getD ""

def noteAssignment (globalName : String) (provides : Ledger Provide) (node : Node) :
    Except Exclusion (Ledger Provide) :=
  match node.form, node.children with
  | .assign _, [left, right] =>
    if isAccess globalName left then
      if left.form = .element then .error .computedAssignment
      else .ok (provides.put (accessedName left) { kind := ProvideKind.ofNode right })
    else .ok provides
  | _, _ => .ok provides

/-- The provides of a tree, added to given ones. A later assignment decides about the kind. -/
def collectProvides (globalName : String) (provides : Ledger Provide) (tree : Node) :
    Except Exclusion (Ledger Provide) :=
  (tree.walk.map Visit.node).foldlM (noteAssignment globalName) provides

def accesses (globalName : String) (tree : Node) : List Visit :=
  tree.walk.filter fun visit => isAccess globalName visit.node

def addSite (script : Script) (name : String) (site : Position) : Script :=
  match script.provides.get? name with
  | some provide =>
    { script with
      provides := script.provides.put name { provide with sites := provide.sites ++ [site] } }
  | none =>
    let sites := (script.requires.get? name).getD []
    { script with requires := script.requires.put name (sites ++ [site]) }

def setBase (tree : Node) (site : Position) (base : Node) : Node :=
  tree.modifyAt base.inPlaceOf (site ++ [0])

def markAccess (base : Node) (script : Script) (visit : Visit) : Script :=
  let script := addSite script (accessedName visit.node) visit.position
  { script with tree := setBase script.tree visit.position base }

def refersToGlobal (globalName : String) (tree : Node) : Bool :=
  tree.walk.any fun visit => visit.binds globalName

/-- Records and marks the accesses of a script. A script with an access that is not named stays as
it is; one that refers to the global object afterwards is marked all the same. -/
def markAccesses (globalName : String) (script : Script) :
    Except Fault (Script × Option Exclusion) := do
  let found := accesses globalName script.tree
  if found.any fun visit => visit.node.form == .element then
    pure (script, some .computedExpression)
  else
    let base ← Template.reference marker
    let marked := found.foldl (markAccess base) script
    if refersToGlobal globalName marked.tree then pure (marked, some .globalReferenced)
    else pure (marked, none)

def rootProvides (settings : Settings) (script : Script) : Ledger Provide :=
  if script.isRoot then
    settings.rootNames.foldl (fun provides name => provides.put name { kind := .literal })
      script.provides
  else script.provides

/-- Classifies the accesses of a script. An excluded script provides and requires nothing. -/
def classify (settings : Settings) (script : Script) :
    Except Fault (Script × Option Exclusion) := do
  let excluded (script : Script) (exclusion : Exclusion) : Script × Option Exclusion :=
    ({ script with provides := [], requires := [] }, some exclusion)
  match collectProvides settings.globalName (rootProvides settings script) script.tree with
  | .error exclusion => pure (excluded script exclusion)
  | .ok provides =>
    let script := { script with provides }
    -- the root creates the global object, so its own accesses stay
    if script.isRoot then pure (script, none)
    else
      match ← markAccesses settings.globalName script with
      | (script, some exclusion) => pure (excluded script exclusion)
      | (script, none) => pure (script, none)

end Access

end ScriptModules
