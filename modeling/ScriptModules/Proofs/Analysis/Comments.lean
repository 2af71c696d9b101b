import ScriptModules.Proofs.Analysis.Recast
import ScriptModules.Proofs.Tree.Comments
import ScriptModules.Proofs.Tree.Template

/-!
# Comments behind the analysis

The replacement of type checks and the redirection of accesses move comments and drop some. Comments
that are dropped stand behind a check, behind an accessed object, or in front of the object of an
access that has comments of its own (`holdsOn`). Both carry all the others: the first to where they
stay firm (`TypeCheck.carried_replace`), the second for good (`Access.Redirected.carried`).
-/

namespace ScriptModules

open ScriptModules.Tree
open Node (Carried remarks remarksFrom)

variable {settings : Settings}

/-- Whether a conversion holds on to the comments of a child of a node. It lets go the right side of a
type check, the name of an accessed property, and the accessed object if the access has comments of its
own. -/
def holdsOn (settings : Settings) (node : Node) (index : Nat) : Bool :=
  if (TypeCheck.ofNode? settings node).isSome then index == 0
  else if node.form == .member && Access.isAccess settings.globalName node then
    index == 0 && node.comments.isEmpty
  else true

/-! ## What a node is to its parent -/

structure Like (settings : Settings) (old new : Node) : Prop where
  name : new.form.name? = old.form.name?
  right : TypeCheck.ofRight? settings new = TypeCheck.ofRight? settings old

theorem Like.refl (node : Node) : Like settings node node :=
  ⟨rfl, rfl⟩

theorem Like.of_bare {old new : Node} (same : new.bare = old.bare) : Like settings old new where
  name := by rw [← new.form_bare, same, old.form_bare]
  right := by rw [← TypeCheck.ofRight?_bare, same, TypeCheck.ofRight?_bare]

theorem likes_map {α : Type} {read : Node → α} {olds news : List Node}
    (likes : List.Forall₂ (Like settings) olds news)
    (same : ∀ old new, Like settings old new → read new = read old) :
    news.map read = olds.map read := by
  induction likes with
  | nil => rfl
  | cons first _ ih => rw [List.map_cons, List.map_cons, same _ _ first, ih]

theorem Access.isAccess_congr {globalName : String} {node node' : Node}
    (form : node'.form = node.form)
    (names : node'.children.map (fun child => child.form.name?) =
      node.children.map fun child => child.form.name?) :
    isAccess globalName node' = isAccess globalName node := by
  have first (node : Node) : (node.children.head?.bind fun base => base.form.name?) =
      (node.children.map fun child => child.form.name?).head?.join := by
    rw [List.head?_map]
    cases node.children.head? <;> rfl
  rw [isAccess, isAccess, form, first, first, names]

theorem holdsOn_mono {node node' : Node} (form : node'.form = node.form)
    (likes : List.Forall₂ (Like settings) node.children node'.children)
    (silent : node.comments = [] → node'.comments = []) (index : Nat)
    (held : holdsOn settings node index = true) : holdsOn settings node' index = true := by
  have names := likes_map likes fun _ _ => Like.name
  have rights := likes_map likes fun _ _ => Like.right
  unfold holdsOn at held ⊢
  rw [TypeCheck.ofNode?_congr form rights, form, Access.isAccess_congr form names]
  by_cases check : (TypeCheck.ofNode? settings node).isSome = true
  · rwa [if_pos check] at held ⊢
  · rw [if_neg check] at held ⊢
    by_cases access : (node.form == .member && Access.isAccess settings.globalName node) = true
    · rw [if_pos access, Bool.and_eq_true, List.isEmpty_iff] at held ⊢
      exact held.imp_right silent
    · rw [if_neg access]

theorem likes_self (nodes : List Node) : List.Forall₂ (Like settings) nodes nodes :=
  List.forall₂_same.mpr fun node _ => .refl node

theorem holdsOn_uncommented (form : Form) (comments : List String) (children : List Node)
    (index : Nat) : holdsOn settings (.mk form comments children) index = true →
      holdsOn settings (.mk form [] children) index = true :=
  holdsOn_mono (by rfl) (likes_self children) (fun _ => rfl) index

theorem holdsOn_dropped (form : Form) (child : Node) (children : List Node) (index : Nat) :
    holdsOn settings (.mk form [] (child :: children)) index = true →
      holdsOn settings (.mk form [] (child.dropLeadingComments :: children)) index = true :=
  holdsOn_mono (by rfl) (.cons (.of_bare child.bare_dropLeadingComments) (likes_self children))
    (by exact id) index

theorem carried_modifyAt {root old : Node} {change : Node → Node} {p : Position}
    (here : root.at? p = some old) (like : Like settings old (change old))
    (carried : Carried (holdsOn settings) (holdsOn settings) old (change old)) :
    Like settings root (root.modifyAt change p) ∧
      Carried (holdsOn settings) (holdsOn settings) root (root.modifyAt change p) := by
  induction p generalizing root with
  | nil =>
      rw [Node.at?_nil] at here
      cases here
      rw [Node.modifyAt_nil]
      exact ⟨like, carried⟩
  | cons index p ih =>
      obtain ⟨form, comments, children⟩ := root
      rw [Node.at?_cons, Node.children_mk] at here
      obtain ⟨child, place, below⟩ := Option.bind_eq_some_iff.mp here
      rw [Node.modifyAt]
      have each : List.Forall₂ (fun old new => Like settings old new ∧
          Carried (holdsOn settings) (holdsOn settings) old new) children
          (children.modify index fun child => child.modifyAt change p) := by
        refine Node.forall₂_modify (List.forall₂_same.mpr fun node _ =>
          ⟨.refl node, .refl node⟩) fun old new found found' _ => ?_
        cases place.symm.trans found
        cases place.symm.trans found'
        exact ih below
      have likes := each.imp fun _ _ => And.left
      exact ⟨⟨rfl, TypeCheck.ofRight?_congr rfl (likes_map likes fun _ _ => Like.name)⟩,
        .mk (holdsOn_mono rfl likes id) (each.imp fun _ _ => And.right)⟩

/-! ## Replaced type checks -/

namespace TypeCheck

theorem remarks_tree (check : Check) (helper : String) (value : Node) (lead : List String)
    (firm : Bool) : ((check.tree helper value).withComments lead).remarks (holdsOn settings) firm =
      (if lead.isEmpty then [] else [(lead, firm)]) ++ value.remarks (holdsOn settings) firm := by
  unfold Check.tree
  split
  · simp [tagTree, Node.access, Node.invocation, Node.of, Node.identifier, Node.withComments,
      remarks, remarksFrom, holdsOn, ofNode?, Access.isAccess, Form.name?]
  · simp [markTree, Node.access, Node.assignment, Node.of, Node.identifier, Node.withComments,
      remarks, remarksFrom, holdsOn, ofNode?, Access.isAccess, Form.name?]

theorem carried_replacement {node value : Node} {check : Check} {helper : String}
    (sound : node.Sound) (found : ofNode? settings node = some check) (name : IsHelper helper)
    (run : replacement check helper node = .ok value) :
    Like settings node value ∧ Carried (holdsOn settings) (holdsOn settings) node value := by
  obtain ⟨left, right, form, children, own⟩ := ofNode?_eq_some found
  have sound' : right.Sound := sound.child (by simp [children])
  obtain ⟨checked, dropped⟩ : ∃ checked,
      node.dropLeadingComments = .mk (.binary "instanceof") [] [checked, right] := by
    obtain ⟨_, comments, _⟩ := node
    cases form
    cases children
    cases comments with
    | nil => exact ⟨_, rfl⟩
    | cons comment comments => exact ⟨_, rfl⟩
  have held : holdsOn settings (.mk (.binary "instanceof") [] [checked, right]) =
      fun index => index == 0 := by
    rw [← ofNode?_bare node, ← node.bare_dropLeadingComments, dropped, ofNode?_bare] at found
    funext index
    rw [holdsOn, found, Option.isSome_some, if_pos rfl]
  rw [replacement, dropped, Node.children_mk, List.take_succ_cons, List.take_zero,
    expression_template sound' own name, Node.identifier, Node.of, Template.inPlaceOf_place] at run
  cases run
  refine ⟨⟨by simp [check.form_tree, form, Form.name?], by simp [ofRight?, check.form_tree, form]⟩, ?_⟩
  intro firm firm' firmer
  have leading := Node.carries_leading (@holdsOn_uncommented settings) holdsOn_dropped node firmer
    firmer
  rw [dropped, remarks, remarksFrom, remarksFrom, remarksFrom, held] at leading
  rw [remarks_tree]
  refine leading.trans ((Carries.refl _).append ?_)
  -- the right side of the check goes with its comments
  have kept := (Carries.refl (checked.remarks (holdsOn settings) firm')).append
    (.of_loose (@Node.loose_remarks (holdsOn settings) right))
  simpa using kept

theorem carried_replace {script checked : Script} {events : List Event}
    (sound : script.tree.Sound) (taken : ∀ name ∈ script.tree.names, name ∈ script.names)
    (run : replace settings script = .ok (checked, events)) :
    Carried (holdsOn settings) (holdsOn settings) script.tree checked.tree ∧
      checked.tree.comments = script.tree.comments := by
  let Holds (pass : Pass) :=
    Carried (holdsOn settings) (holdsOn settings) script.tree pass.script.tree ∧
      pass.script.tree.comments = script.tree.comments
  have step (done : List Visit) (met : Visit) (before after : Pass)
      (_ : met ∈ candidates script.tree) (keeps : Keeps settings script before) (holds : Holds before)
      (run : Pass.replaceAt settings before met = .ok after) : Holds after := by
    rcases replaceAt_cases run with
      ⟨-, rfl⟩ | ⟨node, check, helper, between, value, here, found, named, made, rfl⟩
    · exact holds
    · obtain ⟨carried, same⟩ := holds
      obtain ⟨-, fits, -, tree⟩ := helper_keeps keeps (keeps.global here found) named
      obtain ⟨like, step⟩ := carried_replacement (keeps.sound.at? here) found fits made
      have below : met.position ≠ [] := by simp [Visit.position]
      simp only [Holds, tree]
      refine ⟨carried.trans (@carried_modifyAt _ _ _ (fun _ => value) _ here like step).2, ?_⟩
      rw [Node.comments_modifyAt_of_ne_nil _ _ below, same]
  obtain ⟨pass, -, carried, -, rfl⟩ := replace_invariant sound taken (fun _ => Holds)
    ⟨.refl _, rfl⟩ step run
  exact carried

end TypeCheck

/-! ## Redirected accesses -/

namespace Access

/-- A tree with other nodes at some of its accesses. The object of an access is replaced by a value
without comments, which takes over those of the object, or the whole access is replaced by a name that
takes over its leading comments. -/
inductive Redirected (globalName : String) : Node → Node → Prop
  | object {comments own keyed : List String} {base key : Form} {value : Node}
      (access : isAccess globalName
        (.mk .member comments [.mk base own [], .mk key keyed []]) = true)
      (plain : value.bare = value) :
      Redirected globalName (.mk .member comments [.mk base own [], .mk key keyed []])
        (.mk .member comments [value.withComments own, .mk key keyed []])
  | whole {comments own keyed : List String} {base key : Form} (bound : String)
      (access : isAccess globalName
        (.mk .member comments [.mk base own [], .mk key keyed []]) = true) :
      Redirected globalName (.mk .member comments [.mk base own [], .mk key keyed []])
        (.mk (.identifier bound) (if comments.isEmpty then own else comments) [])
  | other {form : Form} {comments : List String} {children children' : List Node}
      (idle : isAccess globalName (.mk form comments children) = false)
      (each : List.Forall₂ (Redirected globalName) children children') :
      Redirected globalName (.mk form comments children) (.mk form comments children')

def AllNamed (globalName : String) (tree : Node) : Prop :=
  ∀ p node, tree.at? p = some node → isAccess globalName node = true → node.form ≠ .element

theorem AllNamed.child {globalName : String} {form : Form} {comments : List String}
    {children : List Node} (named : AllNamed globalName (.mk form comments children)) {child : Node}
    (member : child ∈ children) : AllNamed globalName child := by
  intro p node here
  obtain ⟨index, place⟩ := List.mem_iff_getElem?.mp member
  refine named (index :: p) node ?_
  rw [Node.at?_cons, Node.children_mk, place]
  exact here

section

variable {globalName : String}

mutual

theorem redirected_self : ∀ node : Node, node.Sound → AllNamed globalName node →
    Redirected globalName node node
  | .mk form comments children, sound, named => by
      cases access : isAccess globalName (.mk form comments children) with
      | false =>
          exact .other access (redirecteds_self children
            fun child member => ⟨sound.child member, named.child member⟩)
      | true =>
          have here := Node.at?_nil (.mk form comments children)
          obtain ⟨⟨⟨base, own, _⟩, ⟨_, ⟨key, keyed, _⟩, place, -, keyLeaf⟩, baseLeaf⟩, -⟩ :=
            leafAccessAt_of_isAccess sound here access (named [] _ here access)
          cases here.symm.trans place
          cases keyLeaf
          cases baseLeaf
          exact @Redirected.object _ _ own _ base _ (.mk base [] []) access rfl

theorem redirecteds_self : ∀ nodes : List Node,
    (∀ node ∈ nodes, node.Sound ∧ AllNamed globalName node) →
    List.Forall₂ (Redirected globalName) nodes nodes
  | [], _ => .nil
  | node :: nodes, each =>
      .cons (redirected_self node (each node List.mem_cons_self).1 (each node List.mem_cons_self).2)
        (redirecteds_self nodes fun other member => each other (List.mem_cons_of_mem _ member))

end

namespace Redirected

theorem idle_below {comments own keyed : List String} {base key : Form} {index : Nat} {p : Position}
    {node : Node} (here : (Node.mk .member comments [.mk base own [], .mk key keyed []]).at?
      (index :: p) = some node) : isAccess globalName node = false := by
  rw [Node.at?_cons, Node.children_mk] at here
  obtain ⟨child, place, here⟩ := Option.bind_eq_some_iff.mp here
  have leaf : child.children = [] := by
    match index with
    | 0 => cases place; rfl
    | 1 => cases place; rfl
    | _ + 2 => cases place
  cases p with
  | nil =>
      rw [Node.at?_nil] at here
      cases here
      simp [isAccess, leaf]
  | cons index p =>
      rw [Node.at?_cons, leaf] at here
      cases here

theorem modifyAt {old new node : Node} {change : Node → Node} {p : Position}
    (redirected : Redirected globalName old new) (here : old.at? p = some node)
    (access : isAccess globalName node = true)
    (step : ∀ last, Redirected globalName node last → Redirected globalName node (change last)) :
    Redirected globalName old (new.modifyAt change p) := by
  induction p generalizing old new with
  | nil =>
      rw [Node.at?_nil] at here
      cases here
      rw [Node.modifyAt_nil]
      exact step _ redirected
  | cons index p ih =>
      cases redirected with
      | object own plain => cases access.symm.trans (idle_below here)
      | whole bound own => cases access.symm.trans (idle_below here)
      | other idle each =>
          rw [Node.at?_cons, Node.children_mk] at here
          -- no access stands below another, so it is the only one on the way that changes
          obtain ⟨child, place, below⟩ := Option.bind_eq_some_iff.mp here
          rw [Node.modifyAt]
          refine .other idle (Node.forall₂_modify each fun old new found _ redirected => ?_)
          cases place.symm.trans found
          exact ih redirected below

theorem setBase {old new node value : Node} {site : Position}
    (redirected : Redirected globalName old new) (here : old.at? site = some node)
    (access : isAccess globalName node = true) (plain : value.bare = value) :
    Redirected globalName old (Access.setBase new site value) := by
  rw [Access.setBase, Node.modifyAt_append]
  refine redirected.modifyAt here access fun last own => ?_
  cases own with
  | object met plain' =>
      rename_i comments own keyed base key value'
      have placed : value.inPlaceOf (value'.withComments own) = value.withComments own := by
        rw [Node.inPlaceOf_of_plain plain, Node.leadingComments_withComments plain']
      rw [Node.modifyAt, List.modify_zero_cons, Node.modifyAt_nil, placed]
      exact .object access plain
  | whole bound _ => exact .whole bound access
  | other idle _ => cases access.symm.trans idle

theorem putIdentifier {old new node : Node} {site : Position}
    (redirected : Redirected globalName old new) (here : old.at? site = some node)
    (access : isAccess globalName node = true) (bound : String) :
    Redirected globalName old (new.modifyAt (Node.identifier bound).inPlaceOf site) := by
  refine redirected.modifyAt here access fun last own => ?_
  rw [Node.inPlaceOf_of_plain rfl]
  cases own with
  | object met plain =>
      rename_i comments own keyed base key value
      have lead : (Node.mk .member comments
          [value.withComments own, .mk key keyed []]).leadingComments =
            if comments.isEmpty then own else comments := by
        cases comments with
        | nil => exact Node.leadingComments_withComments plain own
        | cons comment comments => rfl
      rw [lead]
      exact .whole bound access
  | whole bound' met =>
      rename_i comments own keyed base key
      have lead := @Node.leadingComments_withComments (.identifier bound') rfl
        (if comments.isEmpty then own else comments)
      rw [show (Node.mk (.identifier bound') _ []).leadingComments = _ from lead]
      exact .whole bound access
  | other idle _ => cases access.symm.trans idle

end Redirected

end

mutual

theorem Redirected.carried : ∀ {old new : Node}, Redirected settings.globalName old new →
    Carried (holdsOn settings) (fun _ _ => true) old new
  | .mk form comments children, _, redirected => by
      cases redirected with
      | object access plain =>
          refine .mk (fun _ _ => rfl)
            (.cons (fun firm firm' firmer => ?_) (.cons (Node.carried_self (fun _ _ _ => rfl) _) .nil))
          rw [Node.remarks_withComments plain, remarks, remarksFrom, List.append_nil]
          exact Node.carries_own _ firmer
      | whole bound access =>
          rename_i own keyed base key
          -- the name takes over one list of comments, that of the access or else that of its object
          have held (index : Nat) : holdsOn settings
              (.mk .member comments [.mk base own [], .mk key keyed []]) index =
                (index == 0 && comments.isEmpty) := by
            simp [holdsOn, TypeCheck.ofNode?, access]
          have dropped (node : Node) := Carries.of_loose (@Node.loose_remarks (holdsOn settings) node)
          intro firm firm' firmer
          rw [remarks, remarks, remarksFrom, remarksFrom, remarksFrom, remarksFrom, held, held]
          cases comments with
          | nil =>
              have kept := (Node.carries_own own firmer).append (dropped (.mk key keyed []))
              simpa [remarks, remarksFrom] using kept
          | cons comment comments =>
              have loose := (dropped (.mk base own [])).append (dropped (.mk key keyed []))
              simpa using Carries.keep (comment :: comments) firmer loose
      | other idle each => exact .mk (fun _ _ => rfl) (Redirected.carrieds each)

theorem Redirected.carrieds : ∀ {olds news : List Node},
    List.Forall₂ (Redirected settings.globalName) olds news →
    List.Forall₂ (Carried (holdsOn settings) (fun _ _ => true)) olds news
  | [], _, each => by
      cases each
      exact .nil
  | _ :: _, _, each => by
      cases each with
      | cons first rest => exact .cons first.carried (carrieds rest)

end

theorem redirected_classify {script result : Script} (unread : Unread script)
    (program : script.tree.form = .program) (other : script.isRoot = false)
    (run : classify settings script = .ok (result, none)) :
    Redirected settings.globalName script.tree result.tree := by
  obtain ⟨provides, -, marks⟩ := classify_eq_ok unread.provides other run
  obtain ⟨_, classified⟩ := classify_classified unread other run
  have named : AllNamed settings.globalName script.tree := by
    intro p node here access
    obtain ⟨visit, met, -, rfl⟩ := exists_visit program here access
    exact classified.named visit met
  rw [eq_markAll marks, markAll]
  -- every access is marked where it stood in the tree from the start
  refine foldl_invariant (fun _ (marked : Script) =>
    Redirected settings.globalName script.tree marked.tree) ?_ (redirected_self _ unread.sound named)
  intro done visit todo marked parts redirected
  have found : visit ∈ accesses settings.globalName script.tree := by
    rw [show accesses settings.globalName script.tree = done ++ visit :: todo from parts]
    simp
  obtain ⟨met, access⟩ := List.mem_filter.mp found
  rw [markAccess, tree_addSite]
  exact redirected.setBase (Node.at?_position_of_mem_walk met) access rfl

end Access

/-! ## Leading comments -/

theorem not_statement_of_name {node statement : Node} {name : String} {p : Position}
    (sound : node.Sound) (named : node.form.name? = some name) (here : node.at? p = some statement) :
    statement.form.isStatement = false := by
  have leaf := sound.leaf named
  cases p with
  | nil =>
      rw [Node.at?_nil, Option.some.injEq] at here
      rw [← here]
      cases form : node.form <;> rw [form] at named <;> first | rfl | cases named
  | cons index p =>
      rw [Node.at?_cons, leaf] at here
      cases here

theorem not_statement_of_access {node base key statement : Node} {name name' : String} {p : Position}
    (sound : node.Sound) (form : node.form = .member) (children : node.children = [base, key])
    (based : base.form.name? = some name) (keyed : key.form.name? = some name')
    (here : node.at? p = some statement) : statement.form.isStatement = false := by
  match p with
  | [] =>
      rw [Node.at?_nil, Option.some.injEq] at here
      rw [← here, form]
      rfl
  | 0 :: p =>
      rw [Node.at?_cons, children] at here
      exact not_statement_of_name (sound.child (by simp [children])) based here
  | 1 :: p =>
      rw [Node.at?_cons, children] at here
      exact not_statement_of_name (sound.child (by simp [children])) keyed here
  | (_ + 2) :: p =>
      rw [Node.at?_cons, children] at here
      cases here

theorem TypeCheck.not_statement_of_right {right statement : Node} {check : Check} {p : Position}
    (sound : right.Sound) (found : ofRight? settings right = some check)
    (here : right.at? p = some statement) : statement.form.isStatement = false := by
  unfold ofRight? at found
  split at found
  · rename_i base key form children
    split at found
    · rename_i global
      obtain ⟨type, named, -⟩ := Option.map_eq_some_iff.mp found
      exact not_statement_of_access sound form children global named here
    · cases found
  · rename_i type _ form
    exact not_statement_of_name sound (by rw [form]; rfl) here
  · rename_i type _ form
    exact not_statement_of_name sound (by rw [form]; rfl) here
  · cases found

theorem holdsOn_of_statement {node statement : Node} {index : Nat} {p : Position}
    (sound : node.Sound) (here : node.at? (index :: p) = some statement)
    (stated : statement.form.isStatement = true) : holdsOn settings node index = true := by
  unfold holdsOn
  split
  · rename_i checked
    obtain ⟨check, found⟩ := Option.isSome_iff_exists.mp checked
    obtain ⟨left, right, -, children, own⟩ := TypeCheck.ofNode?_eq_some found
    rw [Node.at?_cons, children] at here
    match index with
    | 0 => rfl
    | 1 =>
        have none := TypeCheck.not_statement_of_right (sound.child (by simp [children])) own here
        cases stated.symm.trans none
    | _ + 2 => cases here
  · split
    · rename_i access
      obtain ⟨form, access⟩ := Bool.and_eq_true_iff.mp access
      have root := Node.at?_nil node
      obtain ⟨⟨base, ⟨comments, key, place, keyed, -⟩, -⟩, -⟩ :=
        Access.leafAccessAt_of_isAccess sound root access (by simp [eq_of_beq form])
      cases root.symm.trans place
      have based : base.form.name? = some settings.globalName := by
        simpa [Access.isAccess] using access
      have none := not_statement_of_access sound rfl rfl based (by rw [keyed]; rfl) here
      cases stated.symm.trans none
    · rfl

theorem firmAt_statement {root statement : Node} {p : Position} (sound : root.Sound)
    (here : root.at? p = some statement) (stated : statement.form.isStatement = true) :
    Node.firmAt (holdsOn settings) root p = true := by
  induction p generalizing root with
  | nil => rfl
  | cons index p ih =>
      rw [Node.firmAt, holdsOn_of_statement sound here stated, Bool.true_and]
      rw [Node.at?_cons] at here
      obtain ⟨child, place, below⟩ := Option.bind_eq_some_iff.mp here
      rw [place]
      exact ih (sound.child (List.mem_of_getElem? place)) below

theorem firmAt_replicate {node : Node} {depth : Nat}
    (uncommented : ∀ less < depth, ∀ below, node.at? (List.replicate less 0) = some below →
      below.comments = []) :
    Node.firmAt (holdsOn settings) node (List.replicate depth 0) = true := by
  induction depth generalizing node with
  | zero => rfl
  | succ depth ih =>
      have own : holdsOn settings node 0 = true := by
        unfold holdsOn
        split
        · rfl
        · split
          · rw [uncommented 0 (by omega) node (Node.at?_nil node)]
            rfl
          · rfl
      rw [List.replicate_succ, Node.firmAt, own, Bool.true_and]
      cases place : node.children[0]? with
      | none => rfl
      | some child =>
          refine ih fun less above below here => uncommented (less + 1) (by omega) below ?_
          rw [List.replicate_succ, Node.at?_cons, place]
          exact here

theorem firmAt_of_leads {root : Node} {p : Position} (sound : root.Sound) (leads : root.Leads p) :
    Node.firmAt (holdsOn settings) root p = true := by
  obtain ⟨q, statement, depth, here, stated, rfl, only⟩ := leads
  rw [Node.firmAt_append, firmAt_statement sound here stated, here, Bool.true_and]
  exact firmAt_replicate fun less above below => Node.Leads.uncommented only here above

end ScriptModules
