import Mathlib.Data.List.Forall2
import ScriptModules.Proofs.Tree.Grammar
import ScriptModules.Proofs.Tree.Names

/-!
# Comments of trees

The comments of a tree are listed with the positions of their nodes, in the order of a walk
(`commented`). A change of a tree carries the comments if it keeps them in their order and drops only
such as stand below a child that its parent lets go (`Carried`). The other comments are firm. After
any number of changes each firm comment is still there, once, and no comment that was not there before
(`Carried.exists_kept`).
-/

namespace ScriptModules.Tree

/-- A list of comments becomes another: each comment stays, or is dropped if it is not firm. Comments
that are firm stay so. -/
inductive Carries : List (List String × Bool) → List (List String × Bool) → Prop
  | nil : Carries [] []
  | keep (comments : List String) {firm firm' : Bool} {old new : List (List String × Bool)} :
      (firm = true → firm' = true) → Carries old new →
      Carries ((comments, firm) :: old) ((comments, firm') :: new)
  | drop (comments : List String) {old new : List (List String × Bool)} :
      Carries old new → Carries ((comments, false) :: old) new

namespace Carries

variable {first second third more : List (List String × Bool)}

theorem refl : ∀ list : List (List String × Bool), Carries list list
  | [] => .nil
  | (comments, _) :: rest => .keep comments id (refl rest)

theorem trans (one : Carries first second) (other : Carries second third) :
    Carries first third := by
  induction one generalizing third with
  | nil => exact other
  | keep comments firmer _ ih =>
      cases other with
      | keep _ firmer' rest => exact .keep comments (firmer' ∘ firmer) (ih rest)
      | drop _ rest =>
          rename_i firm _ _ _
          cases firm with
          | true => cases firmer rfl
          | false => exact .drop comments (ih rest)
  | drop comments _ ih => exact .drop comments (ih other)

theorem append {old new : List (List String × Bool)} (one : Carries first second)
    (other : Carries old new) : Carries (first ++ old) (second ++ new) := by
  induction one with
  | nil => exact other
  | keep comments firmer _ ih => exact .keep comments firmer ih
  | drop comments _ ih => exact .drop comments ih

theorem of_loose : ∀ {list : List (List String × Bool)},
    (∀ entry ∈ list, entry.2 = false) → Carries list []
  | [], _ => .nil
  | (comments, _) :: rest, loose => by
      cases loose _ List.mem_cons_self
      exact .drop comments (of_loose fun entry member => loose entry (List.mem_cons_of_mem _ member))

theorem exists_kept {α : Type} (comments : α → List String) (firm : α → Bool) {items : List α}
    (carries : Carries (items.map fun item => (comments item, firm item)) second) :
    ∃ kept : List α, kept.Sublist items ∧ (∀ item ∈ items, firm item = true → item ∈ kept) ∧
      second.map Prod.fst = kept.map comments := by
  induction items generalizing second with
  | nil =>
      cases carries
      exact ⟨[], List.Sublist.slnil, by simp, rfl⟩
  | cons item items ih =>
      rw [List.map_cons] at carries
      generalize flag : firm item = loose at carries
      cases carries with
      | keep _ _ rest =>
          obtain ⟨kept, sublist, all, same⟩ := ih rest
          refine ⟨item :: kept, sublist.cons_cons item, ?_, by simp [same]⟩
          intro other member firm
          rcases List.mem_cons.mp member with rfl | member
          · exact List.mem_cons_self
          · exact List.mem_cons_of_mem _ (all other member firm)
      | drop _ rest =>
          obtain ⟨kept, sublist, all, same⟩ := ih rest
          refine ⟨kept, sublist.cons item, ?_, same⟩
          intro other member firm
          rcases List.mem_cons.mp member with rfl | member
          · cases firm.symm.trans flag
          · exact all other member firm

end Carries

namespace Node

mutual

def commented : Node → List (Position × List String)
  | mk _ comments children =>
    (if comments.isEmpty then [] else [([], comments)]) ++ commentedFrom 0 children

def commentedFrom : Nat → List Node → List (Position × List String)
  | _, [] => []
  | index, child :: rest =>
    (commented child).map (fun entry => (index :: entry.1, entry.2)) ++
      commentedFrom (index + 1) rest

end

mutual

theorem mem_commented (p : Position) (comments : List String) : ∀ root : Node,
    (p, comments) ∈ root.commented ↔
      comments ≠ [] ∧ (root.at? p).map Node.comments = some comments
  | mk form own children => by
      rw [commented, List.mem_append, mem_commentedFrom]
      cases p with
      | nil =>
          cases own with
          | nil => simp [eq_comm]
          | cons comment own =>
              simp only [List.isEmpty_cons, Bool.false_eq_true, if_false, List.mem_singleton,
                Prod.mk.injEq, true_and, at?_nil, Option.map_some, comments_mk, Option.some.injEq]
              constructor
              · rintro (rfl | ⟨i, rest, impossible, -⟩)
                · simp
                · cases impossible
              · exact fun same => .inl same.2.symm
      | cons index rest =>
          cases own <;> simp [at?_cons]

theorem mem_commentedFrom (p : Position) (comments : List String) : ∀ (index : Nat)
    (nodes : List Node), (p, comments) ∈ commentedFrom index nodes ↔
      ∃ i rest, p = (index + i) :: rest ∧ comments ≠ [] ∧
        (nodes[i]?.bind fun child => child.at? rest).map Node.comments = some comments
  | _, [] => by simp [commentedFrom]
  | index, child :: nodes => by
      rw [commentedFrom, List.mem_append, mem_commentedFrom p comments (index + 1) nodes]
      constructor
      · rintro (first | ⟨i, rest, rfl, later⟩)
        · obtain ⟨⟨rest, own⟩, member, same⟩ := List.mem_map.mp first
          cases same
          exact ⟨0, rest, rfl, (mem_commented rest own child).mp member⟩
        · exact ⟨i + 1, rest, by rw [Nat.add_assoc, Nat.add_comm 1], later⟩
      · rintro ⟨i, rest, rfl, here⟩
        cases i with
        | zero =>
            exact .inl (List.mem_map.mpr ⟨(rest, comments), (mem_commented rest comments child).mpr
              here, rfl⟩)
        | succ i => exact .inr ⟨i, rest, by rw [Nat.add_assoc, Nat.add_comm 1], here⟩

end

mutual

theorem nodup_commented : ∀ root : Node, root.commented.Nodup
  | mk form own children => by
      rw [commented, List.nodup_append]
      refine ⟨?_, nodup_commentedFrom 0 children, ?_⟩
      · split <;> simp
      · rintro entry member ⟨p, comments⟩ member' rfl
        obtain ⟨i, rest, rfl, -⟩ := (mem_commentedFrom p comments 0 children).mp member'
        split at member
        · cases member
        · simp at member

theorem nodup_commentedFrom : ∀ (index : Nat) (nodes : List Node), (commentedFrom index nodes).Nodup
  | _, [] => .nil
  | index, child :: rest => by
      rw [commentedFrom, List.nodup_append]
      refine ⟨List.Pairwise.map _ (fun first second distinct same => distinct ?_)
          (nodup_commented child), nodup_commentedFrom (index + 1) rest, ?_⟩
      · obtain ⟨above, comments⟩ := Prod.mk.inj same
        exact Prod.ext (List.cons.inj above).2 comments
      · rintro entry member ⟨p, comments⟩ member' rfl
        obtain ⟨i, below, rfl, -⟩ := (mem_commentedFrom p comments (index + 1) rest).mp member'
        obtain ⟨first, -, same⟩ := List.mem_map.mp member
        have head := (List.cons.inj (Prod.mk.inj same).1).1
        omega

end

/-! ## Firm comments -/

section

variable (holds : Node → Nat → Bool)

/-- Whether every node on the way to a position holds on to the child on this way. -/
def firmAt : Node → Position → Bool
  | _, [] => true
  | node, index :: rest =>
    holds node index && (node.children[index]?.elim true fun child => child.firmAt rest)

theorem firmAt_append (node : Node) (p q : Position) : firmAt holds node (p ++ q) =
    (firmAt holds node p && (node.at? p).elim true fun below => firmAt holds below q) := by
  induction p generalizing node with
  | nil => simp [firmAt]
  | cons index p ih =>
      rw [List.cons_append, firmAt, firmAt, at?_cons]
      cases node.children[index]? with
      | none => simp
      | some child => simp [ih, Bool.and_assoc]

mutual

def remarks (firm : Bool) : Node → List (List String × Bool)
  | mk form comments children =>
    (if comments.isEmpty then [] else [(comments, firm)]) ++
      remarksFrom firm (mk form comments children) 0 children

def remarksFrom (firm : Bool) (parent : Node) : Nat → List Node → List (List String × Bool)
  | _, [] => []
  | index, child :: rest =>
    remarks (firm && holds parent index) child ++ remarksFrom firm parent (index + 1) rest

end

mutual

theorem remarks_eq (firm : Bool) : ∀ node : Node,
    remarks holds firm node =
      node.commented.map fun entry => (entry.2, firm && firmAt holds node entry.1)
  | mk form comments children => by
      rw [remarks, commented, List.map_append,
        remarksFrom_eq firm (mk form comments children) 0 children fun i => by simp]
      congr 1
      split <;> simp [firmAt]

theorem remarksFrom_eq (firm : Bool) (parent : Node) : ∀ (index : Nat) (nodes : List Node),
    (∀ i, parent.children[index + i]? = nodes[i]?) →
    remarksFrom holds firm parent index nodes =
      (commentedFrom index nodes).map fun entry => (entry.2, firm && firmAt holds parent entry.1)
  | _, [], _ => rfl
  | index, child :: rest, here => by
      have own : parent.children[index]? = some child := here 0
      have later := remarksFrom_eq firm parent (index + 1) rest fun i => by
        rw [Nat.add_assoc, Nat.add_comm 1, here (i + 1)]
        rfl
      rw [remarksFrom, commentedFrom, List.map_append, List.map_map, later, remarks_eq]
      simp [Function.comp_def, firmAt, own, Bool.and_assoc]

end

end

/-! ## Leading comments -/

def CommentedAt (root : Node) (p : Position) : Prop :=
  ∃ comments, (p, comments) ∈ root.commented

/-- The comments at a position lead a statement: there are no others on the way from the statement to
its first child, the first child of that, and so on. -/
def Leads (root : Node) (p : Position) : Prop :=
  ∃ q statement depth, root.at? q = some statement ∧ statement.form.isStatement = true ∧
    p = q ++ List.replicate depth 0 ∧
      ∀ other, root.CommentedAt (q ++ List.replicate other 0) → other = depth

theorem Leads.uncommented {root statement : Node} {q : Position} {depth : Nat}
    (only : ∀ other, root.CommentedAt (q ++ List.replicate other 0) → other = depth)
    (here : root.at? q = some statement) {less : Nat} (above : less < depth) {below : Node}
    (place : statement.at? (List.replicate less 0) = some below) : below.comments = [] := by
  by_contra commented
  refine absurd (only less ⟨below.comments, (mem_commented _ _ _).mpr ⟨commented, ?_⟩⟩) (by omega)
  rw [at?_append, here, Option.bind_some, place]
  rfl

/-! ## Changed children -/

theorem forall₂_modify {Related : Node → Node → Prop} {olds news : List Node}
    (each : List.Forall₂ Related olds news) {index : Nat} {change : Node → Node}
    (here : ∀ old new, olds[index]? = some old → news[index]? = some new → Related old new →
      Related old (change new)) : List.Forall₂ Related olds (news.modify index change) := by
  induction each generalizing index with
  | nil =>
      rw [List.modify_nil]
      exact .nil
  | cons first rest ih =>
      cases index with
      | zero => exact .cons (here _ _ rfl rfl first) rest
      | succ index => exact .cons first (ih here)

/-! ## Carried comments -/

def Carried (holds holds' : Node → Nat → Bool) (old new : Node) : Prop :=
  ∀ firm firm', (firm = true → firm' = true) →
    Carries (old.remarks holds firm) (new.remarks holds' firm')

section

variable {holds holds' holds'' : Node → Nat → Bool}

theorem Carried.trans {old between new : Node} (one : Carried holds holds' old between)
    (other : Carried holds' holds'' between new) : Carried holds holds'' old new :=
  fun firm firm' firmer => (one firm firm' firmer).trans (other firm' firm' id)

theorem carries_remarksFrom {parent parent' : Node}
    (held : ∀ index, holds parent index = true → holds' parent' index = true) {nodes nodes' : List Node}
    (each : List.Forall₂ (Carried holds holds') nodes nodes') {firm firm' : Bool}
    (firmer : firm = true → firm' = true) (index : Nat) :
    Carries (remarksFrom holds firm parent index nodes)
      (remarksFrom holds' firm' parent' index nodes') := by
  induction each generalizing index with
  | nil => exact .nil
  | cons first _ ih =>
      rw [remarksFrom, remarksFrom]
      refine (first _ _ ?_).append (ih (index + 1))
      simp only [Bool.and_eq_true]
      exact And.imp firmer (held index)

theorem carries_own (comments : List String) {firm firm' : Bool} (firmer : firm = true → firm' = true) :
    Carries (if comments.isEmpty then [] else [(comments, firm)])
      (if comments.isEmpty then [] else [(comments, firm')]) := by
  split
  · exact .nil
  · exact .keep comments firmer .nil

theorem Carried.mk {form form' : Form} {comments : List String} {children children' : List Node}
    (held : ∀ index, holds (.mk form comments children) index = true →
      holds' (.mk form' comments children') index = true)
    (each : List.Forall₂ (Carried holds holds') children children') :
    Carried holds holds' (.mk form comments children) (.mk form' comments children') := by
  intro firm firm' firmer
  rw [remarks, remarks]
  exact (carries_own comments firmer).append (carries_remarksFrom held each firmer 0)

mutual

theorem carried_self (held : ∀ node index, holds node index = true → holds' node index = true) :
    ∀ node : Node, Carried holds holds' node node
  | .mk _ _ children => .mk (held _) (carried_selves held children)

theorem carried_selves (held : ∀ node index, holds node index = true → holds' node index = true) :
    ∀ nodes : List Node, List.Forall₂ (Carried holds holds') nodes nodes
  | [] => .nil
  | node :: nodes => .cons (carried_self held node) (carried_selves held nodes)

end

theorem Carried.refl (node : Node) : Carried holds holds node node :=
  carried_self (fun _ _ => id) node

mutual

theorem loose_remarks : ∀ node : Node, ∀ entry ∈ remarks holds false node, entry.2 = false
  | .mk form comments children, entry, member => by
      rw [remarks] at member
      rcases List.mem_append.mp member with own | below
      · split at own
        · cases own
        · rw [List.mem_singleton.mp own]
      · exact loose_remarksFrom _ 0 children entry below

theorem loose_remarksFrom (parent : Node) : ∀ (index : Nat) (nodes : List Node),
    ∀ entry ∈ remarksFrom holds false parent index nodes, entry.2 = false
  | _, [], _, member => by cases member
  | index, child :: rest, entry, member => by
      rw [remarksFrom, Bool.false_and] at member
      rcases List.mem_append.mp member with first | later
      · exact loose_remarks child entry first
      · exact loose_remarksFrom parent (index + 1) rest entry later

end

mutual

theorem remarks_bare (firm : Bool) : ∀ node : Node, remarks holds firm node.bare = []
  | .mk form comments children => by
      rw [bare, remarks, remarksFrom_bares firm]
      rfl

theorem remarksFrom_bares (firm : Bool) (parent : Node) : ∀ (index : Nat) (nodes : List Node),
    remarksFrom holds firm parent index (bares nodes) = []
  | _, [] => rfl
  | index, child :: rest => by
      rw [bares, remarksFrom, remarks_bare _ child, remarksFrom_bares firm parent _ rest]
      rfl

end

theorem remarksFrom_of_plain {nodes : List Node} (plain : ∀ node ∈ nodes, node.bare = node)
    (firm : Bool) (parent : Node) (index : Nat) : remarksFrom holds firm parent index nodes = [] := by
  have same : bares nodes = nodes := by
    rw [bares_eq_map]
    exact (List.map_congr_left plain).trans (List.map_id' nodes)
  rw [← same]
  exact remarksFrom_bares firm parent index nodes

theorem remarksFrom_append (firm : Bool) (parent : Node) (index : Nat) (nodes more : List Node) :
    remarksFrom holds firm parent index (nodes ++ more) =
      remarksFrom holds firm parent index nodes ++
        remarksFrom holds firm parent (index + nodes.length) more := by
  induction nodes generalizing index with
  | nil => rfl
  | cons node nodes ih =>
      rw [List.cons_append, remarksFrom, remarksFrom, ih, List.append_assoc, List.length_cons,
        Nat.add_right_comm, Nat.add_assoc]

theorem remarksFrom_held (firm : Bool) (parent parent' : Node) (index index' : Nat)
    (nodes : List Node) : remarksFrom (fun _ _ => true) firm parent index nodes =
      remarksFrom (fun _ _ => true) firm parent' index' nodes := by
  induction nodes generalizing index index' with
  | nil => rfl
  | cons node nodes ih => rw [remarksFrom, remarksFrom, ih (index + 1) (index' + 1)]

theorem Carried.grow {form : Form} {comments : List String} {children more : List Node}
    (held : ∀ index, holds (.mk form comments children) index = true →
      holds (.mk form comments (children ++ more)) index = true)
    (plain : ∀ node ∈ more, node.bare = node) :
    Carried holds holds (.mk form comments children) (.mk form comments (children ++ more)) := by
  intro firm firm' firmer
  rw [remarks, remarks, remarksFrom_append, remarksFrom_of_plain plain, List.append_nil]
  exact (carries_own comments firmer).append
    (carries_remarksFrom held (carried_selves (fun _ _ => id) children) firmer 0)

theorem leadingComments_bare : ∀ node : Node, node.bare.leadingComments = []
  | mk _ _ [] => rfl
  | mk _ _ (child :: _) => leadingComments_bare child

theorem leadingComments_withComments {node : Node} (plain : node.bare = node)
    (comments : List String) : (node.withComments comments).leadingComments = comments := by
  have none := node.leadingComments_bare
  rw [plain] at none
  obtain ⟨form, own, children⟩ := node
  cases own with
  | cons comment own => cases none
  | nil =>
      cases comments with
      | nil => exact none
      | cons comment comments => rfl

theorem inPlaceOf_of_plain {value old : Node} (plain : value.bare = value) :
    value.inPlaceOf old = value.withComments old.leadingComments := by
  have none : value.comments = [] := by
    rw [← plain]
    cases value
    rfl
  rw [inPlaceOf, none, if_pos List.isEmpty_nil]

theorem remarks_withComments {node : Node} (plain : node.bare = node) (comments : List String)
    (firm : Bool) : (node.withComments comments).remarks holds firm =
      if comments.isEmpty then [] else [(comments, firm)] := by
  rw [← plain]
  obtain ⟨form, own, children⟩ := node
  rw [bare, withComments, remarks, remarksFrom_bares, List.append_nil]

theorem carries_leading
    (uncommented : ∀ form comments children index, holds (.mk form comments children) index = true →
      holds (.mk form [] children) index = true)
    (dropped : ∀ form child children index, holds (.mk form [] (child :: children)) index = true →
      holds (.mk form [] (child.dropLeadingComments :: children)) index = true)
    (node : Node) {firm lead rest : Bool} (leads : firm = true → lead = true)
    (rests : firm = true → rest = true) :
    Carries (node.remarks holds firm)
      ((if node.leadingComments.isEmpty then [] else [(node.leadingComments, lead)]) ++
        node.dropLeadingComments.remarks holds rest) := by
  induction node using dropLeadingComments.induct generalizing firm lead rest with
  | case1 form comment comments children =>
      rw [leadingComments, dropLeadingComments, remarks, remarks]
      refine .keep _ leads (carries_remarksFrom (uncommented form _ children) ?_ rests 0)
      exact carried_selves (fun _ _ => id) children
  | case2 form => exact .nil
  | case3 form child children ih =>
      rw [leadingComments, dropLeadingComments, remarks, remarks, remarksFrom, remarksFrom]
      -- the comments that are moved are those of the first child, which comes first anyway
      have below : (firm && holds (.mk form [] (child :: children)) 0) = true →
          (rest && holds (.mk form [] (child.dropLeadingComments :: children)) 0) = true := by
        intro both
        obtain ⟨firm, held⟩ := Bool.and_eq_true_iff.mp both
        rw [rests firm, dropped form child children 0 held]
        rfl
      have first := @ih _ lead _ (fun both => leads (Bool.and_eq_true_iff.mp both).1) below
      have later := carries_remarksFrom (dropped form child children)
        (carried_selves (fun _ _ => id) children) rests 1
      simpa using first.append later

end

end Node

end ScriptModules.Tree
