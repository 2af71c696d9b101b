import ScriptModules.Proofs.Analysis.Exchange

namespace ScriptModules.Access

open ScriptModules.Tree

/-! ## Uses of the global object -/

section

variable (globalName : String) (tree : Node)

/-- Every reference to the global object is the object of an access to a named property. -/
def IsStatic : Prop :=
  ∀ visit ∈ tree.walk, visit.binds globalName = true →
    visit.parent.form = .member ∧ visit.index = 0

def AccessesComputed : Prop :=
  ∃ visit ∈ tree.walk, visit.node.form = .element ∧ isAccess globalName visit.node = true

def IsComputedAssignment (node : Node) : Prop :=
  ∃ operator left right, node.form = .assign operator ∧ node.children = [left, right] ∧
    left.form = .element ∧ isAccess globalName left = true

def AssignsComputed : Prop :=
  ∃ visit ∈ tree.walk, IsComputedAssignment globalName visit.node

/-- The verdict of the analysis on a tree. -/
structure Verdict (exclusion? : Option Exclusion) : Prop where
  accepted : exclusion? = none ↔ IsStatic globalName tree
  assignment : exclusion? = some .computedAssignment ↔ AssignsComputed globalName tree
  expression : exclusion? = some .computedExpression ↔
    ¬AssignsComputed globalName tree ∧ AccessesComputed globalName tree
  referenced : exclusion? = some .globalReferenced ↔
    ¬IsStatic globalName tree ∧ ¬AssignsComputed globalName tree ∧ ¬AccessesComputed globalName tree

end

variable {globalName : String} {tree : Node}

theorem AssignsComputed.accesses (assigns : AssignsComputed globalName tree) :
    AccessesComputed globalName tree := by
  obtain ⟨visit, met, operator, left, right, form, children, element, access⟩ := assigns
  refine ⟨⟨visit.node, visit.position, 0, left⟩, Node.mem_walk.mpr ⟨?_, ?_⟩, element, access⟩
  · exact Node.at?_position_of_mem_walk met
  · rw [children]
    rfl

theorem IsStatic.not_computed (static : IsStatic globalName tree) :
    ¬AccessesComputed globalName tree := by
  rintro ⟨visit, met, element, access⟩
  simp only [isAccess, Bool.and_eq_true, beq_iff_eq] at access
  obtain ⟨base, first, named⟩ := Option.bind_eq_some_iff.mp access.2
  have visited : ⟨visit.node, visit.position, 0, base⟩ ∈ tree.walk := by
    refine Node.mem_walk.mpr ⟨Node.at?_position_of_mem_walk met, ?_⟩
    rwa [← List.head?_eq_getElem?]
  have binds : (⟨visit.node, visit.position, 0, base⟩ : Visit).binds globalName = true := by
    simp [Visit.binds, Visit.isKey, named, element]
  obtain ⟨member, -⟩ := static _ visited binds
  cases element.symm.trans member

/-! ## Collected provides -/

theorem collectProvides_cases (globalName : String) (given : Ledger Provide) (tree : Node) :
    AssignsComputed globalName tree ∧
        collectProvides globalName given tree = .error .computedAssignment ∨
      ¬AssignsComputed globalName tree ∧
        ∃ provides, collectProvides globalName given tree = .ok provides := by
  have refuses (before : Ledger Provide) (node : Node)
      (refused : IsComputedAssignment globalName node) :
      noteAssignment globalName before node = .error .computedAssignment := by
    obtain ⟨operator, left, right, form, children, element, access⟩ := refused
    rw [noteAssignment, form, children]
    simp [element, access]
  have accepts (before : Ledger Provide) (node : Node)
      (accepted : ¬IsComputedAssignment globalName node) :
      ∃ after, noteAssignment globalName before node = .ok after := by
    unfold noteAssignment
    split
    · rename_i operator left right form children
      split
      · rename_i access
        have named : left.form ≠ .element :=
          fun element => accepted ⟨operator, left, right, form, children, element, access⟩
        rw [if_neg named]
        exact ⟨_, rfl⟩
      · exact ⟨_, rfl⟩
    · exact ⟨_, rfl⟩
  rcases foldlM_refuses refuses accepts (tree.walk.map Visit.node) given with
    ⟨⟨node, member, refused⟩, stopped⟩ | ⟨accepted, ended⟩
  · obtain ⟨visit, met, rfl⟩ := List.mem_map.mp member
    exact .inl ⟨⟨visit, met, refused⟩, stopped⟩
  · refine .inr ⟨?_, ended⟩
    rintro ⟨visit, met, refused⟩
    exact accepted _ (List.mem_map_of_mem met) refused

/-! ## References that are left -/

def Refers (globalName : String) (tree : Node) (p : Position) (index : Nat) (above : Form) : Prop :=
  (tree.at? p).map Node.form = some above ∧
    ((tree.at? (p ++ [index])).map Node.form).bind Form.name? = some globalName ∧
      above.isKeyAt index = false

theorem exists_binds_iff (P : Form → Nat → Prop) :
    (∃ visit ∈ tree.walk, visit.binds globalName = true ∧ P visit.parent.form visit.index) ↔
      ∃ p index above, Refers globalName tree p index above ∧ P above index := by
  constructor
  · rintro ⟨visit, met, binds, holds⟩
    have here := Node.at?_position_of_mem_walk met
    simp only [Visit.binds, Visit.isKey_eq, Bool.and_eq_true, beq_iff_eq,
      Bool.not_eq_true'] at binds
    refine ⟨visit.above, visit.index, visit.parent.form, ⟨?_, ?_, binds.2⟩, holds⟩
    · rw [(Node.mem_walk.mp met).1, Option.map_some]
    · rw [show visit.above ++ [visit.index] = visit.position from rfl, here]
      exact binds.1
  · rintro ⟨p, index, above, ⟨parent, named, noKey⟩, holds⟩
    obtain ⟨node, here, rfl⟩ := Option.map_eq_some_iff.mp parent
    rw [Node.at?_snoc here] at named
    obtain ⟨form, formed, named⟩ := Option.bind_eq_some_iff.mp named
    obtain ⟨child, place, rfl⟩ := Option.map_eq_some_iff.mp formed
    refine ⟨⟨node, p, index, child⟩, Node.mem_walk.mpr ⟨here, place⟩, ?_, holds⟩
    simp [Visit.binds, Visit.isKey_eq, named, noKey]

theorem refersToGlobal_iff : refersToGlobal globalName tree = true ↔
    ∃ p index above, Refers globalName tree p index above := by
  have iff := @exists_binds_iff globalName tree fun _ _ => True
  simpa [refersToGlobal] using iff

theorem not_isStatic_iff : ¬IsStatic globalName tree ↔
    ∃ p index above, Refers globalName tree p index above ∧ ¬(above = .member ∧ index = 0) := by
  rw [← exists_binds_iff fun above index => ¬(above = .member ∧ index = 0)]
  simp [IsStatic]

section

variable {start script : Script} {p p' : Position} {index : Nat} {above : Form} {name : String}

theorem Refers.not_below (refers : Refers globalName tree p index above)
    (leaf : LeafAccessAt tree p' name) : ¬p' ++ [0] <+: p := by
  obtain ⟨parent, named, -⟩ := refers
  obtain ⟨node, here, -⟩ := Option.map_eq_some_iff.mp parent
  refine leaf.not_base_above here fun none => ?_
  rw [Node.at?_snoc here, none] at named
  cases named

theorem Refers.congr {other : Node} (refers : Refers globalName tree p index above)
    (parent : (other.at? p).map Node.form = (tree.at? p).map Node.form)
    (child : (other.at? (p ++ [index])).map Node.form =
      (tree.at? (p ++ [index])).map Node.form) : Refers globalName other p index above :=
  ⟨parent.trans refers.1, by rw [child]; exact refers.2.1, refers.2.2⟩

theorem Refers.isBase (refers : Refers globalName tree p index above)
    (leaf : LeafAccessAt tree p' name) (below : p' ++ [0] <+: p ++ [index]) :
    above = .member ∧ index = 0 := by
  rcases List.prefix_concat_iff.mp below with whole | below
  · obtain ⟨rfl, last⟩ := List.append_inj' whole rfl
    obtain ⟨base, ⟨comments, key, here, -⟩, -⟩ := leaf
    have parent := refers.1
    rw [here] at parent
    exact ⟨(Option.some.inj parent).symm, by simpa using last.symm⟩
  · exact absurd below (refers.not_below leaf)

/-- The references that are left behind the marking are those that are no objects of accesses. -/
theorem refersToGlobal_marked (program : start.tree.form = .program) (sound : start.tree.Sound)
    (apart : globalName ≠ marker)
    (named : ∀ visit ∈ accesses globalName start.tree, visit.node.form ≠ .element)
    (marks : Marks globalName start (accesses globalName start.tree) script) :
    refersToGlobal globalName script.tree = true ↔ ¬IsStatic globalName start.tree := by
  rw [refersToGlobal_iff, not_isStatic_iff]
  -- outside of the objects of the accesses, the trees have the same forms
  have outside {p : Position} {index : Nat} (apart : ∀ visit ∈ accesses globalName start.tree,
      ¬visit.position ++ [0] <+: p ++ [index]) := And.intro
    (marks.rest p fun visit met below => apart visit met (below.trans (List.prefix_append _ _)))
    (marks.rest (p ++ [index]) apart)
  constructor
  · rintro ⟨p, index, above, refers⟩
    have free : ∀ visit ∈ accesses globalName start.tree,
        ¬visit.position ++ [0] <+: p ++ [index] := by
      intro visit met below
      have marked := marks.marked visit met
      rcases List.prefix_concat_iff.mp below with whole | below
      · obtain ⟨base, access, form, -⟩ := marked
        have found := refers.2.1
        rw [← whole, access.base_at?, Option.map_some, form] at found
        exact apart (Option.some.inj found).symm
      · exact refers.not_below marked.leaf below
    obtain ⟨parent, child⟩ := outside free
    have refers := refers.congr parent.symm child.symm
    refine ⟨p, index, above, refers, ?_⟩
    rintro ⟨rfl, rfl⟩
    -- the object of an access is marked
    obtain ⟨node, here, form⟩ := Option.map_eq_some_iff.mp refers.1
    have found := refers.2.1
    rw [Node.at?_snoc here] at found
    have access : isAccess globalName node = true := by
      rw [Option.bind_map] at found
      simp only [isAccess, form, List.head?_eq_getElem?, Bool.and_eq_true, beq_iff_eq]
      exact ⟨rfl, found⟩
    obtain ⟨visit, met, place, -⟩ := exists_visit program here access
    exact free visit met (place ▸ List.prefix_rfl)
  · rintro ⟨p, index, above, refers, other⟩
    obtain ⟨parent, child⟩ := outside fun visit met below =>
      other (refers.isBase (leafAccessAt_of_mem_accesses sound named met).1 below)
    exact ⟨p, index, above, refers.congr parent child⟩

end

/-! ## The verdict -/

theorem Verdict.of_assignment (assigns : AssignsComputed globalName tree) :
    Verdict globalName tree (some .computedAssignment) := by
  have notStatic : ¬IsStatic globalName tree := fun static => static.not_computed assigns.accesses
  constructor <;> simp [assigns, notStatic]

theorem Verdict.of_expression (assigns : ¬AssignsComputed globalName tree)
    (accesses : AccessesComputed globalName tree) :
    Verdict globalName tree (some .computedExpression) := by
  have notStatic : ¬IsStatic globalName tree := fun static => static.not_computed accesses
  constructor <;> simp [assigns, accesses, notStatic]

theorem Verdict.of_referenced (accesses : ¬AccessesComputed globalName tree)
    (static : ¬IsStatic globalName tree) : Verdict globalName tree (some .globalReferenced) := by
  have assigns := mt AssignsComputed.accesses accesses
  constructor <;> simp [assigns, accesses, static]

theorem Verdict.of_static (static : IsStatic globalName tree) : Verdict globalName tree none := by
  have accesses := static.not_computed
  have assigns := mt AssignsComputed.accesses accesses
  constructor <;> simp [assigns, accesses, static]

theorem accessesComputed_iff : AccessesComputed globalName tree ↔
    ((accesses globalName tree).any fun visit => visit.node.form == .element) = true := by
  simp [AccessesComputed, accesses, and_comm]

/-- What the analysis leaves of a script that it excludes: nothing that was collected, and the tree as
it was unless the accesses were marked already. -/
structure Blank (script result : Script) (exclusion : Exclusion) : Prop where
  provides : result.provides = []
  requires : result.requires = []
  tree : exclusion ≠ .globalReferenced → result.tree = script.tree

theorem markAccesses_verdict {script result : Script} {exclusion? : Option Exclusion}
    (program : script.tree.form = .program) (sound : script.tree.Sound)
    (apart : globalName ≠ marker) (fresh : ∀ name, script.recorded name = [])
    (noRequires : script.requires = []) (assigns : ¬AssignsComputed globalName script.tree)
    (run : markAccesses globalName script = .ok (result, exclusion?)) :
    Verdict globalName script.tree exclusion? ∧
      (exclusion? ≠ some .globalReferenced → exclusion? ≠ none → result.tree = script.tree) := by
  rcases markAccesses_cases globalName script with ⟨computed, excluded⟩ | ⟨noElement, marks⟩
  · cases run.symm.trans excluded
    exact ⟨.of_expression assigns (accessesComputed_iff.mpr computed), fun _ _ => rfl⟩
  · have named := named_of_not_any noElement
    have residual := refersToGlobal_marked program sound apart named
      (markAll_marks sound named fresh noRequires)
    have accesses := mt accessesComputed_iff.mp noElement
    rw [marks] at run
    split at run
    · rename_i referenced
      cases run
      exact ⟨.of_referenced accesses (residual.mp referenced), by simp⟩
    · rename_i absent
      cases run
      exact ⟨.of_static (by_contra fun static => absent (residual.mpr static)), by simp⟩

theorem classify_verdict {settings : Settings} {script result : Script}
    {exclusion? : Option Exclusion} (unread : Unread script) (program : script.tree.form = .program)
    (other : script.isRoot = false) (apart : settings.globalName ≠ marker)
    (run : classify settings script = .ok (result, exclusion?)) :
    Verdict settings.globalName script.tree exclusion? ∧
      ∀ exclusion ∈ exclusion?, Blank script result exclusion := by
  have given : rootProvides settings script = [] := by
    simp [rootProvides, other, unread.provides]
  unfold classify at run
  rw [given] at run
  dsimp only at run
  rcases collectProvides_cases settings.globalName [] script.tree with
    ⟨assigns, stopped⟩ | ⟨assigns, provides, collected⟩
  · rw [stopped] at run
    cases run
    refine ⟨.of_assignment assigns, ?_⟩
    rintro exclusion ⟨⟩
    exact ⟨rfl, rfl, fun _ => rfl⟩
  · rw [collected] at run
    dsimp only at run
    rw [if_neg (by simp [other])] at run
    obtain ⟨⟨marked, found⟩, marks, run⟩ := bind_eq_ok_iff.mp run
    have fresh := (collectProvides_collected (by simp) (by simp) collected).recorded_eq_nil
      unread.requires
    obtain ⟨verdict, kept⟩ := @markAccesses_verdict _ { script with provides } _ _ program
      unread.sound apart fresh unread.requires assigns marks
    cases found with
    | none =>
        cases run
        exact ⟨verdict, by simp⟩
    | some found =>
        cases run
        refine ⟨verdict, ?_⟩
        rintro exclusion ⟨⟩
        exact ⟨rfl, rfl, fun computed => kept (by simpa using computed) (by simp)⟩

end ScriptModules.Access
