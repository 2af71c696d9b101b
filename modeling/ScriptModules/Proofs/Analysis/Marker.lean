import ScriptModules.Proofs.Analysis.Substitution
import ScriptModules.Proofs.Analysis.TypeCheck

namespace ScriptModules

open ScriptModules.Tree

structure LooksAt (tree : Node) (helper mark : String) (site : Position) : Prop where
  access : (tree.at? site).map Node.form = some .member
  base : (tree.at? (site ++ [0])).map Node.form = some (.identifier helper)
  key : (tree.at? (site ++ [1])).map Node.form = some (.propertyName mark)

namespace LooksAt

variable {tree changed node : Node} {helper mark : String} {site place p : Position}

theorem of_forms (looks : LooksAt tree helper mark site)
    (same : ∀ q, (changed.at? (place ++ q)).map Node.form = (tree.at? (site ++ q)).map Node.form) :
    LooksAt changed helper mark place where
  access := by simpa [looks.access] using same []
  base := (same [0]).trans looks.base
  key := (same [1]).trans looks.key

theorem below_iff (here : tree.at? p = some node) :
    LooksAt tree helper mark (p ++ site) ↔ LooksAt node helper mark site := by
  have same (q : Position) : tree.at? (p ++ q) = node.at? q := by
    rw [Node.at?_append, here, Option.bind_some]
  constructor
  · exact fun looks => looks.of_forms fun q => by rw [List.append_assoc, same]
  · exact fun looks => looks.of_forms fun q => by rw [List.append_assoc, same]

theorem modifyAt (looks : LooksAt tree helper mark site) (here : tree.at? p = some node)
    (form : node.form = .binary "instanceof") (apart : ¬p <+: site) (change : Node → Node) :
    LooksAt (tree.modifyAt change p) helper mark site := by
  have stays {q : Position} {own : Form} (other : own ≠ .binary "instanceof")
      (given : (tree.at? q).map Node.form = some own) (outside : p <+: q → p = q) :
      ((tree.modifyAt change p).at? q).map Node.form = some own := by
    rw [Node.form_at?_modifyAt _ _ fun above => ?_, given]
    obtain rfl := outside above
    rw [here, Option.map_some, form] at given
    exact other (Option.some.inj given).symm
  have end_of {i : Nat} (above : p <+: site ++ [i]) : p = site ++ [i] :=
    (List.prefix_concat_iff.mp above).resolve_right apart
  exact ⟨stays (by simp) looks.access fun above => absurd above apart,
    stays (by simp) looks.base end_of, stays (by simp) looks.key end_of⟩

theorem not_access (sound : node.Sound) (form : node.form = .member) {name : String}
    (named : (node.children.head?.bind fun base => base.form.name?) = some name)
    (other : helper ≠ name) : ¬LooksAt node helper mark site := by
  intro looks
  obtain ⟨own, comments, children⟩ := node
  obtain rfl : own = .member := form
  obtain ⟨base, key, property, rfl, keyed⟩ := sound.fits
  have based : base.form.name? = some name := named
  have keyed' : key.form.name? = some property := by
    rw [keyed]
    rfl
  cases site with
  | nil =>
      have same : base.form = .identifier helper := Option.some.inj looks.base
      rw [same] at based
      exact other (Option.some.inj based)
  | cons index rest =>
      -- below the access there are two leaves with names, and a look is neither
      have access := looks.access
      rw [Node.at?_cons, Node.children_mk] at access
      have leaf : ∃ child ∈ [base, key], (child.at? rest).map Node.form = some .member := by
        cases place : [base, key][index]? with
        | none => simp [place] at access
        | some child =>
            rw [place, Option.bind_some] at access
            exact ⟨child, List.mem_of_getElem? place, access⟩
      obtain ⟨child, member, access⟩ := leaf
      have childNamed : ∃ name, child.form.name? = some name := by
        rcases List.mem_cons.mp member with rfl | member
        · exact ⟨name, based⟩
        · rw [List.mem_singleton.mp member]
          exact ⟨property, keyed'⟩
      obtain ⟨name, childNamed⟩ := childNamed
      cases rest with
      | nil =>
          have same : child.form = .member := Option.some.inj access
          rw [same] at childNamed
          cases childNamed
      | cons index rest =>
          rw [Node.at?_cons, (sound.child member).leaf childNamed] at access
          cases access

end LooksAt

namespace LooksAt

variable {tree changed : Node} {helper mark globalName : String} {site : Position}

theorem off (looks : LooksAt tree helper mark site) (sound : tree.Sound)
    (named : ∀ p node, tree.at? p = some node → Access.isAccess globalName node = true →
      node.form = .member) (other : helper ≠ globalName) {q : Position}
    (part : q = site ∨ q = site ++ [0] ∨ q = site ++ [1]) :
    Access.OffAccesses globalName tree q := by
  intro p node above here
  rw [Bool.eq_false_iff]
  intro access
  have form := named p node here access
  have global : (node.children.head?.bind fun base => base.form.name?) = some globalName :=
    eq_of_beq (Bool.and_eq_true_iff.mp access).2
  have within : ¬p <+: site := by
    rintro ⟨rest, rfl⟩
    exact not_access (sound.at? here) form global other ((below_iff here).mp looks)
  have place : p = q := by
    rcases part with rfl | rfl | rfl
    · exact absurd above within
    · exact (List.prefix_concat_iff.mp above).resolve_right within
    · exact (List.prefix_concat_iff.mp above).resolve_right within
  subst place
  rcases part with rfl | rfl | rfl
  · exact within List.prefix_rfl
  · have base := looks.base
    rw [here, Option.map_some, form] at base
    cases base
  · have key := looks.key
    rw [here, Option.map_some, form] at key
    cases key

theorem substitutes (looks : LooksAt tree helper mark site) (sound : tree.Sound)
    (named : ∀ p node, tree.at? p = some node → Access.isAccess globalName node = true →
      node.form = .member) (other : helper ≠ globalName) {value : String → Node}
    (substitutes : Access.Substitutes globalName value tree changed) :
    LooksAt changed helper mark site where
  access := (substitutes.forms _ (looks.off sound named other (.inl rfl))).trans looks.access
  base := (substitutes.forms _ (looks.off sound named other (.inr (.inl rfl)))).trans looks.base
  key := (substitutes.forms _ (looks.off sound named other (.inr (.inr rfl)))).trans looks.key

end LooksAt

/-! ## Replaced checks -/

namespace TypeCheck

variable {settings : Settings} {check : Check} {helper mark : String}

def Check.hole (check : Check) : Position :=
  if check.native then [0, 0, 0, 0, 1, 0] else [0, 0, 0, 0, 0, 1]

theorem Check.at?_hole (check : Check) (helper : String) (value : Node) :
    (check.tree helper value).at? check.hole = some value := by
  unfold tree hole
  split <;> rfl

theorem Check.tree_looks (foreign : check.native = false) (helper : String) (value : Node) :
    LooksAt (check.tree helper value) helper ("is" ++ check.type) [0, 1, 0, 0] := by
  rw [tree, if_neg (by simp [foreign])]
  exact ⟨rfl, rfl, rfl⟩

theorem not_looksAt_right {right : Node} (sound : right.Sound)
    (found : ofRight? settings right = some check) (other : helper ≠ settings.globalName)
    {site : Position} : ¬LooksAt right helper mark site := by
  unfold ofRight? at found
  split at found
  · rename_i base name form children
    split at found
    · rename_i named
      exact LooksAt.not_access sound form (by simpa [children] using named) other
    · cases found
  · rename_i type form
    exact not_looks_leaf sound (by rw [form]; rfl)
  · rename_i type form
    exact not_looks_leaf sound (by rw [form]; rfl)
  · cases found
where
  not_looks_leaf {leaf : Node} (sound : leaf.Sound) {name : String}
      (named : leaf.form.name? = some name) : ¬LooksAt leaf helper mark site := by
    intro looks
    have key := looks.key
    have none := sound.leaf named
    cases site with
    | nil => simp [Node.at?_cons, none] at key
    | cons index rest => simp [Node.at?_cons, none] at key

theorem Pass.instanceName_helper (pass : Pass) :
    (pass.helper false).2.instanceName = some (pass.helper false).1 := by
  unfold Pass.helper
  simp only [Bool.false_eq_true, if_false]
  split
  · assumption
  · rfl

def Looked (settings : Settings) (pass : Pass) : Prop :=
  ∀ path type, .typeChecked path type false ∈ pass.events → ∃ helper site,
    helper ≠ settings.globalName ∧ LooksAt pass.script.tree helper ("is" ++ type) site

theorem looksAt_left {node left right : Node} {site : Position} (sound : node.Sound)
    (form : node.form = .binary "instanceof") (children : node.children = [left, right])
    (found : ofRight? settings right = some check) (other : helper ≠ settings.globalName)
    (looks : LooksAt node helper mark site) : ∃ rest, LooksAt left helper mark rest := by
  cases site with
  | nil =>
      have access : node.form = .member := Option.some.inj looks.access
      rw [form] at access
      cases access
  | cons index rest =>
      cases place : node.children[index]? with
      | none =>
          have access := looks.access
          simp [Node.at?_cons, place] at access
      | some child =>
          have inside : node.at? [index] = some child := by
            rw [Node.at?_cons, place]
            rfl
          replace looks : LooksAt child helper mark rest := (LooksAt.below_iff inside).mp looks
          rw [children] at place
          cases index with
          | zero =>
              cases place
              exact ⟨rest, looks⟩
          | succ index =>
              cases index with
              | zero =>
                  cases place
                  exact absurd looks (not_looksAt_right (sound.child (by simp [children])) found other)
              | succ index => cases place

theorem LooksAt.replaced {tree node value : Node} {p site : Position}
    (sound : node.Sound) (here : tree.at? p = some node)
    (found : ofNode? settings node = some check) {name : String} (fits : IsHelper name)
    (made : replacement check name node = .ok value) (other : helper ≠ settings.globalName)
    (looks : LooksAt tree helper mark site) :
    ∃ place, LooksAt (tree.modifyAt (fun _ => value) p) helper mark place := by
  obtain ⟨left, right, checked, form, children, found, same, -, made'⟩ :=
    replacement_eq sound found fits
  cases made.symm.trans made'
  by_cases below : p <+: site
  · obtain ⟨rest, rfl⟩ := below
    obtain ⟨rest, looks⟩ :=
      looksAt_left sound form children found other ((LooksAt.below_iff here).mp looks)
    refine ⟨p ++ (check.hole ++ rest), looks.of_forms fun q => ?_⟩
    rw [List.append_assoc, Node.at?_modifyAt_append, here, Option.bind_some,
      Node.form_at?_of_bare (Node.bare_withComments _ _), List.append_assoc, Node.at?_append,
      check.at?_hole, Option.bind_some, Node.form_at?_of_bare same]
  · exact ⟨site, looks.modifyAt here form below _⟩

theorem replaceAt_looked {script : Script} {pass next : Pass} {met : Visit}
    (keeps : Keeps settings script pass) (looked : Looked settings pass)
    (run : Pass.replaceAt settings pass met = .ok next) : Looked settings next := by
  rcases replaceAt_cases run with
    ⟨-, rfl⟩ | ⟨node, check, helper, between, value, here, found, named, made, rfl⟩
  · exact looked
  · obtain ⟨keeps', fits, -, tree⟩ := helper_keeps keeps (keeps.global here found) named
    have quiet := helper_events pass check.native
    rw [named] at quiet
    have sound := keeps.sound.at? here
    intro path type member
    dsimp only
    rw [tree]
    rcases List.mem_append.mp member with old | new
    · obtain ⟨other, site, apart, looks⟩ := looked path type (quiet ▸ old)
      obtain ⟨place, looks⟩ := LooksAt.replaced sound here found fits made apart looks
      exact ⟨other, place, apart, looks⟩
    · obtain ⟨-, rfl, foreign⟩ := Event.typeChecked.inj (List.mem_singleton.mp new)
      obtain ⟨left, right, checked, -, -, -, -, -, made'⟩ := replacement_eq sound found fits
      cases made.symm.trans made'
      have known : between.instanceName = some helper := by
        have known := pass.instanceName_helper
        rwa [foreign, named] at known
      refine ⟨helper, met.position ++ [0, 1, 0, 0], (keeps'.inst helper known).2.2,
        (check.tree_looks foreign.symm helper checked).of_forms fun q => ?_⟩
      rw [List.append_assoc, Node.at?_modifyAt_append, here, Option.bind_some,
        Node.form_at?_of_bare (Node.bare_withComments _ _)]

theorem replace_looks {script checked : Script} {events : List Event}
    (sound : script.tree.Sound) (taken : ∀ name ∈ script.tree.names, name ∈ script.names)
    (run : replace settings script = .ok (checked, events)) {path type : String}
    (event : .typeChecked path type false ∈ events) : ∃ helper site,
      helper ≠ settings.globalName ∧ LooksAt checked.tree helper ("is" ++ type) site := by
  obtain ⟨pass, -, looked, rfl, rfl⟩ := replace_invariant sound taken (fun _ => Looked settings)
    (by simp [Looked]) (fun _ _ _ _ _ => replaceAt_looked) run
  exact looked path type event

end TypeCheck

end ScriptModules
