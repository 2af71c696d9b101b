import Mathlib.Data.List.Forall2
import ScriptModules.Proofs.Tree.Grammar

namespace ScriptModules.Tree

/-! ## Phrases that serve for others -/

/-- Wherever the old phrase may stand, the new one may stand too. -/
structure Phrase.Serves (new old : Phrase) : Prop where
  role : new.role = old.role ∨
    (∃ level ≤ Level.member, old.role = .operand level) ∧ new.role.level? = some Level.member
  opens : new.opens = true → old.opens = true
  exposesIn : new.exposesIn = true → old.exposesIn = true

namespace Phrase.Serves

variable {new old : Phrase} {news olds : List Phrase}

theorem refl (phrase : Phrase) : phrase.Serves phrase :=
  ⟨.inl rfl, id, id⟩

theorem trans {phrase between old : Phrase} (serves : phrase.Serves between)
    (serves' : between.Serves old) : phrase.Serves old where
  role := by
    rcases serves'.role with same | ⟨operand, member⟩
    · exact same ▸ serves.role
    · refine .inr ⟨operand, ?_⟩
      rcases serves.role with same | ⟨-, member'⟩
      · rw [same, member]
      · exact member'
  opens := fun opens => serves'.opens (serves.opens opens)
  exposesIn := fun exposes => serves'.exposesIn (serves.exposesIn exposes)

theorem isAtLeast (serves : new.Serves old) {weakest : Level}
    (fits : old.role.isAtLeast weakest = true) : new.role.isAtLeast weakest = true := by
  rcases serves.role with same | ⟨⟨level, bound, operand⟩, member⟩
  · rw [same]
    exact fits
  · rw [operand] at fits
    have weaker : weakest ≤ level := by simpa [Role.isAtLeast, Role.level?] using fits
    simp [Role.isAtLeast, member, Nat.le_trans weaker bound]

theorem role_of_part (serves : new.Serves old) {form : Form} (part : old.role = .part form) :
    new.role = old.role := by
  rcases serves.role with same | ⟨⟨level, -, operand⟩, -⟩
  · exact same
  · cases part.symm.trans operand

theorem not_imp {new old : Bool} (less : new = true → old = true) (absent : (!old) = true) :
    (!new) = true := by
  cases new with
  | false => rfl
  | true => simp [less rfl] at absent

theorem admits (serves : new.Serves old) {place : Place} (fits : place.admits old = true) :
    place.admits new = true := by
  cases place with
  | operand weakest => exact serves.isAtLeast fits
  | callee =>
      rcases serves.role with same | ⟨-, member⟩
      · simpa [Place.admits, same] using fits
      · simp [Place.admits, member]
  | target =>
      obtain ⟨fits, shut⟩ := (Bool.and_eq_true _ _).mp fits
      refine (Bool.and_eq_true _ _).mpr ⟨?_, not_imp serves.exposesIn shut⟩
      rcases (Bool.or_eq_true _ _).mp fits with fits | head
      · exact (Bool.or_eq_true _ _).mpr (.inl (serves.isAtLeast fits))
      · rw [serves.role_of_part (of_decide_eq_true head)]
        exact fits
  | item =>
      rcases (Bool.or_eq_true _ _).mp fits with fits | holes
      · exact (Bool.or_eq_true _ _).mpr (.inl (serves.isAtLeast fits))
      · refine (Bool.or_eq_true _ _).mpr (.inr ?_)
        cases role : old.role with
        | operand level => simp [role] at holes
        | part form => rwa [serves.role_of_part role]
  | beginning | condition | statement | name | key | entryKey | entry | part =>
      -- no expression stands here
      cases role : old.role with
      | operand level => simp [Place.admits, role] at fits
      | part form =>
          have same := serves.role_of_part role
          simp only [Place.admits, Bool.and_eq_true, same] at fits ⊢
          first
          | exact fits
          | exact ⟨fits.1, not_imp serves.exposesIn fits.2⟩
          | exact ⟨fits.1, not_imp serves.opens fits.2⟩

theorem admitsAll (serves : List.Forall₂ Phrase.Serves news olds) {places : List Place}
    (fits : Place.admitsAll places olds = true) : Place.admitsAll places news = true := by
  induction serves generalizing places with
  | nil => exact fits
  | cons first _ ih =>
      cases places with
      | nil => cases fits
      | cons place places =>
          obtain ⟨here, rest⟩ := (Bool.and_eq_true _ _).mp fits
          exact (Bool.and_eq_true _ _).mpr ⟨first.admits here, ih rest⟩

theorem any (serves : List.Forall₂ Phrase.Serves news olds) {holds : Phrase → Bool}
    (less : ∀ {new old : Phrase}, new.Serves old → holds new = true → holds old = true)
    (found : news.any holds = true) : olds.any holds = true := by
  induction serves with
  | nil => exact found
  | cons first _ ih =>
      rw [List.any_cons, Bool.or_eq_true] at found ⊢
      exact found.imp (less first) ih

theorem head?_any (serves : List.Forall₂ Phrase.Serves news olds) {holds : Phrase → Bool}
    (less : ∀ {new old : Phrase}, new.Serves old → holds new = true → holds old = true)
    (found : news.head?.any holds = true) : olds.head?.any holds = true := by
  cases serves with
  | nil => exact found
  | cons first _ => exact less first found

theorem isCall (serves : new.Serves old) (call : decide (new.role = .operand Level.call) = true) :
    decide (old.role = .operand Level.call) = true := by
  rcases serves.role with same | ⟨-, member⟩
  · rwa [← same]
  · rw [of_decide_eq_true call] at member
    cases member

theorem accessLevel (serves : List.Forall₂ Phrase.Serves news olds) :
    Form.accessLevel news = Form.accessLevel olds ∨ Form.accessLevel news = Level.member := by
  unfold Form.accessLevel
  by_cases called : news.head?.any (fun base => base.role = .operand Level.call) = true
  · rw [if_pos called, if_pos (head?_any serves isCall called)]
    exact .inl rfl
  · rw [if_neg called]
    exact .inr rfl

theorem phrase (form : Form) (serves : List.Forall₂ Phrase.Serves news olds) :
    (form.phrase news).Serves (form.phrase olds) where
  role := by
    cases form with
    | member | element =>
        refine (accessLevel serves).imp (congrArg Role.operand) fun member => ?_
        exact ⟨⟨_, Form.accessLevel_le olds, rfl⟩, congrArg some member⟩
    | construct =>
        refine .inl ?_
        simp only [Form.phrase, Form.role, serves.length_eq]
    | function declared =>
        cases declared
        all_goals exact .inl rfl
    | _ => exact .inl rfl
  opens := by
    intro opens
    change form.opens news = true at opens
    change form.opens olds = true
    unfold Form.opens at opens ⊢
    split at opens
    any_goals rfl
    any_goals exact head?_any serves Phrase.Serves.opens opens
    cases opens
  exposesIn := by
    intro exposes
    change form.exposesIn news = true at exposes
    change form.exposesIn olds = true
    unfold Form.exposesIn at exposes ⊢
    split at exposes
    any_goals exact any serves Phrase.Serves.exposesIn exposes
    · rw [Bool.or_eq_true] at exposes ⊢
      exact exposes.imp_right (any serves Phrase.Serves.exposesIn)
    · exact head?_any serves Phrase.Serves.exposesIn exposes
    · cases exposes

end Phrase.Serves

theorem Form.accepts_of_serves {form : Form} {news olds : List Phrase}
    (serves : List.Forall₂ Phrase.Serves news olds) (fits : form.accepts olds = true) :
    form.accepts news = true := by
  obtain ⟨places, known, fits⟩ := List.any_eq_true.mp fits
  rw [← serves.length_eq] at known
  exact List.any_eq_true.mpr ⟨places, known, Phrase.Serves.admitsAll serves fits⟩

namespace Node

structure Serves (new old : Node) : Prop where
  conforms : new.Conforms
  phrase : new.phrase.Serves old.phrase

variable {root : Node}

theorem Serves.trans {node between old : Node} (serves : node.Serves between)
    (serves' : between.Serves old) : node.Serves old :=
  ⟨serves.conforms, serves.phrase.trans serves'.phrase⟩

theorem Conforms.serves (conforms : root.Conforms) : root.Serves root :=
  ⟨conforms, .refl _⟩

theorem Conforms.congr {form : Form} {comments : List String} {news olds : List Node}
    (conforms : (mk form comments olds).Conforms) (serves : List.Forall₂ Serves news olds) :
    (mk form comments news).Serves (mk form comments olds) := by
  obtain ⟨fits, -⟩ := conforms_mk_iff.mp conforms
  have phrases : List.Forall₂ Phrase.Serves (news.map phrase) (olds.map phrase) :=
    List.forall₂_map_left_iff.mpr (List.forall₂_map_right_iff.mpr
      (serves.imp fun _ _ each => each.phrase))
  refine ⟨conforms_mk_iff.mpr ⟨Form.accepts_of_serves phrases fits, fun child member => ?_⟩, ?_⟩
  · obtain ⟨index, bound, rfl⟩ := List.mem_iff_getElem.mp member
    exact (serves.get bound (serves.length_eq ▸ bound)).conforms
  · rw [phrase_mk, phrase_mk]
    exact .phrase form phrases

theorem Conforms.modifyAt {change : Node → Node} {p : Position} (conforms : root.Conforms)
    (serves : ∀ old, root.at? p = some old → (change old).Serves old) :
    (root.modifyAt change p).Serves root := by
  induction p generalizing root with
  | nil =>
      rw [Node.modifyAt]
      exact serves root (at?_nil root)
  | cons index p ih =>
      obtain ⟨form, comments, children⟩ := root
      rw [Node.modifyAt]
      have below := (conforms_mk_iff.mp conforms).2
      refine conforms.congr (List.forall₂_iff_get.mpr ⟨List.length_modify .., fun i bound bound' => ?_⟩)
      rw [List.get_eq_getElem, List.get_eq_getElem, List.getElem_modify]
      have member := List.getElem_mem bound'
      split
      · rename_i same
        subst same
        refine ih (below _ member) fun old here => serves old ?_
        rw [at?_cons, children_mk, List.getElem?_eq_getElem bound', Option.bind_some, here]
      · exact (below _ member).serves

theorem Conforms.replaceAt {p : Position} (conforms : root.Conforms) {new old : Node}
    (here : root.at? p = some old) (serves : new.Serves old) :
    (root.modifyAt (fun _ => new) p).Serves root := by
  refine conforms.modifyAt fun other place => ?_
  cases here.symm.trans place
  exact serves

/-! ## Comments -/

theorem serves_of_bare {node other : Node} (same : node.bare = other.bare)
    (conforms : other.Conforms) : node.Serves other where
  conforms := by rwa [Conforms, ← conforms_bare, same, conforms_bare]
  phrase := by
    rw [← phrase_bare, same, phrase_bare]
    exact .refl _

/-! ## Expressions that fit anywhere -/

structure IsPrimary (node : Node) : Prop where
  conforms : node.Conforms
  level : node.phrase.role.level? = some Level.member
  opens : node.phrase.opens = false
  exposesIn : node.phrase.exposesIn = false

theorem IsPrimary.serves {node old : Node} (primary : node.IsPrimary) {level : Level}
    (bound : level ≤ Level.member) (operand : old.phrase.role = .operand level) :
    node.Serves old where
  conforms := primary.conforms
  phrase :=
    { role := .inr ⟨⟨level, bound, operand⟩, primary.level⟩
      opens := by simp [primary.opens]
      exposesIn := by simp [primary.exposesIn] }

/-! ## Programs -/

structure IsStatement (node : Node) : Prop where
  conforms : node.Conforms
  stands : Place.statement.admits node.phrase = true

theorem conforms_program_iff {comments : List String} {statements : List Node} :
    (mk .program comments statements).Conforms ↔ ∀ node ∈ statements, node.IsStatement := by
  rw [conforms_mk_iff, accepts_replicate fun _ => rfl]
  exact ⟨fun ⟨stands, conforms⟩ node member => ⟨conforms node member, stands node member⟩,
    fun each => ⟨fun node member => (each node member).stands,
      fun node member => (each node member).conforms⟩⟩

theorem Conforms.statements (conforms : root.Conforms) (program : root.form = .program) :
    ∀ node ∈ root.children, node.IsStatement := by
  obtain ⟨form, comments, statements⟩ := root
  cases program
  exact conforms_program_iff.mp conforms

theorem Conforms.append_entries {comments : List String} {entries more : List Node}
    (conforms : (mk .object comments entries).Conforms)
    (grammatical : ∀ entry ∈ more, entry.Conforms ∧ Place.entry.admits entry.phrase = true) :
    (mk .object comments (entries ++ more)).Serves (mk .object comments entries) where
  conforms := by
    obtain ⟨fits, each⟩ := conforms_mk_iff.mp conforms
    have admits := @accepts_replicate .object .entry fun _ => rfl
    refine conforms_mk_iff.mpr ⟨(admits _).mpr fun entry member => ?_, fun entry member => ?_⟩
    · exact (List.mem_append.mp member).elim ((admits _).mp fits entry) fun new =>
        (grammatical entry new).2
    · exact (List.mem_append.mp member).elim (each entry) fun new => (grammatical entry new).1
  phrase := by
    rw [phrase_mk, phrase_mk]
    exact ⟨.inl rfl, id, id⟩

end Node

end ScriptModules.Tree
