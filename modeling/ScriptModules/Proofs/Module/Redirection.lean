import ScriptModules.Module.Draft
import ScriptModules.Proofs.Analysis.Access
import ScriptModules.Proofs.Task

namespace ScriptModules

open ScriptModules.Tree

def Script.Separate (script : Script) : Prop :=
  ∀ name other, ∀ site ∈ script.recorded name, ∀ place ∈ script.recorded other,
    (site = place ∧ name = other) ∨ Node.Apart site place

theorem LeafAccessAt.name_unique {tree : Node} {site : Position} {name other : String}
    (access : LeafAccessAt tree site name) (access' : LeafAccessAt tree site other) :
    name = other := by
  obtain ⟨base, ⟨comments, key, here, named, -⟩, -⟩ := access
  obtain ⟨base', ⟨comments', key', here', named', -⟩, -⟩ := access'
  rw [here] at here'
  cases here'
  rw [named] at named'
  exact Form.propertyName.inj named'

/-- An analysed script of which a module is written. -/
structure Script.Ready (settings : Settings) (script : Script) : Prop
    extends Access.Analysed settings script where
  other : script.isRoot = false
  program : script.tree.form = .program

namespace Script.Ready

variable {settings : Settings} {script : Script} {name : String} {site : Position}

theorem marked (ready : script.Ready settings) (member : site ∈ script.recorded name) :
    Access.MarkedAt script.tree site name :=
  ready.sites ready.other name site member

theorem inner (ready : script.Ready settings) (member : site ∈ script.recorded name) :
    site ≠ [] := by
  obtain ⟨base, access, -⟩ := ready.marked member
  exact access.inner ready.program

theorem separate (ready : script.Ready settings) : script.Separate := by
  intro name name' site member place member'
  have access := (ready.marked member).leaf
  have access' := (ready.marked member').leaf
  by_cases same : site = place
  · subst same
    exact .inl ⟨rfl, access.name_unique access'⟩
  · exact .inr (access.apart access' same)

theorem separate_own (ready : script.Ready settings) (name : String) :
    ∀ site ∈ script.recorded name, ∀ place ∈ script.recorded name,
      site = place ∨ Node.Apart site place :=
  fun site member place member' =>
    (ready.separate name name site member place member').imp_left And.left

end Script.Ready

def ReadsFrom (tree : Node) (site : Position) (name : String) (value : Node) : Prop :=
  ∃ base comments, AccessAt tree site name base ∧ base = value.withComments comments

def Replaced (tree : Node) (site : Position) (bound : String) : Prop :=
  ∃ node, tree.at? site = some node ∧ node.form = .identifier bound ∧ node.children = []

theorem ReadsFrom.of_at? {tree changed : Node} {site : Position} {name : String} {value : Node}
    (reads : ReadsFrom tree site name value) (same : changed.at? site = tree.at? site) :
    ReadsFrom changed site name value := by
  obtain ⟨base, comments, access, own⟩ := reads
  exact ⟨base, comments, access.of_at? same, own⟩

theorem Replaced.of_at? {tree changed : Node} {site : Position} {bound : String}
    (replaced : Replaced tree site bound) (same : changed.at? site = tree.at? site) :
    Replaced changed site bound := by
  obtain ⟨node, here, own⟩ := replaced
  exact ⟨node, same.trans here, own⟩

structure Changes (sites : List Position) (value tree changed : Node) : Prop where
  elsewhere : ∀ q, (∀ site ∈ sites, Node.Apart site q) → changed.at? q = tree.at? q
  forms : ∀ q, (∀ site ∈ sites, ¬site <+: q) →
    (changed.at? q).map Node.form = (tree.at? q).map Node.form
  names : ∀ name ∈ changed.names,
    name ∈ tree.names ∨ value.form.name? = some name ∨ name ∈ value.names

theorem Changes.refl (value tree : Node) : Changes [] value tree tree :=
  ⟨fun _ _ => rfl, fun _ _ => rfl, fun _ => .inl⟩

theorem Changes.trans {sites more : List Position} {value tree between changed : Node}
    (first : Changes sites value tree between) (second : Changes more value between changed) :
    Changes (sites ++ more) value tree changed where
  elsewhere := fun q apart =>
    (second.elsewhere q fun site member => apart site (List.mem_append_right _ member)).trans
      (first.elsewhere q fun site member => apart site (List.mem_append_left _ member))
  forms := fun q outside =>
    (second.forms q fun site member => outside site (List.mem_append_right _ member)).trans
      (first.forms q fun site member => outside site (List.mem_append_left _ member))
  names := fun name member =>
    (second.names name member).elim (first.names name) .inr

theorem setBase_changes (tree : Node) (site : Position) (value : Node) :
    Changes [site] value tree (Access.setBase tree site value) where
  elsewhere := fun _ apart => at?_setBase_of_apart tree (apart site List.mem_cons_self) value
  forms := fun _ outside => Node.form_at?_modifyAt _ _ fun below =>
    outside site List.mem_cons_self ((List.prefix_append site [0]).trans below)
  names := fun _ => mem_names_setBase

theorem modifyAt_changes (tree : Node) {site : Position} (below : site ≠ []) (value : Node) :
    Changes [site] value tree (tree.modifyAt value.inPlaceOf site) where
  elsewhere := fun _ apart => Node.at?_modifyAt_of_apart _ tree (apart site List.mem_cons_self)
  forms := fun _ outside => Node.form_at?_modifyAt _ _ (outside site List.mem_cons_self)
  names := fun name member => by
    rcases Node.mem_names_modifyAt below member with member | ⟨old, -, member⟩
    · exact .inl member
    · right
      simpa using member

theorem setBases_changes {sites : List Position} {name : String} {value tree : Node}
    (apart : ∀ site ∈ sites, ∀ place ∈ sites, site = place ∨ Node.Apart site place)
    (access : ∀ site ∈ sites, ∃ base, AccessAt tree site name base) :
    let changed := sites.foldl (fun tree site => Access.setBase tree site value) tree
    Changes sites value tree changed ∧ ∀ site ∈ sites, ReadsFrom changed site name value := by
  suffices held : ∀ changed, changed = sites.foldl (fun tree site =>
      Access.setBase tree site value) tree → Changes sites value tree changed ∧
        (∀ site ∈ sites, ∃ base, AccessAt changed site name base) ∧
          ∀ site ∈ sites, ReadsFrom changed site name value by
    obtain ⟨changes, -, reads⟩ := held _ rfl
    exact ⟨changes, reads⟩
  rintro changed rfl
  refine foldl_invariant (fun done changed => Changes done value tree changed ∧
    (∀ site ∈ sites, ∃ base, AccessAt changed site name base) ∧
      ∀ site ∈ done, ReadsFrom changed site name value) ?_ ⟨.refl value tree, access, by simp⟩
  rintro done site todo before parts ⟨changes, access, reads⟩
  have member : site ∈ sites := by
    rw [parts]
    simp
  obtain ⟨base, here⟩ := access site member
  obtain ⟨comments, placed⟩ := Node.inPlaceOf_eq value base
  have new : ReadsFrom (Access.setBase before site value) site name value :=
    ⟨_, comments, here.setBase value, placed⟩
  have old {place : Position} (known : place ∈ sites) : place = site ∨
      (Access.setBase before site value).at? place = before.at? place :=
    (apart site member place known).imp Eq.symm fun apart => at?_setBase_of_apart before apart value
  refine ⟨changes.trans (setBase_changes before site value), ?_, ?_⟩
  · intro place known
    rcases old known with rfl | same
    · exact ⟨_, here.setBase value⟩
    · obtain ⟨base, access⟩ := access place known
      exact ⟨base, access.of_at? same⟩
  · intro place known
    rcases List.mem_append.mp known with behind | last
    · have inside : place ∈ sites := by
        rw [parts]
        exact List.mem_append_left _ behind
      rcases old inside with rfl | same
      · exact new
      · exact (reads place behind).of_at? same
    · rw [List.mem_singleton.mp last]
      exact new

/-! ## Drafts -/

namespace Draft

theorem ends_reserve {name : String} {before after : Draft} {free : String} :
    Ends (reserve name) before free after ↔
      free = Text.fresh before.script.names name ∧
        after = { before with
          script := { before.script with names := before.script.names ++ [free] } } := by
  constructor
  · intro ends
    simp only [reserve, Script.reserve, Ends.bind_iff, Ends.get_iff, Ends.modify_iff,
      Ends.pure_iff] at ends
    obtain ⟨-, -, ⟨rfl, rfl⟩, -, between, rfl, rfl, rfl⟩ := ends
    exact ⟨rfl, rfl⟩
  · rintro ⟨rfl, rfl⟩
    simp [reserve, Script.reserve]

theorem ends_changeTree {change : Node → Except Fault Node} {before after : Draft}
    {value : Unit} : Ends (changeTree change) before value after ↔
      ∃ tree, change before.script.tree = .ok tree ∧
        after = { before with script := { before.script with tree } } := by
  simp [changeTree]

theorem ends_replaceBases {sites : List Position} {text : String} {before after : Draft}
    {value : Unit} : Ends (replaceBases sites text) before value after ↔
      ∃ base, Template.expression text [] = .ok base ∧
        after = { before with script := { before.script with
          tree := sites.foldl (fun tree site => Access.setBase tree site base)
            before.script.tree } } := by
  simp [replaceBases, ends_changeTree]

theorem replaceAccess_eq_ok {site : Position} {new tree changed : Node}
    (run : replaceAccess site new tree = .ok changed) :
    ∃ old, tree.at? site = some old ∧ old.form = .member ∧
      changed = tree.modifyAt new.inPlaceOf site := by
  unfold replaceAccess at run
  split at run
  · rename_i old parent here above
    split at run
    · rename_i member
      cases run
      exact ⟨old, here, member, rfl⟩
    · cases run
  · cases run

theorem ends_replaceAccesses {sites : List Position} {bound : String} {before after : Draft}
    (apart : ∀ site ∈ sites, ∀ place ∈ sites, site = place ∨ Node.Apart site place)
    (inner : ∀ site ∈ sites, site ≠ [])
    (ends : Ends (sites.forM fun site => changeTree (replaceAccess site (.identifier bound)))
      before ⟨⟩ after) :
    ∃ tree, after = { before with script := { before.script with tree } } ∧
      Changes sites (.identifier bound) before.script.tree tree ∧
        ∀ site ∈ sites, Replaced tree site bound := by
  refine Ends.forM_invariant (fun done after => ∃ tree,
    after = { before with script := { before.script with tree } } ∧
      Changes done (.identifier bound) before.script.tree tree ∧
        ∀ site ∈ done, Replaced tree site bound) ?_ ends
    ⟨before.script.tree, rfl, .refl _ _, by simp⟩
  rintro done site todo - after parts ⟨tree, rfl, changes, replaced⟩ ends
  obtain ⟨changed, run, rfl⟩ := ends_changeTree.mp ends
  obtain ⟨old, here, member, rfl⟩ := replaceAccess_eq_ok run
  have known : site ∈ sites := by
    rw [parts]
    simp
  refine ⟨_, rfl, changes.trans (modifyAt_changes tree (inner site known) _), ?_⟩
  intro place found
  rcases List.mem_append.mp found with behind | last
  · have inside : place ∈ sites := by
      rw [parts]
      exact List.mem_append_left _ behind
    rcases apart site known place inside with rfl | apart
    · -- an identifier stands there already, so this step would not have ended
      obtain ⟨node, here', form, -⟩ := replaced site behind
      rw [here] at here'
      cases here'
      rw [form] at member
      cases member
    · exact (replaced place behind).of_at? (Node.at?_modifyAt_of_apart _ tree apart)
  · rw [List.mem_singleton.mp last]
    refine ⟨(Node.identifier bound).inPlaceOf old, ?_, ?_, ?_⟩
    · rw [Node.at?_modifyAt_self, here]
      rfl
    · rw [Node.form_inPlaceOf]
      rfl
    · rw [Node.children_inPlaceOf]
      rfl

/-! ## Progress -/

/-- Whether the global object is not among some names. Modules write to `exports` on purpose. -/
def Clean (globalName : String) (names : List String) : Prop :=
  ∀ name ∈ names, name = "exports" ∨ name ≠ globalName

structure Progress (globalName : String) (start : Script) (done : List String) (draft : Draft) :
    Prop where
  same : draft.script = { start with tree := draft.script.tree, names := draft.script.names }
  grown : ∀ name ∈ start.names, name ∈ draft.script.names
  form : draft.script.tree.form = start.tree.form
  clean : Clean globalName draft.script.tree.names
  rest : ∀ name, name ∉ done → ∀ site ∈ start.recorded name,
    draft.script.tree.at? site = start.tree.at? site
  forms : ∀ q, (∀ name ∈ done, ∀ site ∈ start.recorded name, ¬site <+: q) →
    (draft.script.tree.at? q).map Node.form = (start.tree.at? q).map Node.form

theorem Progress.start {globalName : String} {script : Script}
    (free : globalName ∉ script.tree.names) : Progress globalName script [] { script } where
  same := rfl
  grown := fun _ => id
  form := rfl
  clean := fun _ member => .inr fun same => free (same ▸ member)
  rest := fun _ _ _ _ => rfl
  forms := fun _ _ => rfl

variable {globalName : String} {start : Script} {done : List String} {draft : Draft}

theorem Progress.reserve (progress : Progress globalName start done draft) (more : List String) :
    Progress globalName start done
      { draft with script := { draft.script with names := draft.script.names ++ more } } where
  same := by
    rw [progress.same]
  grown := fun name member => List.mem_append_left _ (progress.grown name member)
  form := progress.form
  clean := progress.clean
  rest := progress.rest
  forms := progress.forms

theorem Progress.change {settings : Settings} (progress : Progress globalName start done draft)
    (ready : start.Ready settings) {name : String} {value tree : Node}
    (changes : Changes (start.recorded name) value draft.script.tree tree)
    (clean : Clean globalName (value.form.name?.toList ++ value.names)) :
    Progress globalName start (done ++ [name])
      { draft with script := { draft.script with tree } } ∧
    ∀ other, other ≠ name → ∀ site ∈ start.recorded other,
      tree.at? site = draft.script.tree.at? site := by
  have stays : ∀ other, other ≠ name → ∀ site ∈ start.recorded other,
      tree.at? site = draft.script.tree.at? site := by
    intro other distinct site member
    refine changes.elsewhere site fun place known => ?_
    rcases ready.separate name other place known site member with ⟨-, same⟩ | apart
    · exact absurd same.symm distinct
    · exact apart
  refine ⟨⟨?_, progress.grown, ?_, ?_, ?_, ?_⟩, stays⟩
  · rw [progress.same]
  · have root := changes.forms [] fun site member below =>
      ready.inner member (List.prefix_nil.mp below)
    rw [Node.at?_nil, Node.at?_nil, Option.map_some, Option.map_some, Option.some.injEq] at root
    exact root.trans progress.form
  · intro other member
    rcases changes.names other member with old | new
    · exact progress.clean other old
    · exact clean other (List.mem_append.mpr (new.imp_left Option.mem_toList.mpr))
  · intro other outside site member
    obtain ⟨outside, distinct⟩ := not_or.mp (mt List.mem_append.mpr outside)
    rw [List.mem_singleton] at distinct
    exact (stays other distinct site member).trans (progress.rest other outside site member)
  · intro q outside
    exact (changes.forms q (outside name (by simp))).trans
      (progress.forms q fun other member => outside other (List.mem_append_left _ member))

theorem Progress.assigned {settings : Settings} (progress : Progress globalName start done draft)
    (ready : start.Ready settings) {name : String} {position : Position}
    (recorded : position ++ [0] ∈ start.recorded name) :
    (draft.script.tree.at? position).map Node.form =
      (start.tree.at? position).map Node.form := by
  refine progress.forms position fun other _ site member below => ?_
  rcases ready.separate other name site member _ recorded with ⟨rfl, -⟩ | apart
  · have longer := below.length_le
    rw [List.length_append, List.length_singleton] at longer
    omega
  · exact apart.1 (below.trans (List.prefix_append _ _))

/-! ## Declarations -/

/-- What is declared between two drafts: the names that were taken are the declared ones, and none of
them was in use. -/
structure Declares (before after : Draft) (statements : List Node) : Prop where
  names : after.script.names = before.script.names ++ Node.declaresAll statements
  unused : Text.Unused before.script.names (Node.declaresAll statements)

theorem Declares.nil (draft : Draft) : Declares draft draft [] where
  names := (List.append_nil _).symm
  unused := .nil _

theorem Declares.append {before between after : Draft} {statements more : List Node}
    (first : Declares before between statements) (second : Declares between after more) :
    Declares before after (statements ++ more) where
  names := by
    rw [second.names, first.names, Node.declaresAll_append, List.append_assoc]
  unused := by
    rw [Node.declaresAll_append]
    exact first.unused.append (first.names ▸ second.unused)

end Draft

end ScriptModules
