import ScriptModules.Proofs.Analysis.Substitution
import ScriptModules.Proofs.Module.Draft

/-!
# The body of a module

The accesses of a script are marked at one position after another, and the marks are redirected one
name after another. What comes out is the tree from before the marking with the accesses substituted
(`Written.substitutes`): the positions of the accesses are the recorded sites, off these both passes
keep the forms, and at each of them the second one leaves what stands for the name
(`Module.standIn`).
-/

namespace ScriptModules

open ScriptModules.Tree
open Access (Substitutes accesses accessedName isAccess)

/-- What stands for an access to a name: the variable or the property of the exports that holds its
value if the script provides the name, and otherwise a property of the file that the name is imported
from. -/
def Module.standIn (written : Module) (provides : Ledger Provide) (bound : String → String)
    (name : String) : Node :=
  match provides.get? name with
  | some provide =>
    if provide.kind.isHoistable then .identifier (bound name)
    else .access (.identifier "exports") name
  | none =>
    match written.imports.find? fun required => required.1.names.contains name with
    | some required => .access required.1.base name
    | none => .access (.identifier Access.marker) name

theorem Module.standIn_cases (written : Module) (provides : Ledger Provide) (bound : String → String)
    (name : String) :
    (∃ provide, (name, provide) ∈ provides ∧ provide.kind.isHoistable = true ∧
      written.standIn provides bound name = .identifier (bound name)) ∨
      ∃ base, written.standIn provides bound name = .access base name ∧
        (base = .identifier "exports" ∨ base = .identifier Access.marker ∨
          ∃ required ∈ written.imports, base = required.1.base) := by
  unfold standIn
  split
  · rename_i provide found
    split
    · rename_i hoistable
      exact .inl ⟨provide, Ledger.mem_of_get? found, hoistable, rfl⟩
    · exact .inr ⟨_, rfl, .inl rfl⟩
  · split
    · rename_i required found
      exact .inr ⟨_, rfl, .inr (.inr ⟨required, List.mem_of_find?_eq_some found, rfl⟩)⟩
    · exact .inr ⟨_, rfl, .inr (.inl rfl)⟩

theorem ReadsFrom.bare {tree value : Node} {site : Position} {name : String}
    (reads : ReadsFrom tree site name value) :
    (tree.at? site).map Node.bare = some (Node.access value name).bare := by
  obtain ⟨base, comments', ⟨comments, key, here, form, leaf⟩, rfl⟩ := reads
  obtain ⟨form', comments'', children⟩ := key
  obtain ⟨rfl, rfl⟩ : form' = .propertyName name ∧ children = [] := ⟨form, leaf⟩
  rw [here]
  cases value
  rfl

theorem Replaced.bare {tree : Node} {site : Position} {bound : String}
    (replaced : Replaced tree site bound) :
    (tree.at? site).map Node.bare = some (Node.identifier bound).bare := by
  obtain ⟨⟨form', comments, children⟩, here, form, leaf⟩ := replaced
  obtain ⟨rfl, rfl⟩ : form' = .identifier bound ∧ children = [] := ⟨form, leaf⟩
  rw [here]
  rfl

variable {around : Surroundings} {checked start after : Script} {written : Module}
  {provides : Ledger Provide}

theorem Written.substitutes (made : Written around start after written)
    (program : checked.tree.form = .program)
    (classified : Access.Classified around.settings checked start provides)
    {bound : String → String} {exports : List Export}
    (exported : Exports around.settings.globalName start after.tree start.provides bound exports) :
    Substitutes around.settings.globalName (written.standIn start.provides bound) checked.tree
      after.tree where
  forms := fun q off => by
    have marks := classified.marks
    have outside : ∀ visit ∈ accesses around.settings.globalName checked.tree,
        ¬visit.position <+: q := by
      intro visit found below
      have access := (List.mem_filter.mp found).2
      rw [off _ _ below (Node.at?_position_of_mem_walk (List.mem_filter.mp found).1)] at access
      cases access
    refine (made.forms q fun name site recorded => ?_).trans (marks.rest q fun visit found below =>
      outside visit found ((List.prefix_append _ _).trans below))
    obtain ⟨visit, found, rfl, -⟩ := (marks.recorded name site).mp recorded
    exact outside visit found
  sites := fun p node here access => by
    obtain ⟨visit, found, rfl, rfl⟩ := Access.exists_visit program here access
    have recorded : visit.position ∈ start.recorded (accessedName visit.node) :=
      (classified.marks.recorded _ _).mpr ⟨visit, found, rfl, rfl⟩
    unfold Module.standIn
    split
    · rename_i provide own
      have known := exported.exported _ (Ledger.mem_of_get? own)
      split
      · rename_i hoistable
        exact (known.hoisted hoistable _ recorded).bare
      · rename_i direct
        exact (known.direct (eq_false_of_ne_true direct) _ recorded).bare
    · rename_i absent
      have needed := Access.required_of_recorded absent recorded
      split
      · rename_i one found
        obtain ⟨files, groups, imports⟩ := made.imports
        have own := List.find?_some found
        exact ((imports.imported one (List.mem_of_find?_eq_some found)).sites _ (by simpa using own)
          _ recorded).bare
      · rename_i missing
        obtain ⟨required, inside, own, -⟩ := made.import_of_required needed
        exact absurd own (by simpa using List.find?_eq_none.mp missing required inside)

theorem Written.parts (made : Written around start after written)
    (sound : checked.tree.Sound) (program : checked.tree.form = .program)
    (classified : Access.Classified around.settings checked start provides) : ∃ bound : String → String,
      written.imports.map Prod.snd = written.imports.map (fun required => required.1.tree) ∧
      written.exports.declarations = start.provides.flatMap (fun entry =>
        (entry.2.kind.exportOf entry.1 (bound entry.1)).declarations) ∧
      written.body.map Node.bare = (Access.substitute around.settings.globalName
        (written.standIn start.provides bound) checked.tree).children.map Node.bare ∧
      written.exports.statements = start.provides.flatMap (fun entry =>
        (entry.2.kind.exportOf entry.1 (bound entry.1)).statements) := by
  obtain ⟨files, groups, imports⟩ := made.imports
  obtain ⟨bound, exports, exported, declarations, statements⟩ := made.exports
  have body := Access.bare_eq_substitute sound (made.substitutes program classified exported)
  replace body := congrArg Node.children body
  rw [Node.children_bare, Node.children_bare, ← made.body] at body
  rw [exported.written, List.flatMap_map] at declarations statements
  exact ⟨bound, List.map_congr_left fun required inside => (imports.imported required inside).declared,
    declarations, body, statements⟩

/-- Comments aside, the program of a module is the one that is made of the tree from before the
marking in one pass. -/
theorem Written.bare_program (made : Written around start after written)
    (sound : checked.tree.Sound) (program : checked.tree.form = .program)
    (classified : Access.Classified around.settings checked start provides) : ∃ bound : String → String,
      written.program.bare = (Node.program
        (written.imports.map (fun required => required.1.tree) ++ start.helpers ++
          start.provides.flatMap (fun entry =>
            (entry.2.kind.exportOf entry.1 (bound entry.1)).declarations) ++
          (Access.substitute around.settings.globalName (written.standIn start.provides bound)
            checked.tree).children ++
          start.provides.flatMap (fun entry =>
            (entry.2.kind.exportOf entry.1 (bound entry.1)).statements))).bare := by
  obtain ⟨bound, declared, declarations, body, statements⟩ := made.parts sound program classified
  refine ⟨bound, ?_⟩
  simp only [Module.program, Node.program, Node.of, Node.bare, Node.bares_eq_map, List.map_append,
    body, declared, made.helpers, declarations, statements]

end ScriptModules
