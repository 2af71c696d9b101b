import ScriptModules.Proofs.Conversion.Owners
import ScriptModules.Proofs.Module.Placement

namespace ScriptModules

open ScriptModules.Tree ScriptModules.Dependency

/-- A recorded access has become a variable of the module, or the name is read from the exports or
from the variable of an import there. -/
def Redirected (written : Module) (site : Position) (name : String) : Prop :=
  (∃ bound, Replaced written.program (written.place site) bound) ∨
    ReadsFrom written.program (written.place site) name (.identifier "exports") ∨
      ∃ required ∈ written.imports,
        ReadsFrom written.program (written.place site) name required.1.base

theorem Redirected.marked {written : Module} {site : Position} {name : String}
    (redirected : Redirected written site name)
    (marked : Access.MarkedAt written.program (written.place site) name) :
    ∃ required ∈ written.imports, required.1.base = .identifier Access.marker := by
  obtain ⟨old, ⟨comments, key, here, -, -⟩, form, -⟩ := marked
  have unique {value : Node} (reads : ReadsFrom written.program (written.place site) name value) :
      value.form = .identifier Access.marker := by
    obtain ⟨base, comments', ⟨comments'', key', here', -, -⟩, rfl⟩ := reads
    rw [here] at here'
    cases here'
    simpa using form
  rcases redirected with ⟨bound, node, here', form', -⟩ | reads | ⟨required, member, reads⟩
  · rw [here] at here'
    cases here'
    cases form'
  · exact absurd (unique reads) (by decide)
  · refine ⟨required, member, ?_⟩
    have form := unique reads
    cases given : required.1.getter with
    | some getter =>
        simp only [Import.base, given] at form
        cases form
    | none =>
        simp only [Import.base, given] at form ⊢
        exact congrArg (Node.of · []) form

/-! ## Names of statements -/

theorem Import.names_tree {required : Import} {name : String}
    (member : name ∈ required.tree.names) : name = "require" ∨ name ∈ required.locals := by
  unfold Import.tree at member
  unfold Import.locals
  split at member
  · rename_i getter given
    have cases : name = required.binding ∨ name = getter ∨ name = required.binding ∨
        name = "require" := by
      simpa [Node.declared, Node.assignment, Node.requirement, Node.invocation, Node.of,
        Node.identifier, Node.names, Node.namesFrom, Form.isKeyAt, Form.name?] using member
    rw [given]
    simp only [Option.toList_some, List.mem_cons, List.not_mem_nil, or_false]
    tauto
  · have cases : name = required.binding ∨ name = "require" := by
      simpa [Node.declared, Node.requirement, Node.invocation, Node.of, Node.identifier,
        Node.names, Node.namesFrom, Form.isKeyAt, Form.name?] using member
    refine cases.symm.imp_right fun same => ?_
    rw [same]
    exact List.mem_cons_self

theorem Import.name?_tree (required : Import) : required.tree.form.name? = none := by
  unfold Import.tree
  split <;> rfl

theorem Draft.Clean.not_mem {globalName : String} {names : List String}
    (clean : Clean globalName names) (other : globalName ≠ "exports") : globalName ∉ names := by
  intro member
  rcases clean globalName member with same | distinct
  · exact other same
  · exact distinct rfl

variable {settings : Settings} {sources : Ledger String} {around : Surroundings}

theorem Surroundings.Made.globalName_not_mem {start script : Script} {written : Module}
    (made : around.Made settings sources start script written) (given : around.settings = settings)
    (root : start.isRoot = false)
    (fixed : settings.globalName ∉ ["Object", "require", "exports"])
    (tag : ∀ count, settings.globalName ≠ Text.underscored count "toString") :
    settings.globalName ∉ written.program.names := by
  simp only [List.mem_cons, List.not_mem_nil, or_false, not_or] at fixed
  obtain ⟨notObject, notRequire, notExports⟩ := fixed
  have writes := made.other root
  obtain ⟨files, groups, imports⟩ := writes.imports
  obtain ⟨bound, exports, exported, declarations, statements⟩ := writes.exports
  rw [given] at exported
  have noKey : ∀ i, Form.program.isKeyAt i = false := fun _ => rfl
  intro member
  obtain ⟨statement, stands, met⟩ := (Node.mem_names_of_no_key (by exact noKey)).mp member
  have clean {export' : Export} (known : export' ∈ exports)
      (own : statement ∈ export'.declarations ++ export'.statements) : False := by
    refine ((exported.clean export' known statement own).not_mem notExports) ?_
    rw [List.mem_append, Option.mem_toList]
    exact met
  simp only [Module.children_program, List.mem_append] at stands
  rcases stands with (((imported | helper) | declared) | body) | stated
  · obtain ⟨required, inside, rfl⟩ := List.mem_map.mp imported
    have one := imports.imported required inside
    obtain ⟨-, name, needed, -⟩ := made.import_owner inside
    have taken := (made.surveyed.words root name (.inr needed)).2
    rw [one.declared, Import.name?_tree] at met
    rcases Import.names_tree (met.resolve_left (by simp)) with same | bound
    · exact notRequire same
    · exact one.fresh _ bound taken
  · rw [writes.helpers] at helper
    obtain ⟨form, names⟩ := made.surveyed.helpers statement helper
    rw [form] at met
    rcases names _ (met.resolve_left (by simp [Form.name?])) with same | ⟨count, same⟩ | distinct
    · exact notObject same
    · exact tag count same
    · exact distinct rfl
  · rw [declarations] at declared
    obtain ⟨export', known, own⟩ := List.mem_flatMap.mp declared
    exact clean known (List.mem_append_left _ own)
  · have free := (given ▸ writes.clean : Draft.Clean settings.globalName script.tree.names).not_mem
      notExports
    refine free ((Node.mem_names_of_no_key ?_).mpr ⟨statement, writes.body ▸ body, met⟩)
    rw [writes.form]
    exact noKey
  · rw [statements] at stated
    obtain ⟨export', known, own⟩ := List.mem_flatMap.mp stated
    exact clean known (List.mem_append_right _ own)

/-! ## Recorded accesses -/

theorem Surroundings.Rewritten.redirected {modules : List Module}
    (rewritten : around.Rewritten settings sources modules) {start script : Script}
    {written : Module} (made : around.Made settings sources start script written)
    (live : written ∈ modules) (root : start.isRoot = false) {name : String} {site : Position}
    (recorded : site ∈ script.recorded name) : Redirected written site name := by
  have writes := made.other root
  rw [made.recorded_eq] at recorded
  cases found : start.provides.get? name with
  | some provide =>
      obtain ⟨bound, exports, exported, -, -⟩ := writes.exports
      have own := exported.exported (name, provide) (Ledger.mem_of_get? found)
      cases hoistable : provide.kind.isHoistable with
      | true =>
          have replaced := own.hoisted hoistable site recorded
          exact .inl ⟨bound name, replaced.place writes.form writes.body⟩
      | false =>
          have reads := own.direct hoistable site recorded
          exact .inr (.inl (reads.place writes.form writes.body))
  | none =>
      have needed := Access.required_of_recorded found recorded
      obtain ⟨target, -, owner, -⟩ :=
        rewritten.owner_of_required made live (made.requires_eq ▸ needed)
      obtain ⟨required, inside, -, own⟩ := made.import_of_owner needed owner
      obtain ⟨files, groups, imports⟩ := writes.imports
      have reads := (imports.imported required inside).sites name own site recorded
      exact .inr (.inr ⟨required, inside, reads.place writes.form writes.body⟩)

namespace Conversion

/-- Unless the global object has a name that modules use for something else, the module of a file
that does not create it refers to it nowhere. Every access that was recorded in the file is
redirected there, and where the name of the marker is left, it is the variable of an import. -/
theorem global_eliminated {settings : Settings} (accepted : settings.Accepted)
    (fixed : settings.globalName ∉ ["Object", "require", "exports"])
    (tag : ∀ count, settings.globalName ≠ Text.underscored count "toString")
    {sources : Ledger String} {withGraph : Bool} {log : List LogLine} {report : Report}
    {final : Workspace} (ran : Ran settings sources withGraph log report final) :
    ∀ written ∈ report.modules, ∃ script,
      scriptAt? final.scripts written.1.path = some script ∧ (script.isRoot = false →
        settings.globalName ∉ written.1.program.boundNames ∧
        ∀ name, ∀ site ∈ script.recorded name, Redirected written.1 site name ∧
          (Access.MarkedAt written.1.program (written.1.place site) name →
            ∃ required ∈ written.1.imports, required.1.base = .identifier Access.marker)) := by
  obtain ⟨rewritten, -⟩ := ran.rewritten accepted
  intro written member
  have live : written.1 ∈ report.modules.map Prod.fst := List.mem_map_of_mem member
  obtain ⟨start, script, made⟩ := rewritten.made written.1 live
  refine ⟨script, made.found, fun other => ?_⟩
  have isRoot : script.outline.isRoot = start.outline.isRoot := congrArg _ made.same
  have root : start.isRoot = false := isRoot.symm.trans other
  refine ⟨?_, fun name site recorded => ?_⟩
  · rw [Node.mem_boundNames]
    exact made.globalName_not_mem rewritten.given root fixed tag
  · have redirected := rewritten.redirected made live root recorded
    exact ⟨redirected, redirected.marked⟩

theorem global_eliminated_cyclicSources :
    ∃ report final, Ran {} cyclicSources false [] report final ∧
      ∃ written ∈ report.modules, written.1.path = "./c.js" ∧
        "THREE" ∉ written.1.program.boundNames ∧ Redirected written.1 [0, 0] "A" := by
  obtain ⟨report, final, ran, -, ⟨written, member, path, -⟩, isRoot, third⟩ :=
    ran_cyclicSources
  have tag (count : Nat) : "THREE" ≠ Text.underscored count "toString" := by
    intro same
    have last := congrArg (fun text : String => text.toList.getLast?) same
    rw [Text.toList_underscored] at last
    simp at last
  obtain ⟨script, found, eliminated⟩ :=
    global_eliminated Settings.accepted_standard (by decide) tag ran written member
  rw [path] at found
  rw [found, Option.map_some, Option.some.injEq, Prod.mk.injEq] at third
  rw [found, Option.map_some, Option.some.injEq] at isRoot
  obtain ⟨provides, requires⟩ := third
  obtain ⟨free, redirected⟩ := eliminated isRoot
  have recorded : script.recorded "A" = [[0, 0]] := by
    rw [Script.recorded, (Ledger.get?_eq_none_iff _ _).mpr (by simp [provides]), requires]
    rfl
  exact ⟨report, final, ran, written, member, path, free,
    (redirected "A" [0, 0] (by simp [recorded])).1⟩

end Conversion

end ScriptModules
