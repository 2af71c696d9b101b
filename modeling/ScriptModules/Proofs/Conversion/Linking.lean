import ScriptModules.Proofs.Conversion.Owners
import ScriptModules.Proofs.Module.Placement

namespace ScriptModules

open ScriptModules.Tree ScriptModules.Dependency
open Text.Quoted (quote)

def AssignsExport (program : Node) (name : String) : Prop :=
  ∃ position operator, (program.at? position).map Node.form = some (.assign operator) ∧
    ReadsFrom program (position ++ [0]) name (.identifier "exports")

/-- No path, in the form of corpus paths, is the one of a directory on the way to another. -/
def PrefixFree (paths : List String) : Prop :=
  ∀ raw ∈ paths, ∀ raw' ∈ paths, ∀ path ∈ Path.normalize? raw, ∀ path' ∈ Path.normalize? raw',
    ¬(path ++ "/").toList <+: path'.toList

instance (paths : List String) : Decidable (PrefixFree paths) :=
  inferInstanceAs (Decidable (∀ raw ∈ paths, ∀ raw' ∈ paths, ∀ path ∈ Path.normalize? raw,
    ∀ path' ∈ Path.normalize? raw', ¬(path ++ "/").toList <+: path'.toList))

theorem filter_key_eq_singleton {α κ : Type} [DecidableEq κ] (key : α → κ) {items : List α}
    (distinct : (items.map key).Nodup) {item : α} (member : item ∈ items) :
    (items.filter fun other => key other == key item) = [item] := by
  induction items with
  | nil => cases member
  | cons first rest ih =>
      obtain ⟨fresh, distinct⟩ := List.nodup_cons.mp distinct
      rcases List.mem_cons.mp member with rfl | later
      · have others : (rest.filter fun other => key other == key item) = [] := by
          rw [List.filter_eq_nil_iff]
          intro other inside same
          exact fresh (eq_of_beq same ▸ List.mem_map_of_mem inside)
        rw [List.filter_cons, if_pos (beq_self_eq_true _), others]
      · have other : ¬key first == key item := fun same =>
          fresh (eq_of_beq same ▸ List.mem_map_of_mem later)
        rw [List.filter_cons, if_neg other, ih distinct later]

/-! ## Exported names -/

theorem AssignsExport.of_exportTree {written : Module} {name bound : String}
    (stated : exportTree name (.identifier bound) ∈ written.program.children) :
    AssignsExport written.program name := by
  obtain ⟨index, here⟩ := List.mem_iff_getElem?.mp stated
  have below : ∀ rest, written.program.at? (index :: rest) =
      (exportTree name (.identifier bound)).at? rest := by
    intro rest
    rw [Node.at?_cons, here, Option.bind_some]
  refine ⟨[index, 0], "=", ?_, .identifier "exports", [], ⟨[], .of (.propertyName name) [], ?_, ?_⟩,
    ?_⟩
  · rw [below]
    rfl
  · rw [List.cons_append, below]
    rfl
  · exact ⟨rfl, rfl⟩
  · rfl

theorem Written.assignsExport {around : Surroundings} {start after : Script} {written : Module}
    (made : Written around start after written) {name : String}
    (member : name ∈ start.provides.names) : AssignsExport written.program name := by
  obtain ⟨bound, exports, exported, declarations, statements⟩ := made.exports
  obtain ⟨provide, found⟩ := Ledger.exists_get?_of_mem_names member
  have entry := Ledger.mem_of_get? found
  have own := exported.exported (name, provide) entry
  cases hoistable : provide.kind.isHoistable with
  | true =>
      refine @AssignsExport.of_exportTree _ _ (bound name) ?_
      rw [Module.children_program, statements, exported.written]
      refine List.mem_append_right _ (List.mem_flatMap.mpr ⟨_, List.mem_map_of_mem entry, ?_⟩)
      exact ProvideKind.exportTree_mem hoistable name (bound name)
  | false =>
      obtain ⟨position, operator, form, recorded⟩ := made.assigned name member
      have reads := own.direct hoistable _ recorded
      obtain ⟨node, here, assigns⟩ := Option.map_eq_some_iff.mp form
      have inner : position ≠ [] := by
        rintro rfl
        rw [Node.at?_nil, Option.some.injEq] at here
        rw [← here, made.form] at assigns
        cases assigns
      refine ⟨written.place position, operator, ?_, ?_⟩
      · rw [Module.at?_place made.body inner here, Option.map_some, assigns]
      · rw [← Module.place_append _ inner]
        exact reads.place made.form made.body

/-! ## Required names -/

namespace Surroundings

variable {settings : Settings} {sources : Ledger String} {around : Surroundings}
  {modules : List Module}

theorem Made.normal (accepted : settings.Accepted) (free : '/' ∉ settings.codeExtension.toList)
    {start script : Script} {written : Module}
    (made : around.Made settings sources start script written) : Path.Normal written.path := by
  have filed := made.surveyed.toFiled
  rw [← made.path_eq]
  obtain ⟨raw, -, normal⟩ := filed.source
  refine Path.normal_of_normalize? normal filed.ends free ?_
  intro empty
  have pointed := accepted.codeExtension
  rw [empty] at pointed
  exact absurd pointed (by decide)

theorem Made.import_unique {start script : Script} {written : Module}
    (made : around.Made settings sources start script written) {required : Import × Node}
    (member : required ∈ written.imports) :
    (written.imports.filter fun one => one.1.path == required.1.path) = [required] := by
  obtain ⟨other, -⟩ := made.import_owner member
  obtain ⟨files, groups, imports⟩ := (made.other other).imports
  refine filter_key_eq_singleton (fun one : Import × Node => one.1.path) ?_ member
  have distinct := groups.distinct
  rw [← imports.files, Ledger.names, List.map_map] at distinct
  exact distinct

end Surroundings

namespace Conversion

open Surroundings

/-- Every name that the script of a module requires is owned by one file, which has a module too; the
script of that file provides the name, and unless it creates the global object its module assigns
the name to the exports. The first module requires the second once, its specifier leads from the
directory of the first file to the second, and at each site of the name it is read from there. -/
theorem requires_linked {settings : Settings} (accepted : settings.Accepted)
    (free : '/' ∉ settings.codeExtension.toList) {sources : Ledger String}
    (apart : PrefixFree (sources.map Prod.fst)) {withGraph : Bool} {log : List LogLine}
    {report : Report} {final : Workspace}
    (ran : Ran settings sources withGraph log report final) :
    ∀ written ∈ report.modules, ∃ script,
      scriptAt? final.scripts written.1.path = some script ∧
      ∀ name sites, (name, sites) ∈ script.requires → ∃ path required specifier,
        (report.index.owners.filter fun entry => entry.1 == name) = [(name, path)] ∧
        (∃ target ∈ report.modules, target.1.path = path ∧ ∃ provider,
          scriptAt? final.scripts path = some provider ∧ name ∈ provider.provides.names ∧
            (provider.isRoot = false → AssignsExport target.1.program name)) ∧
        (written.1.imports.filter fun one => one.1.path == path) = [required] ∧
        required.2 = required.1.tree ∧ required.1.specifier = quote specifier ∧
        Path.normalize? (Path.directory written.1.path ++ "/" ++ specifier ++
          settings.codeExtension) = some path ∧
        ∀ site ∈ sites,
          ReadsFrom written.1.program (written.1.place site) name required.1.base := by
  obtain ⟨rewritten, index⟩ := ran.rewritten accepted
  intro written member
  have live : written.1 ∈ report.modules.map Prod.fst := List.mem_map_of_mem member
  obtain ⟨start, script, made⟩ := rewritten.made written.1 live
  refine ⟨script, made.found, fun name sites entry => ?_⟩
  obtain ⟨target, live', owner, start', provider, made', provides⟩ :=
    rewritten.owner_of_required made live (List.mem_map_of_mem entry)
  obtain ⟨target', member', rfl⟩ := List.mem_map.mp live'
  rw [made.requires_eq] at entry
  obtain ⟨required, inside, path, own⟩ :=
    made.import_of_owner (List.mem_map_of_mem entry) owner
  obtain ⟨other, -⟩ := made.import_owner inside
  have writes := made.other other
  obtain ⟨files, groups, imports⟩ := writes.imports
  have imported := imports.imported required inside
  obtain ⟨specifier, found, quoted⟩ := imported.fits.specifier
  refine ⟨target'.1.path, required, specifier, ?_, ⟨target', member', rfl, provider, made'.found,
    provides, fun root => ?_⟩, path ▸ made.import_unique inside, imported.declared, quoted, ?_,
    fun site recorded => ?_⟩
  · rw [index]
    exact filter_key_eq_singleton Prod.fst rewritten.distinct (Ledger.mem_of_get? owner)
  · have isRoot : provider.outline.isRoot = start'.outline.isRoot := congrArg _ made'.same
    rw [made'.provides_eq] at provides
    exact (made'.other (isRoot.symm.trans root)).assignsExport provides
  · have filed := made.surveyed.toFiled
    have filed' := made'.surveyed.toFiled
    obtain ⟨raw, known, normal⟩ := filed.source
    obtain ⟨raw', known', normal'⟩ := filed'.source
    rw [path, made.path_eq, rewritten.given] at found
    rw [made.path_eq] at normal
    rw [made'.path_eq] at normal'
    exact Path.normalize?_of_specifier? (made.normal accepted free) (made'.normal accepted free)
      (made'.path_eq ▸ filed'.ends) free (apart raw' known' raw known _ normal' _ normal) found
  · refine ReadsFrom.place ?_ writes.form writes.body
    refine imported.sites name own site ?_
    have unprovided := made.surveyed.apart name (List.mem_map_of_mem entry)
    rw [Script.recorded, (Ledger.get?_eq_none_iff _ _).mpr unprovided]
    rw [Ledger.get?_of_mem made.surveyed.required_distinct entry]
    exact recorded

theorem requires_linked_cyclicSources :
    ∃ report final, Ran {} cyclicSources false [] report final ∧
      ∃ written ∈ report.modules, written.1.path = "./c.js" ∧ ∃ required,
        (written.1.imports.filter fun one => one.1.path == "./a.js") = [required] ∧
          ReadsFrom written.1.program (written.1.place [0, 0]) "A" required.1.base := by
  obtain ⟨report, final, ran, -, ⟨written, member, path, imports⟩, -, third⟩ := ran_cyclicSources
  obtain ⟨script, found, linked⟩ :=
    requires_linked Settings.accepted_standard (by decide) (by decide +kernel) ran written member
  rw [path] at found
  rw [found, Option.map_some, Option.some.injEq, Prod.mk.injEq] at third
  obtain ⟨target, required, specifier, -, -, unique, -, -, -, reads⟩ :=
    linked "A" [[0, 0]] (by simp [third.2])
  have inside : required ∈ written.1.imports.filter fun one => one.1.path == target := by
    simp [unique]
  obtain ⟨inside, same⟩ := List.mem_filter.mp inside
  have known : (required.1.path, required.1.isDeferred) ∈ [("./a.js", false)] :=
    imports ▸ List.mem_map_of_mem inside
  rw [List.mem_singleton, Prod.mk.injEq] at known
  obtain rfl : target = "./a.js" := (eq_of_beq same).symm.trans known.1
  exact ⟨report, final, ran, written, member, path, required, unique, reads _ (by simp)⟩

end Conversion

end ScriptModules
