import ScriptModules.Proofs.Conversion.Faults
import ScriptModules.Proofs.Corpus.Growth
import ScriptModules.Proofs.Module.EntryPoint

/-!
# Conversions that end

What is written into a module or the entry point is read from a text that names are put into: variables,
properties, the alias of the root module. If these names are words, each such text is a statement
(`Draft.confined_write`, `EntryPoint.confined_add`). The names of a source are, and so are the variables
that are made of file names; left are the two settings that are put into code as they are given
(`Settings.Worded`).

So only internal faults could stop the writing of a file. Since the phases before leave no room for
these, nothing is left that could stop the conversion of a corpus that was read (`run_ends`).
-/

namespace ScriptModules

open ScriptModules.Tree
open Dependency (scriptAt?)
open Text.Quoted (quote)

/-- The names in the settings that are put into code are words. -/
structure Settings.Worded (settings : Settings) : Prop where
  rootAlias : IsWord settings.rootAlias
  rootNames : ∀ name ∈ settings.rootNames, IsWord name

abbrev Fault.Internal (fault : Fault) : Prop :=
  fault.isInternal = true

theorem quotedSpecifier_eq {source target extension : String} (filed : target ≠ "") :
    ∃ specifier, quotedSpecifier source target extension = .ok (quote specifier) := by
  rw [quotedSpecifier, Path.specifier?, if_neg filed]
  exact ⟨_, rfl⟩

theorem requiredFiles_internal {index : Index} {script : Script} {fault : Fault}
    (stopped : Dependency.requiredFiles index script = .error fault) : fault.Internal := by
  refine foldlM_error (fun required name fault stopped => ?_) stopped
  split at stopped
  · cases stopped
  · cases stopped
    rfl

theorem Script.Filed.path_ne_empty {settings : Settings} {sources : Ledger String} {script : Script}
    (filed : script.Filed settings sources) : script.path ≠ "" := by
  obtain ⟨raw, -, normal⟩ := filed.source
  exact Path.ne_empty_of_normalize? normal

theorem Script.Surveyed.isWord_of_provides {settings : Settings} {sources : Ledger String}
    {script : Script} (surveyed : script.Surveyed settings sources) (worded : settings.Worded) :
    ∀ name ∈ script.provides.names, IsWord name := by
  intro name provided
  cases root : script.isRoot with
  | true =>
      rcases surveyed.root_words root name provided with given | word
      · exact worded.rootNames name given
      · exact word
  | false => exact (surveyed.words root name (.inl provided)).1

/-- Every owner in an index is a file with a path. -/
def Index.Filed (index : Index) : Prop :=
  ∀ name path, index.owner? name = some path → path ≠ ""

namespace Corpus

/-- Every path is one of a file in the corpus, and the text of every script is a program. -/
structure Readable (settings : Settings) (sources : Ledger String) : Prop where
  paths : ∀ source ∈ sources, ∃ path, Path.normalize? source.1 = some path
  programs : ∀ source ∈ sources, ∀ path, Path.normalize? source.1 = some path →
    Text.endsWith path settings.shaderExtension = false →
      Text.endsWith path settings.codeExtension = true → ∃ tree, Node.parse? source.2 = some tree

variable {settings : Settings} {sources : Ledger String}

theorem Readable.exists_normal (readable : Readable settings sources) :
    ∃ normal, normalizeSources sources = .ok normal ∧ ∀ entry ∈ normal,
      ∃ source ∈ sources, Path.normalize? source.1 = some entry.1 ∧ source.2 = entry.2 := by
  let From (done normal : Ledger String) : Prop := ∀ entry ∈ normal,
    ∃ source ∈ done, Path.normalize? source.1 = some entry.1 ∧ source.2 = entry.2
  have step : ∀ done source todo normal, sources = done ++ source :: todo → From done normal →
      ∃ next, (do return Ledger.put normal (← normalize source.1) source.2) = Except.ok next ∧
        From (done ++ [source]) next := by
    intro done source todo normal parts known
    obtain ⟨path, found⟩ := readable.paths source (by simp [parts])
    refine ⟨normal.put path source.2, bind_eq_ok_iff.mpr ⟨path, normalize_eq_ok.mpr found, rfl⟩,
      fun entry member => ?_⟩
    rcases Ledger.mem_put member with rfl | old
    · exact ⟨source, by simp, found, rfl⟩
    · obtain ⟨source', behind, same⟩ := known entry old
      exact ⟨source', List.mem_append_left _ behind, same⟩
  exact foldlM_total From step fun entry member => by cases member

theorem exists_withSources {entries : Ledger String} (programs : ∀ entry ∈ entries,
    Text.endsWith entry.1 settings.shaderExtension = false →
      Text.endsWith entry.1 settings.codeExtension = true → ∃ tree, Node.parse? entry.2 = some tree)
    (corpus : Corpus) : ∃ last, entries.foldlM (withSource? settings) corpus = some last := by
  induction entries generalizing corpus with
  | nil => exact ⟨corpus, rfl⟩
  | cons entry entries ih =>
      obtain ⟨next, added⟩ : ∃ next, withSource? settings corpus entry = some next := by
        unfold withSource?
        split
        · exact ⟨_, rfl⟩
        · rename_i other
          split
          · rename_i code
            obtain ⟨tree, parsed⟩ :=
              programs entry List.mem_cons_self (Bool.eq_false_iff.mpr other) code
            rw [parsed]
            exact ⟨_, rfl⟩
          · exact ⟨_, rfl⟩
      rw [List.foldlM_cons, added]
      exact ih (fun other member => programs other (List.mem_cons_of_mem _ member)) next

theorem Readable.exists_ingest (readable : Readable settings sources) (log : List LogLine) :
    ∃ corpus, Ends (ingest settings sources) log corpus log := by
  obtain ⟨normal, run, origin⟩ := readable.exists_normal
  have programs : ∀ entry ∈ Text.sortBy Prod.fst normal,
      Text.endsWith entry.1 settings.shaderExtension = false →
        Text.endsWith entry.1 settings.codeExtension = true →
          ∃ tree, Node.parse? entry.2 = some tree := by
    intro entry member other code
    obtain ⟨source, inside, found, same⟩ :=
      origin entry ((Text.sortBy_perm Prod.fst normal).mem_iff.mp member)
    exact same ▸ readable.programs source inside entry.1 found other code
  obtain ⟨corpus, read⟩ := exists_withSources programs {}
  refine ⟨corpus, ends_ingest_iff.mpr ⟨?_, rfl⟩⟩
  rw [read?, run]
  exact read

end Corpus

namespace Draft

variable {allowed : Fault → Prop} {around : Surroundings} {before : Draft}

theorem confined_statement {text : String} {node : Node}
    (read : Template.statement text [] = .ok node) : Confined allowed (statement text) before := by
  exact .of_ends (.liftM_of read _)

theorem confined_reserve (name : String) : Confined allowed (reserve name) before :=
  .bind .get fun _ _ _ => .bind (.modify _) fun _ _ _ => .pure _

theorem confined_changeTree {change : Node → Except Fault Node}
    (known : ∀ tree fault, change tree = .error fault → allowed fault) :
    Confined allowed (changeTree change) before :=
  .bind .get fun _ _ _ => .bind (.liftM (known _)) fun _ _ _ => .modify _

theorem confined_replaceBases {sites : List Position} {text : String} {base : Node}
    (read : Template.expression text [] = .ok base) :
    Confined allowed (replaceBases sites text) before := by
  refine .bind_of_ends (.liftM_of read _) (confined_changeTree fun tree fault stopped => ?_)
  cases stopped

theorem replaceAccess_internal {site : Position} {new tree : Node} {fault : Fault}
    (stopped : replaceAccess site new tree = .error fault) : fault.Internal := by
  unfold replaceAccess at stopped
  split at stopped
  · split at stopped
    · cases stopped
    · cases stopped
      rfl
  · cases stopped
    rfl

theorem converted_internal {path : String} {fault : Fault}
    (stopped : converted around path = .error fault) : fault.Internal := by
  unfold converted at stopped
  split at stopped
  · split at stopped
    · cases stopped
    · cases stopped
      rfl
  · cases stopped
    rfl

/-! ## Imports -/

theorem confined_nameImport {path : String} (filed : path ≠ "") (names : List String) :
    Confined Fault.Internal (nameImport around path names) before := by
  refine .bind .get fun draft between _ => .bind (.liftM fun _ => converted_internal)
    fun required between _ => ?_
  obtain ⟨specifier, found⟩ := @quotedSpecifier_eq draft.script.path path
    around.settings.codeExtension filed
  refine .bind_of_ends (.liftM_of found _) (.bind (confined_reserve _) fun binding between _ => ?_)
  split
  · exact .bind (confined_reserve _) fun _ _ _ => .pure _
  · exact .pure _

theorem confined_require (worded : around.settings.Worded) {path : String} (filed : path ≠ "")
    (names : List String) : Confined Fault.Internal (require around path names) before := by
  refine .bind (confined_nameImport filed names) fun required between naming => ?_
  obtain ⟨-, -, fits, ⟨wanted, bound, origin⟩, getters, -⟩ := ends_nameImport naming
  obtain ⟨specifier, -, quoted⟩ := fits.specifier
  have word : IsWord wanted := origin.elim (fun same => same ▸ worded.rootAlias) id
  have binding : IsName required.binding := bound ▸ Text.isName_fresh word _
  have declaration := Import.statement_declaration binding getters quoted
  have reference := Import.expression_reference binding getters
  exact .bind (confined_statement declaration) fun _ _ _ => .bind .get fun _ _ _ =>
    .bind (.forM fun _ _ _ => confined_replaceBases reference) fun _ _ _ =>
      .bind (.modify _) fun _ _ _ => .pure _

theorem confined_requireAll (worded : around.settings.Worded) (filed : around.index.Filed) :
    Confined Fault.Internal (requireAll around) before := by
  refine .bind .get fun draft between _ => .bind (.liftM fun _ => requiredFiles_internal)
    fun files between ends => ?_
  obtain ⟨run, rfl⟩ := (Ends.liftM_iff _ _ _ _).mp ends
  have groups := Dependency.requiredFiles_groups run
  apply Confined.mapM
  rintro done ⟨path, names⟩ todo imports last parts -
  have entry : (path, names) ∈ files := by simp [parts]
  obtain ⟨name, member⟩ := List.exists_mem_of_ne_nil _ (groups.filled path names entry)
  exact confined_require worded (filed name path (groups.owned path names entry name member)) names

/-! ## Exports -/

theorem confined_provideVariable {name : String} (word : IsWord name) {provided : Provide}
    (hoistable : provided.kind.isHoistable = true) :
    Confined Fault.Internal (provideVariable name provided) before := by
  refine .bind (confined_reserve name) fun bound between ends => ?_
  obtain ⟨free, -⟩ := ends_reserve.mp ends
  have valid : IsName bound := free ▸ Text.isName_fresh word _
  have marked (before : Draft) :
      Confined Fault.Internal (markers provided.kind bound name) before := by
    unfold markers
    split
    · exact .bind (confined_statement (statement_marker valid word)) fun _ _ _ => .pure _
    · rename_i other
      rw [other] at hoistable
      cases hoistable
    · exact .pure _
  refine .bind (confined_statement (statement_variable valid)) fun _ _ _ =>
    .bind_of_ends (.liftM_of (reference_of_isName valid) _) (.bind ?_ fun _ _ _ =>
      .bind (marked _) fun _ _ _ => .bind (confined_statement (statement_export word valid))
        fun _ _ _ => .pure _)
  exact .forM fun _ _ _ => confined_changeTree fun _ _ => replaceAccess_internal

theorem confined_provideDirectly {name : String} (word : IsWord name) {provided : Provide}
    (direct : provided.kind.isHoistable = false) :
    Confined Fault.Internal (provideDirectly name provided) before := by
  refine .bind (confined_replaceBases (reference_of_isName isName_locals.2.1)) fun _ _ _ =>
    .bind ?_ fun _ _ _ => .pure _
  unfold markers
  split
  · rename_i function
    rw [function] at direct
    cases direct
  · exact .bind (confined_statement (statement_guardedMarker word)) fun _ _ _ => .pure _
  · exact .pure _

theorem confined_provideAll (words : before.script.isRoot = false →
      ∀ name ∈ before.script.provides.names, IsWord name) :
    Confined Fault.Internal provideAll before := by
  refine .bind_of_ends (.get_same _) ?_
  dsimp only
  split
  · exact .pure _
  · rename_i other
    refine .bind (.mapM fun done entry todo exports between' parts _ => ?_) fun _ _ _ => .pure _
    have word : IsWord entry.1 := by
      apply words (by simpa using other)
      apply List.mem_map_of_mem
      simp [parts]
    unfold provide
    split
    · exact confined_provideVariable word ‹_›
    · rename_i direct
      exact confined_provideDirectly word (Bool.eq_false_iff.mpr direct)

theorem confined_write (accepted : around.settings.Accepted) (worded : around.settings.Worded)
    (filed : around.index.Filed) {sources : Ledger String} {start : Script}
    (surveyed : start.Surveyed around.settings sources) :
    Confined Fault.Internal (write around) { script := start } := by
  refine .bind (confined_requireAll worded filed) fun imports between importing =>
    .bind (confined_provideAll fun other => ?_) fun _ _ _ => .bind .get fun _ _ _ => .pure _
  cases root : start.isRoot with
  | true =>
      have same : between.script = start := by
        have none : Dependency.requiredFiles around.index start = .ok [] := by
          rw [Dependency.requiredFiles, surveyed.root root]
          rfl
        simp only [requireAll, Ends.bind_iff, Ends.get_iff, Ends.liftM_iff] at importing
        obtain ⟨_, _, ⟨rfl, rfl⟩, files, _, ⟨found, rfl⟩, importing⟩ := importing
        cases none.symm.trans found
        rw [((Ends.pure_iff _ _ _ _).mp importing).2]
      rw [same, root] at other
      cases other
  | false =>
      have ready : start.Ready around.settings :=
        { surveyed.toAnalysed with
          other := root
          program := surveyed.program }
      obtain ⟨files, -, -, progress, -⟩ := ends_requireAll accepted ready importing
      rw [progress.same]
      exact fun name provided => (ready.words root name (.inl provided)).1

end Draft

/-! ## The entry point -/

namespace EntryPoint

variable {allowed : Fault → Prop} {before : EntryPoint}

theorem confined_addStatement {text : String} {node : Node}
    (read : Template.statement text [] = .ok node) :
    Confined allowed (addStatement text) before := by
  exact .bind_of_ends (.liftM_of read _) (.modify _)

theorem confined_quotedSpecifier {source target extension : String} (filed : target ≠ "") :
    Confined allowed
      (liftM (quotedSpecifier source target extension) : Adding String) before := by
  obtain ⟨specifier, found⟩ := @quotedSpecifier_eq source target extension filed
  exact .of_ends (.liftM_of found _)

theorem confined_add {path : String} (filed : path ≠ "") (stem : String) {names : List String}
    (words : ∀ name ∈ names, IsWord name) : Confined allowed (add path stem names) before := by
  refine .bind .get fun entry _ _ => ?_
  split
  · exact .pure _
  · rename_i name
    refine .bind (confined_quotedSpecifier filed) fun quoted between ends => ?_
    obtain ⟨found, -⟩ := (Ends.liftM_iff _ _ _ _).mp ends
    obtain ⟨specifier, -, rfl⟩ := quotedSpecifier_eq_ok found
    exact confined_addStatement (statement_forward_required (words name (by simp)) specifier)
  · refine .bind (confined_quotedSpecifier filed) fun quoted between ends => ?_
    obtain ⟨found, -⟩ := (Ends.liftM_iff _ _ _ _).mp ends
    obtain ⟨specifier, -, rfl⟩ := quotedSpecifier_eq_ok found
    refine .bind (.bind .get fun _ _ _ => .bind (.modify _) fun _ _ _ => .pure _)
      fun bound between ends => ?_
    obtain ⟨free, -⟩ := ends_reserveAlias.mp ends
    have valid : IsName bound := free ▸ Text.isName_fresh (Text.isWord_toIdentifier stem) _
    exact .bind (confined_addStatement (statement_alias valid specifier)) fun _ _ _ =>
      .forM fun name member _ =>
        confined_addStatement (statement_forward_alias (words name member) valid)

end EntryPoint

/-! ## Modules -/

namespace Conversion

open Work Surroundings

variable {settings : Settings} {sources : Ledger String} {before : Workspace}

theorem Reaches.filed (accepted : settings.Accepted) {path : String}
    (reaches : Reaches settings sources path before) : before.index.Filed := by
  obtain ⟨first, start, done, todo, modules, passed, parts, same, behind⟩ := reaches
  have linked := passed.linked
  have written := writing_writeFiles linked accepted same (parts ▸ List.prefix_append _ _) behind
  intro name owner owned
  obtain ⟨live, -⟩ := (written.alike.owning linked.toOwning).provided name owner owned
  obtain ⟨script, found, surveyed⟩ := linked.surveyed owner (written.alike.live ▸ live)
  obtain ⟨-, rfl⟩ := Dependency.path_of_scriptAt? found
  exact surveyed.toFiled.path_ne_empty

theorem confined_writeFile_internal (accepted : settings.Accepted) (worded : settings.Worded)
    {path : String} (reaches : Reaches settings sources path before) :
    Confined Fault.Internal (writeFile path) before := by
  have filed := reaches.filed accepted
  obtain ⟨start, found, rfl, rfl, surveyed, -⟩ := reaches.resolved accepted
  have words := surveyed.isWord_of_provides worded
  exact confined_writeFile_of accepted found surveyed
    (Draft.confined_write accepted worded filed surveyed) fun entry =>
      EntryPoint.confined_add surveyed.toFiled.path_ne_empty start.stem words

theorem confined_writeFile_none (accepted : settings.Accepted) (worded : settings.Worded)
    {path : String} (reaches : Reaches settings sources path before) :
    Confined (fun _ => False) (writeFile path) before := by
  intro fault last stops
  have internal := confined_writeFile_internal accepted worded reaches fault last stops
  have other := confined_writeFile accepted reaches fault last stops
  cases internal.symm.trans other

/-! ## Runs -/

theorem confined_run (accepted : settings.Accepted) (worded : settings.Worded)
    {log log' : List LogLine} {corpus : Corpus}
    (ingesting : Ends (Corpus.ingest settings sources) log corpus log') (withGraph : Bool) :
    Confined (fun _ => False) (run settings sources withGraph) log := by
  refine .bind_of_ends ingesting (.onPart ?_)
  refine .bind (confined_mergePhase _) fun _ merged merging => ?_
  obtain ⟨ingested, known⟩ := ingested_mergePhase ingesting merging
  refine .bind (confined_analysisPhase ingested known) fun unclassified analysed analysing =>
    .bind_of_ends (.get_same _) ?_
  refine .bind (confined_integrityPhase _) fun dangling first checking => ?_
  have passed : Passed settings sources first :=
    ⟨log, corpus, log', merged, _, _, _, ingesting, merging, analysing, checking⟩
  refine .bind (confined_modulePhase_of (fun _ _ => confined_writeFile_none accepted worded) passed)
    fun modules last writing => ?_
  exact .bind (confined_entryPhase (exists_graph accepted passed writing)) fun _ _ _ =>
    .bind .get fun _ _ _ => .pure _

theorem run_ends (accepted : settings.Accepted) (worded : settings.Worded)
    (readable : Corpus.Readable settings sources) (log : List LogLine) (withGraph : Bool) :
    ∃ report last, Ends (run settings sources withGraph) log report last := by
  obtain ⟨corpus, ingesting⟩ := readable.exists_ingest log
  exact (confined_run accepted worded ingesting withGraph).exists_ends

-- an accepted alias need not be a word, and no file that requires the root module is written with such
example : Settings.Accepted { rootAlias := "a²", rootNames := ["B"] } ∧
    evaluate { rootAlias := "a²", rootNames := ["B"] }
      [("Three.js", "var THREE = {};"), ("a.js", "THREE.A = THREE.B;")] false = none := by
  refine ⟨⟨[("root_module_alias", .text "a²"), ("root_extra_provides", .list [.text "B"])], rfl⟩, ?_⟩
  decide +kernel

end Conversion

end ScriptModules
