import ScriptModules.Command.Session
import ScriptModules.Proofs.Conversion.Owners
import ScriptModules.Proofs.Path.FileTree
import ScriptModules.Proofs.Stop

namespace ScriptModules

theorem Conversion.files_delivered {settings : Settings} (accepted : settings.Accepted)
    {sources : Ledger String} {withGraph : Bool} {log : List LogLine} {report : Report}
    {final : Workspace} (ran : Ran settings sources withGraph log report final) :
    report.files.get? report.entryPath = some report.entryCode ∧
      ∀ path ∈ final.live, path ≠ report.entryPath → ∃ text,
        (path, text) ∈ report.outputs ∧ report.files.get? path = some text := by
  obtain ⟨rewritten, -⟩ := ran.rewritten accepted
  constructor
  · simp [Report.files]
  · intro path live other
    have named : path ∈ report.outputs.names := by
      rw [names_outputs]
      exact rewritten.paths ▸ live
    obtain ⟨text, known⟩ := Ledger.exists_get?_of_mem_names named
    refine ⟨text, Ledger.mem_of_get? known, ?_⟩
    rw [Report.files, Ledger.get?_put, if_neg (Ne.symm other), known]

example : ((Conversion.evaluate {} [("index.js", "THREE.A = 1;")] false).map fun (report, _) =>
    (report.outputs, report.files)) = some ([("./index.js", "exports.A = 1;\n")],
      [("./index.js", "exports.A = require('./index').A;\n")]) := by
  decide +kernel

namespace Command

open FileTree (Touches)

variable {before after : CommandState}

theorem ends_note {level : Level} {message : String}
    (ends : Ends (note level message) before ⟨⟩ after) : after.files = before.files := by
  simp only [note, logged, Ends.onPart_iff] at ends
  obtain ⟨log, -, rfl⟩ := ends
  rfl

theorem ends_changeFiles {change : FileTree → Except Fault FileTree}
    (ends : Ends (changeFiles change) before ⟨⟩ after) : change before.files = .ok after.files := by
  simp only [changeFiles, Ends.bind_iff, Ends.get_iff, Ends.liftM_iff, Ends.modify_iff] at ends
  obtain ⟨_, _, ⟨rfl, rfl⟩, files, _, ⟨changed, rfl⟩, rfl⟩ := ends
  exact changed

theorem ends_writeText {path : FilePath} {text : String}
    (ends : Ends (writeText path text) before ⟨⟩ after) :
    Touches [path] before.files after.files ∧
      after.files.lookUp path = some (.file text.toUTF8) := by
  simp only [writeText, Ends.bind_iff] at ends
  obtain ⟨_, opened, made, _, between, written, noted⟩ := ends
  obtain ⟨touches, here⟩ := FileTree.writeFile_touches (ends_changeFiles written)
  rw [ends_note noted]
  exact ⟨(FileTree.makeDirectories_touches (ends_changeFiles made)).trans touches, here⟩

theorem ends_copyTemplate {settings : Settings} {output : FilePath} {name : String}
    (ends : Ends (copyTemplate settings output name) before ⟨⟩ after) :
    Touches [output.join (.parse name)] before.files after.files := by
  simp only [copyTemplate, Ends.bind_iff, Ends.get_iff] at ends
  obtain ⟨_, _, ⟨rfl, rfl⟩, ends⟩ := ends
  split at ends
  · simp only [Ends.bind_iff] at ends
    obtain ⟨_, opened, made, _, between, copied, noted⟩ := ends
    rw [ends_note noted]
    apply (FileTree.makeDirectories_touches (ends_changeFiles made)).trans
    have copied := ends_changeFiles copied
    unfold copyFile at copied
    split at copied
    · split at copied
      · cases copied
      · exact (FileTree.writeFile_touches copied).1
    · cases copied
  · rw [ends_note ends]
    exact (Touches.refl _).mono (List.nil_subset _)

theorem touches_forM {α : Type} {task : α → Task Unit} {place : α → FilePath}
    (step : ∀ item before after, Ends (task item) before ⟨⟩ after →
      Touches [place item] before.files after.files)
    {items : List α} (ends : Ends (items.forM task) before ⟨⟩ after) :
    Touches (items.map place) before.files after.files := by
  induction items generalizing before with
  | nil =>
      rw [Ends.forM_nil_iff.mp ends]
      exact .refl _
  | cons item items ih =>
      obtain ⟨between, first, rest⟩ := Ends.forM_cons_iff.mp ends
      exact (step item _ _ first).trans (ih rest)

theorem ends_close {report : Report} (ends : Ends (close report) before ⟨⟩ after) :
    after.files = before.files := by
  unfold close at ends
  split at ends
  · exact ends_note ends
  · rw [(Ends.modify_iff _ _ _ _).mp ends]

def others (request : Request) (settings : Settings) (entryPath : String) : List FilePath :=
  request.output.join (.parse entryPath) ::
    (settings.copiedFiles.map fun name => request.output.join (.parse name)) ++
      (request.graph.toList ++ request.trace.toList)

theorem ends_deliver {request : Request} {settings : Settings} {report : Report}
    (ends : Ends (deliver request settings report) before ⟨⟩ after) : ∃ start between,
      Ends (report.outputs.forM fun output =>
        writeText (request.output.join (.parse output.1)) output.2) start ⟨⟩ between ∧
      Touches (others request settings report.entryPath) between.files after.files := by
  simp only [deliver, Ends.bind_iff] at ends
  obtain ⟨_, start, noted, _, between, units, _, entered, entry, _, copied, templates, rest⟩ := ends
  refine ⟨start, between, units, ?_⟩
  have entry := (ends_writeText entry).1
  have templates := touches_forM (fun name _ _ => ends_copyTemplate) templates
  apply (entry.trans templates).trans
  -- the graph and the trace are written only if the request asks for them
  cases trace : request.trace with
  | none =>
      rw [trace] at rest
      split at rest
      · rename_i path graph asked built
        obtain ⟨_, last, written, closed⟩ := (Ends.bind_iff _ _ _ _ _).mp rest
        rw [ends_close closed, asked]
        exact (ends_writeText written).1
      · rw [ends_close rest]
        exact (Touches.refl _).mono (List.nil_subset _)
  | some path =>
      rw [trace] at rest
      split at rest
      · rename_i path graph asked built
        simp only [Ends.bind_iff] at rest
        obtain ⟨_, middle, written, _, last, traced, closed⟩ := rest
        rw [ends_close closed, asked]
        exact (ends_writeText written).1.trans (ends_writeText traced).1
      · obtain ⟨_, last, traced, closed⟩ := (Ends.bind_iff _ _ _ _ _).mp rest
        rw [ends_close closed]
        exact (ends_writeText traced).1.mono (List.subset_append_right _ _)

/-- The text of each file that was converted is in its place, unless a file that is written behind all
of them has the same place. -/
def Delivered (request : Request) (settings : Settings) (report : Report) (files : FileTree) : Prop :=
  ∀ output ∈ report.outputs,
    files.lookUp (request.output.join (.parse output.1)) = some (.file output.2.toUTF8) ∨
      ∃ other ∈ others request settings report.entryPath,
        files.locate other = files.locate (request.output.join (.parse output.1))

theorem deliver_delivers {request : Request} {settings : Settings} {report : Report}
    (normal : ∀ path ∈ report.outputs.names, ∃ parts, Path.Resolved parts ∧
      path = "./" ++ Text.joinWith '/' parts)
    (distinct : report.outputs.names.Nodup)
    (ends : Ends (deliver request settings report) before ⟨⟩ after) :
    Delivered request settings report after.files := by
  rintro ⟨path, text⟩ member
  obtain ⟨start, last, units, behind⟩ := ends_deliver ends
  obtain ⟨early, late, whole⟩ := List.append_of_mem member
  rw [whole] at units
  obtain ⟨middle, -, units⟩ := Ends.forM_append_iff.mp units
  obtain ⟨between, written, rest⟩ := Ends.forM_cons_iff.mp units
  have here := (ends_writeText written).2
  have touches := (touches_forM (fun output _ _ ends => (ends_writeText ends).1) rest).trans behind
  obtain ⟨location, led, file⟩ := Option.bind_eq_some_iff.mp here
  rcases touches.lookUp here with stays | ⟨other, inside, same⟩
  · exact .inl stays
  · rcases List.mem_append.mp inside with unit | other
    · -- a module with the same place would have the same path
      obtain ⟨⟨path', text'⟩, later, rfl⟩ := List.mem_map.mp unit
      have inner : location ≠ [] := by
        rintro rfl
        cases file
      have member' : (path', text') ∈ report.outputs := by simp [whole, later]
      obtain ⟨parts, resolved, shape⟩ := normal path (List.mem_map_of_mem member)
      obtain ⟨parts', resolved', shape'⟩ := normal path' (List.mem_map_of_mem member')
      have leads := touches.locate led
      have leads' := same.trans leads
      dsimp only at leads leads'
      rw [shape, FilePath.parse_of_resolved resolved] at leads
      rw [shape', FilePath.parse_of_resolved resolved'] at leads'
      obtain rfl := FileTree.locate_join_injective resolved resolved' inner leads leads'
      rw [whole, shape, ← shape', Ledger.names, List.map_append, List.map_cons] at distinct
      have fresh := (List.nodup_cons.mp (List.nodup_append.mp distinct).2.1).1
      exact absurd (List.mem_map_of_mem later) fresh
    · exact .inr ⟨_, other, same⟩

/-! ## The command -/

theorem ends_load {tree : FileTree} {start : FilePath} {overrides : Ledger Value}
    {settings : Settings} {log log' : List LogLine}
    (ends : Ends (Settings.load tree start overrides) log settings log') : settings.Accepted := by
  simp only [Settings.load, Ends.bind_iff] at ends
  obtain ⟨_, _, -, ends⟩ := ends
  split at ends
  · split at ends
    · exact ⟨_, ((Ends.liftM_iff _ _ _ _).mp ends).1⟩
    · simp only [Ends.bind_iff, Ends.liftM_iff] at ends
      obtain ⟨_, _, -, given, -⟩ := ends
      exact ⟨_, given⟩
  · exact ⟨_, ((Ends.liftM_iff _ _ _ _).mp ends).1⟩

theorem ends_settingsFor {input : FilePath} {overrides : Ledger Value} {settings : Settings}
    (ends : Ends (settingsFor input overrides) before (some settings) after) :
    settings.Accepted := by
  simp only [settingsFor, Ends.bind_iff, Ends.get_iff, Ends.tryCatch_iff, Ends.return_iff] at ends
  obtain ⟨_, _, ⟨rfl, rfl⟩, result, between, caught, returned⟩ := ends
  rcases caught with ⟨given, _, loaded, rfl, rfl⟩ | ⟨fault, _, -, handled⟩
  · obtain ⟨same, -⟩ := (Ends.pure_iff _ _ _ _).mp returned
    cases same
    simp only [logged, Ends.onPart_iff] at loaded
    obtain ⟨log, loaded, -⟩ := loaded
    exact ends_load loaded
  · split at handled
    · simp only [Ends.bind_iff, Ends.return_iff] at handled
      obtain ⟨_, _, -, rfl, rfl⟩ := handled
      cases ((Ends.pure_iff _ _ _ _).mp returned).1
    · simp at handled

theorem ends_convertDirectory {settings : Settings} {input : FilePath} {withGraph : Bool}
    {report : Report}
    (ends : Ends (convertDirectory settings input withGraph) before (some report) after) :
    ∃ sources final, Corpus.readSources before.files input settings = .ok sources ∧
      Conversion.Ran settings sources withGraph before.log report final := by
  simp only [convertDirectory, Ends.bind_iff, Ends.get_iff, Ends.liftM_iff, Ends.tryCatch_iff,
    Ends.return_iff] at ends
  obtain ⟨_, _, ⟨rfl, rfl⟩, sources, _, ⟨found, rfl⟩, result, between, caught, returned⟩ := ends
  rcases caught with ⟨given, _, run, rfl, rfl⟩ | ⟨fault, _, -, handled⟩
  · obtain ⟨same, -⟩ := (Ends.pure_iff _ _ _ _).mp returned
    cases same
    simp only [logged, Ends.onPart_iff] at run
    obtain ⟨log, run, -⟩ := run
    obtain ⟨final, ran, -⟩ := Conversion.ends_run_iff.mp run
    exact ⟨sources, final, found, ran⟩
  · split at handled
    · simp only [Ends.bind_iff, Ends.return_iff] at handled
      obtain ⟨_, _, -, rfl, rfl⟩ := handled
      cases ((Ends.pure_iff _ _ _ _).mp returned).1
    · simp at handled

theorem convert_delivers {request : Request} (ends : Ends (convert request) before 0 after) :
    ∃ settings sources log report final, settings.Accepted ∧
      Conversion.Ran settings sources request.graph.isSome log report final ∧
      report.outputs.names = final.live ∧ Delivered request settings report after.files := by
  simp only [convert, Ends.bind_iff, Ends.get_iff] at ends
  obtain ⟨overrides, _, -, _, _, ⟨rfl, rfl⟩, ends⟩ := ends
  split at ends
  · simp only [Ends.bind_iff] at ends
    obtain ⟨settings?, _, loaded, ends⟩ := ends
    cases settings? with
    | none => cases ((Ends.pure_iff _ _ _ _).mp ends).1
    | some settings =>
        obtain ⟨report?, between, converted, ends⟩ := (Ends.bind_iff _ _ _ _ _).mp ends
        cases report? with
        | none => cases ((Ends.pure_iff _ _ _ _).mp ends).1
        | some report =>
            simp only [Ends.bind_iff, Ends.pure_iff] at ends
            obtain ⟨_, _, delivered, -, rfl⟩ := ends
            have accepted := ends_settingsFor loaded
            obtain ⟨sources, final, -, ran⟩ := ends_convertDirectory converted
            obtain ⟨rewritten, -⟩ := ran.rewritten accepted
            have names : report.outputs.names = final.live :=
              (Conversion.names_outputs report).trans rewritten.paths
            refine ⟨settings, sources, _, report, final, accepted, ran, names, ?_⟩
            apply deliver_delivers _ _ delivered
            · intro path member
              rw [Conversion.names_outputs] at member
              obtain ⟨written, inside, rfl⟩ := List.mem_map.mp member
              obtain ⟨start, script, made⟩ := rewritten.made written inside
              obtain ⟨raw, -, normal⟩ := made.surveyed.source
              rw [made.path_eq] at normal
              exact Path.normalize?_eq_some normal
            · rw [names]
              exact rewritten.live
  · simp only [Ends.bind_iff, Ends.pure_iff] at ends
    obtain ⟨_, _, -, impossible, -⟩ := ends
    cases impossible

end Command

end ScriptModules
