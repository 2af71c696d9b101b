import ScriptModules.Proofs.Conversion.Workspace
import ScriptModules.Proofs.Corpus.Chunks

namespace ScriptModules

open Dependency (scriptAt?)
open Text.Quoted (quote)

structure Workspace.MergesInto (workspace : Workspace) (script : Script) (frame : Chunks.Frame)
    (properties : List Tree.Node) : Prop where
  live : script ∈ workspace.liveScripts
  path : script.path = workspace.settings.chunkTablePath
  filled : workspace.chunks ≠ []
  tree : script.tree = frame.fill properties

theorem Workspace.putScript_tree {workspace : Workspace} {script : Script}
    (unique : (workspace.scripts.map Script.path).Nodup) (member : script ∈ workspace.scripts)
    (tree : Tree.Node) :
    workspace.putScript { script with tree } =
      { workspace with scripts := workspace.scripts.map fun other =>
          if other.path = script.path then { other with tree } else other } := by
  refine congrArg (fun scripts => { workspace with scripts }) ?_
  apply List.map_congr_left
  intro other inside
  by_cases own : other.path = script.path
  · rw [if_pos own, if_pos own, List.inj_on_of_nodup_map unique inside member own]
  · rw [if_neg own, if_neg own]

namespace Conversion

variable {before : Workspace}

theorem ends_mergeChunks_table {script : Script} {tree : Tree.Node}
    (found : scriptAt? before.liveScripts before.settings.chunkTablePath = some script)
    (filled : before.chunks ≠ []) (table : Chunks.holdsTable script.tree = true)
    (added : Chunks.addAll script.tree before.chunks = .ok tree) :
    Ends Work.mergeChunks before before.chunks.length (before.putScript { script with tree }) := by
  rw [scriptAt?] at found
  rw [Work.mergeChunks, Ends.get_bind_iff]
  dsimp only
  rw [found]
  simp [table, filled, added]

theorem ends_mergeChunks_none (nowhere : ∀ script,
      scriptAt? before.liveScripts before.settings.chunkTablePath = some script →
        before.chunks ≠ [] → Chunks.holdsTable script.tree = false) :
    ∃ log, Ends Work.mergeChunks before 0 { before with log } := by
  have still : ∃ log, Ends (pure 0 : Work Nat) before 0 { before with log } :=
    ⟨before.log, (Ends.pure_iff _ _ _ _).mpr ⟨rfl, rfl⟩⟩
  simp only [Work.mergeChunks, Ends.get_bind_iff]
  split
  · exact still
  · rename_i script found
    split
    · exact still
    · rename_i filled
      rw [nowhere script found (by simpa using filled), if_neg (by decide)]
      refine ⟨before.log ++ [⟨.warning, Work.noTableText before.settings.chunkTablePath⟩], ?_⟩
      simp [Work.note, Work.logged, Logged.note]

theorem mergeChunks_cases (before : Workspace) :
    (∃ script tree, scriptAt? before.liveScripts before.settings.chunkTablePath = some script ∧
      before.chunks ≠ [] ∧ Chunks.holdsTable script.tree = true ∧
      Chunks.addAll script.tree before.chunks = .ok tree ∧
      Ends Work.mergeChunks before before.chunks.length (before.putScript { script with tree })) ∨
    (∀ script, scriptAt? before.liveScripts before.settings.chunkTablePath = some script →
      before.chunks ≠ [] → Chunks.holdsTable script.tree = false) ∧
      ∃ log, Ends Work.mergeChunks before 0 { before with log } := by
  by_cases place : ∃ script,
      scriptAt? before.liveScripts before.settings.chunkTablePath = some script ∧
        before.chunks ≠ [] ∧ Chunks.holdsTable script.tree = true
  · obtain ⟨script, found, filled, table⟩ := place
    obtain ⟨tree, added⟩ := Chunks.exists_addAll script.tree before.chunks
    exact .inl ⟨script, tree, found, filled, table, added,
      ends_mergeChunks_table found filled table added⟩
  · have nowhere : ∀ script,
        scriptAt? before.liveScripts before.settings.chunkTablePath = some script →
          before.chunks ≠ [] → Chunks.holdsTable script.tree = false :=
      fun script found filled => eq_false_of_ne_true fun table =>
        place ⟨script, found, filled, table⟩
    exact .inr ⟨nowhere, ends_mergeChunks_none nowhere⟩

/-- Merging returns the number of the chunks and adds a property for each of them to the table, or
it returns zero and changes no file. -/
theorem chunks_merged (before : Workspace) (unique : (before.scripts.map Script.path).Nodup) :
    (∀ script frame properties, before.MergesInto script frame properties →
      Ends Work.mergeChunks before before.chunks.length
        { before with scripts := before.scripts.map fun other =>
            if other.path = script.path then
              { other with
                tree := frame.fill (properties ++ before.chunks.map fun chunk => .of .property
                  [.of (.string (quote chunk.1)) [], .of (.string (quote chunk.2)) []]) }
            else other }) ∧
      ((¬∃ script frame properties, before.MergesInto script frame properties) →
        ∃ log, Ends Work.mergeChunks before 0 { before with log }) := by
  have distinct : (before.liveScripts.map Script.path).Nodup :=
    unique.sublist (List.filter_sublist.map _)
  constructor
  · intro script frame properties into
    have found := Dependency.scriptAt?_of_mem distinct into.live
    have added := Chunks.addAll_fill frame properties before.chunks
    have table := (Chunks.holdsTable_iff_fill _).mpr ⟨frame, properties, into.tree⟩
    rw [into.path] at found
    rw [← into.tree] at added
    have merged := ends_mergeChunks_table found into.filled table added
    rwa [Workspace.putScript_tree unique (List.mem_of_mem_filter into.live)] at merged
  · intro nowhere
    apply ends_mergeChunks_none
    intro script found filled
    by_contra table
    obtain ⟨frame, properties, tree⟩ :=
      (Chunks.holdsTable_iff_fill _).mp (eq_true_of_ne_false table)
    obtain ⟨live, path⟩ := Dependency.path_of_scriptAt? found
    exact nowhere ⟨script, frame, properties, live, path, filled, tree⟩

def tableFrame : Chunks.Frame where
  form := .program
  operator := "="
  target := .of .member [.identifier "THREE", .of (.propertyName "Chunks") []]
  programComments := []
  statementComments := ["// chunks"]
  valueComments := []
  tableComments := []
  behindTable := []
  behindValue := []
  statements := [.of .empty []]

def oldProperty : Tree.Node :=
  .of .property [.of (.propertyName "fog") [], .of (.string "'old'") []]

def tableScript (properties : List Tree.Node) : Script where
  path := "./renderers/shaders/ShaderChunk.js"
  id := 1
  tree := tableFrame.fill properties
  stem := "ShaderChunk"

def chunkWorkspace (properties : List Tree.Node) : Workspace where
  settings := {}
  scripts := [{ path := "./a.js", id := 0, tree := .program [], stem := "a" },
    tableScript properties]
  live := ["./a.js", "./renderers/shaders/ShaderChunk.js"]
  chunks := [("it's", "\x7d\n"), ("fog", "")]
  entry := { path := "./index.js", extension := ".js" }

/-- The table has a property under the name of the second chunk already. -/
theorem chunks_merged_chunkWorkspace :
    ((chunkWorkspace [oldProperty]).scripts.map Script.path).Nodup ∧
      Ends Work.mergeChunks (chunkWorkspace [oldProperty]) 2 (chunkWorkspace
        [oldProperty,
         .of .property [.of (.string "'it\\'s'") [], .of (.string "'\x7d\\n'") []],
         .of .property [.of (.string "'fog'") [], .of (.string "''") []]]) ∧
      ∃ log, Ends Work.mergeChunks { chunkWorkspace [oldProperty] with chunks := [] } 0
        { chunkWorkspace [oldProperty] with chunks := [], log } := by
  have unique : ((chunkWorkspace [oldProperty]).scripts.map Script.path).Nodup := by decide
  have into : (chunkWorkspace [oldProperty]).MergesInto (tableScript [oldProperty]) tableFrame
      [oldProperty] :=
    ⟨by simp [Workspace.liveScripts, chunkWorkspace, tableScript], rfl, by decide, rfl⟩
  refine ⟨unique, (chunks_merged _ unique).1 _ _ _ into, ?_⟩
  refine (chunks_merged { chunkWorkspace [oldProperty] with chunks := [] } unique).2 ?_
  rintro ⟨script, frame, properties, into⟩
  exact into.filled rfl

end Conversion

end ScriptModules
