import ScriptModules.Corpus.Ingest
import ScriptModules.Proofs.Analysis.Access
import ScriptModules.Proofs.Path.Specifier
import ScriptModules.Proofs.Task
import ScriptModules.Proofs.Text.Order

namespace ScriptModules

open ScriptModules.Tree

def Corpus.Parses (sources : Ledger String) (path : String) (source : Node) : Prop :=
  ∃ normal text, normalizeSources sources = .ok normal ∧ Ledger.get? normal path = some text ∧
    Node.parse? text = some source

structure Script.Filed (settings : Settings) (sources : Ledger String) (script : Script) : Prop
    where
  rooted : script.isRoot = (script.path == settings.rootPath)
  ends : Text.endsWith script.path settings.codeExtension = true
  source : ∃ raw ∈ sources.map Prod.fst, Path.normalize? raw = some script.path
  program : script.tree.form = .program

structure Script.Opened (settings : Settings) (sources : Ledger String) (script : Script) : Prop
    extends Access.Unread script, Script.Filed settings sources script where
  helpers : script.helpers = []
  parsed : ∃ source, Corpus.Parses sources script.path source ∧ script.names = source.boundNames

namespace Corpus

theorem normalizeSources_eq_ok {sources : List (String × String)} {normal : Ledger String}
    (run : normalizeSources sources = .ok normal) : normal.names.Nodup ∧
      ∀ path ∈ normal.names, ∃ raw ∈ sources.map Prod.fst, Path.normalize? raw = some path := by
  refine foldlM_ok (fun normal : Ledger String => normal.names.Nodup ∧
    ∀ path ∈ normal.names, ∃ raw ∈ sources.map Prod.fst, Path.normalize? raw = some path) ?_ run
    (by simp)
  rintro before ⟨raw, text⟩ after member ⟨distinct, origin⟩ run
  obtain ⟨path, found, run⟩ := bind_eq_ok_iff.mp run
  cases run
  refine ⟨Ledger.nodup_names_put distinct _ _, fun other known => ?_⟩
  rcases (Ledger.mem_names_put _ _ _ _).mp known with old | rfl
  · exact origin other old
  · refine ⟨raw, List.mem_map_of_mem member, ?_⟩
    unfold normalize at found
    split at found
    · rename_i same
      rw [same]
      exact congrArg some (Except.ok.inj found)
    · cases found

theorem ends_readSource {text path : String} {before after : List LogLine} {tree : Node}
    (ends : Ends (readSource text path) before tree after) : Node.parse? text = some tree := by
  unfold readSource at ends
  split at ends
  · rename_i program parsed
    rw [parsed, ((Ends.pure_iff _ _ _ _).mp ends).1]
  · simp at ends

theorem ends_addSource {settings : Settings} {sources normal : Ledger String}
    (run : normalizeSources sources = .ok normal) {corpus next : Corpus} {path text : String}
    (entry : (path, text) ∈ normal) {before after : List LogLine}
    (ends : Ends (addSource settings corpus path text) before next after) :
    next.scripts = corpus.scripts ∨ ∃ script, next.scripts = corpus.scripts ++ [script] ∧
      script.path = path ∧ script.Opened settings sources := by
  unfold addSource at ends
  split at ends
  · obtain ⟨rfl, -⟩ := (Ends.pure_iff _ _ _ _).mp ends
    exact .inl rfl
  · split at ends
    · rename_i extension
      simp only [Ends.bind_iff, Ends.pure_iff] at ends
      obtain ⟨tree, _, read, rfl, rfl⟩ := ends
      have parsed := ends_readSource read
      obtain ⟨distinct, origin⟩ := normalizeSources_eq_ok run
      refine .inr ⟨_, rfl, rfl, ?_⟩
      exact
        { sound := parse?_sound parsed
          taken := fun name member => by simpa using member
          provides := rfl
          requires := rfl
          program := parse?_program parsed
          helpers := rfl
          rooted := rfl
          ends := extension
          source := origin path (List.mem_map_of_mem entry)
          parsed := ⟨tree, ⟨normal, text, run, Ledger.get?_of_mem distinct entry, parsed⟩, rfl⟩ }
    · obtain ⟨rfl, -⟩ := (Ends.pure_iff _ _ _ _).mp ends
      exact .inl rfl

theorem ends_ingest {settings : Settings} {sources : Ledger String}
    {before after : List LogLine} {corpus : Corpus}
    (ends : Ends (ingest settings sources) before corpus after) :
    (corpus.scripts.map Script.path).Nodup ∧
      ∀ script ∈ corpus.scripts, script.Opened settings sources := by
  simp only [ingest, Ends.bind_iff, Ends.liftM_iff] at ends
  obtain ⟨normal, _, ⟨run, rfl⟩, ends⟩ := ends
  obtain ⟨distinct, -⟩ := normalizeSources_eq_ok run
  have perm := Text.sortBy_perm Prod.fst normal
  have distinct : ((Text.sortBy Prod.fst normal).map Prod.fst).Nodup :=
    (perm.map Prod.fst).nodup_iff.mpr distinct
  suffices held : (corpus.scripts.map Script.path).Nodup ∧
      (∀ script ∈ corpus.scripts, script.Opened settings sources) ∧
        ∀ script ∈ corpus.scripts,
          script.path ∈ (Text.sortBy Prod.fst normal).map Prod.fst from ⟨held.1, held.2.1⟩
  refine Ends.foldlM_invariant (fun done corpus => (corpus.scripts.map Script.path).Nodup ∧
    (∀ script ∈ corpus.scripts, script.Opened settings sources) ∧
      ∀ script ∈ corpus.scripts, script.path ∈ done.map Prod.fst) ?_ ends (by simp)
  rintro done ⟨path, text⟩ todo corpus before next after parts ⟨unique, opened, behind⟩ ends
  have entry : (path, text) ∈ normal := perm.mem_iff.mp (by rw [parts]; simp)
  rcases ends_addSource run entry ends with same | ⟨script, grown, rfl, new⟩
  · rw [same]
    exact ⟨unique, opened, fun script member => by simp [behind script member]⟩
  · rw [grown]
    have fresh : script.path ∉ corpus.scripts.map Script.path := by
      intro again
      obtain ⟨other, member, same⟩ := List.mem_map.mp again
      have old := behind other member
      rw [same] at old
      rw [parts, List.map_append, List.map_cons] at distinct
      exact (List.nodup_append.mp distinct).2.2 _ old _ List.mem_cons_self rfl
    refine ⟨?_, fun other member => ?_, fun other member => ?_⟩
    · rw [List.map_append, List.nodup_append]
      refine ⟨unique, List.nodup_singleton _, ?_⟩
      rintro path member _ last rfl
      rw [List.mem_singleton.mp last] at member
      exact fresh member
    · rcases List.mem_append.mp member with old | last
      · exact opened other old
      · rw [List.mem_singleton.mp last]
        exact new
    · rcases List.mem_append.mp member with old | last
      · simp [behind other old]
      · simp [List.mem_singleton.mp last]

theorem ingest_ascending {settings : Settings} {sources : Ledger String}
    {before after : List LogLine} {corpus : Corpus}
    (ends : Ends (ingest settings sources) before corpus after) :
    (corpus.scripts.map Script.path).Pairwise (· < ·) := by
  simp only [ingest, Ends.bind_iff, Ends.liftM_iff] at ends
  obtain ⟨normal, _, ⟨run, rfl⟩, ends⟩ := ends
  obtain ⟨distinct, -⟩ := normalizeSources_eq_ok run
  have perm := Text.sortBy_perm Prod.fst normal
  have kept : (corpus.scripts.map Script.path).Sublist
      ((Text.sortBy Prod.fst normal).map Prod.fst) := by
    refine Ends.foldlM_invariant (fun done corpus =>
      (corpus.scripts.map Script.path).Sublist (done.map Prod.fst)) ?_ ends (.refl _)
    rintro done ⟨path, text⟩ todo corpus before next after parts kept ends
    have entry : (path, text) ∈ normal := perm.mem_iff.mp (by rw [parts]; simp)
    rw [List.map_append]
    rcases ends_addSource run entry ends with same | ⟨script, grown, rfl, -⟩
    · rw [same]
      exact kept.trans (List.sublist_append_left _ _)
    · rw [grown, List.map_append]
      exact kept.append (.refl _)
  exact (Text.sortBy_ascending distinct).sublist kept

end Corpus

end ScriptModules
