import ScriptModules.Proofs.Analysis.Numbered
import ScriptModules.Proofs.Corpus.Ingest
import ScriptModules.Proofs.Dependency.Reachability

namespace ScriptModules

open ScriptModules.Tree
open Dependency (scriptAt?)

def Script.ofSource (settings : Settings) (id : Nat) (path : String) (tree : Node) : Script :=
  { path
    id
    tree
    stem := Corpus.stem path settings.codeExtension
    names := tree.boundNames
    isRoot := path == settings.rootPath }

namespace Dependency

def unnumberedAt? (scripts : List Script) (path : String) : Option Script :=
  (scriptAt? scripts path).map (Script.numbered 0)

theorem unnumberedAt?_append (scripts : List Script) (script : Script) (path : String) :
    unnumberedAt? (scripts ++ [script]) path = (unnumberedAt? scripts path).or
      (if script.path = path then some (script.numbered 0) else none) := by
  have single : scriptAt? [script] path = if script.path = path then some script else none := by
    by_cases own : script.path = path <;> simp [scriptAt?, own]
  have whole : scriptAt? (scripts ++ [script]) path =
      (scriptAt? scripts path).or (scriptAt? [script] path) := List.find?_append
  rw [unnumberedAt?, whole, Option.map_or, single]
  split <;> rfl

theorem scriptAt?_of_unnumberedAt? {scripts scripts' : List Script} {path : String}
    (same : unnumberedAt? scripts' path = unnumberedAt? scripts path) {script : Script}
    (found : scriptAt? scripts path = some script) :
    ∃ id, scriptAt? scripts' path = some (script.numbered id) := by
  rw [unnumberedAt?, unnumberedAt?, found, Option.map_some] at same
  obtain ⟨script', found', same⟩ := Option.map_eq_some_iff.mp same
  refine ⟨script'.id, found'.trans (congrArg some ?_)⟩
  change (script'.numbered 0).numbered script'.id = (script.numbered 0).numbered script'.id
  rw [same]

end Dependency

open Dependency (unnumberedAt?)

namespace Corpus

/-! ## Reading without a log -/

def withSource? (settings : Settings) (corpus : Corpus) (source : String × String) :
    Option Corpus :=
  if Text.endsWith source.1 settings.shaderExtension then
    some { corpus with
      chunks := corpus.chunks.put (stem source.1 settings.shaderExtension) source.2 }
  else if Text.endsWith source.1 settings.codeExtension then
    (Node.parse? source.2).map fun tree => { corpus with
      scripts := corpus.scripts ++ [.ofSource settings corpus.scripts.length source.1 tree] }
  else some corpus

def read? (settings : Settings) (sources : Ledger String) : Option Corpus :=
  (normalizeSources sources).toOption.bind fun normal =>
    (Text.sortBy Prod.fst normal).foldlM (withSource? settings) {}

variable {settings : Settings}

theorem ends_addSource_iff {corpus next : Corpus} {source : String × String}
    {before after : List LogLine} :
    Ends (addSource settings corpus source.1 source.2) before next after ↔
      withSource? settings corpus source = some next ∧ after = before := by
  unfold addSource withSource?
  split
  · rw [Ends.pure_iff, Option.some.injEq, eq_comm]
  · split
    · unfold readSource
      cases parsed : Node.parse? source.2 with
      | none => simp
      | some tree =>
          rw [Ends.bind_iff, Option.map_some, Option.some.injEq]
          constructor
          · rintro ⟨_, _, ends, ends'⟩
            obtain ⟨rfl, rfl⟩ := (Ends.pure_iff _ _ _ _).mp ends
            obtain ⟨rfl, rfl⟩ := (Ends.pure_iff _ _ _ _).mp ends'
            exact ⟨rfl, rfl⟩
          · rintro ⟨rfl, rfl⟩
            exact ⟨tree, after, (Ends.pure_iff _ _ _ _).mpr ⟨rfl, rfl⟩,
              (Ends.pure_iff _ _ _ _).mpr ⟨rfl, rfl⟩⟩
    · rw [Ends.pure_iff, Option.some.injEq, eq_comm]

theorem ends_addSources_iff {entries : Ledger String} {corpus last : Corpus}
    {before after : List LogLine} :
    Ends (entries.foldlM (fun corpus source => addSource settings corpus source.1 source.2) corpus)
        before last after ↔
      entries.foldlM (withSource? settings) corpus = some last ∧ after = before := by
  induction entries generalizing corpus before with
  | nil => simp [Ends.pure_iff, eq_comm]
  | cons source entries ih =>
      simp only [List.foldlM_cons, Ends.bind_iff, ends_addSource_iff, ih,
        Option.bind_eq_bind, Option.bind_eq_some_iff]
      constructor
      · rintro ⟨next, _, ⟨added, rfl⟩, rest, rfl⟩
        exact ⟨⟨next, added, rest⟩, rfl⟩
      · rintro ⟨⟨next, added, rest⟩, rfl⟩
        exact ⟨next, after, ⟨added, rfl⟩, rest, rfl⟩

theorem ends_ingest_iff {sources : Ledger String} {corpus : Corpus} {before after : List LogLine} :
    Ends (ingest settings sources) before corpus after ↔
      read? settings sources = some corpus ∧ after = before := by
  simp only [ingest, read?, Ends.bind_iff, Ends.liftM_iff, ends_addSources_iff]
  cases run : normalizeSources sources with
  | error fault => simp [Except.toOption]
  | ok normal =>
      constructor
      · rintro ⟨_, _, ⟨⟨⟩, rfl⟩, read⟩
        exact read
      · rintro ⟨read, rfl⟩
        exact ⟨normal, after, ⟨rfl, rfl⟩, read, rfl⟩

/-! ## One more script -/

structure Reads (settings : Settings) (sources : Ledger String) (raw text path : String) : Prop where
  normal : Path.normalize? raw = some path
  fresh : ∀ other ∈ sources.map Prod.fst, Path.normalize? other ≠ some path
  code : Text.endsWith path settings.codeExtension = true
  noShader : Text.endsWith path settings.shaderExtension = false
  parsed : (Node.parse? text).isSome = true

structure Gains (path : String) (corpus larger : Corpus) : Prop where
  chunks : larger.chunks = corpus.chunks
  others : ∀ other, other ≠ path →
    unnumberedAt? larger.scripts other = unnumberedAt? corpus.scripts other

theorem normalize_eq_ok {raw path : String} :
    normalize raw = .ok path ↔ Path.normalize? raw = some path := by
  unfold normalize
  cases Path.normalize? raw <;> simp

variable {path : String}

theorem filter_put (ledger : Ledger String) {name text : String} (other : name ≠ path) :
    (ledger.put name text).filter (fun entry => entry.1 != path) =
      Ledger.put (ledger.filter fun entry => entry.1 != path) name text := by
  induction ledger with
  | nil => simp [Ledger.put, other]
  | cons entry rest ih =>
      by_cases same : entry.1 = name
      · simp [Ledger.put, same, other]
      · by_cases own : entry.1 = path
        · simp [Ledger.put, own, Ne.symm other, ih]
        · simp [Ledger.put, same, own, ih]

theorem put_of_not_mem {ledger : Ledger String} {name text : String} (absent : name ∉ ledger.names) :
    ledger.put name text = ledger ++ [(name, text)] := by
  induction ledger with
  | nil => rfl
  | cons entry rest ih =>
      obtain ⟨first, rest⟩ := not_or.mp (mt List.mem_cons.mpr absent)
      rw [Ledger.put, if_neg (Ne.symm first), ih rest]
      rfl

theorem normalizeSources_insert {before after : Ledger String} {raw text : String}
    (reads : Reads settings (before ++ after) raw text path) {normal : Ledger String}
    (run : normalizeSources (before ++ after) = .ok normal) :
    ∃ larger, normalizeSources (before ++ (raw, text) :: after) = .ok larger ∧
      (larger.filter fun entry => entry.1 != path) = normal ∧
      Ledger.get? larger path = some text := by
  unfold normalizeSources at run ⊢
  rw [List.foldlM_append] at run ⊢
  obtain ⟨between, first, run⟩ := bind_eq_ok_iff.mp run
  have origin := (normalizeSources_eq_ok first).2
  have absent : path ∉ between.names := by
    intro member
    obtain ⟨other, known, same⟩ := origin path member
    refine reads.fresh other ?_ same
    rw [List.map_append]
    exact List.mem_append_left _ known
  have start : ((between.put path text).filter fun entry => entry.1 != path) = between := by
    rw [put_of_not_mem absent, List.filter_append, List.filter_eq_self.mpr fun entry member => ?_]
    · simp
    · rw [bne_iff_ne]
      rintro rfl
      exact absent (List.mem_map_of_mem member)
  have step : ∀ source ∈ after, ∀ normal larger next : Ledger String,
      (larger.filter fun entry => entry.1 != path) = normal ∧ Ledger.get? larger path = some text →
      (do return Ledger.put normal (← normalize source.1) source.2) = Except.ok next →
      ∃ next', (do return Ledger.put larger (← normalize source.1) source.2) = Except.ok next' ∧
        (next'.filter fun entry => entry.1 != path) = next ∧ Ledger.get? next' path = some text := by
    rintro ⟨raw', text'⟩ member _ larger next ⟨rfl, found⟩ run
    obtain ⟨other, known, run⟩ := bind_eq_ok_iff.mp run
    cases run
    have distinct : other ≠ path := by
      rintro rfl
      refine reads.fresh raw' ?_ (normalize_eq_ok.mp known)
      rw [List.map_append]
      exact List.mem_append_right _ (List.mem_map_of_mem member)
    refine ⟨larger.put other text', bind_eq_ok_iff.mpr ⟨other, known, rfl⟩,
      filter_put larger distinct, ?_⟩
    rw [Ledger.get?_put, if_neg distinct, found]
  obtain ⟨larger, later, same, found⟩ := foldlM_follows _ step ⟨start, by simp⟩ run
  refine ⟨larger, bind_eq_ok_iff.mpr ⟨between, first, ?_⟩, same, found⟩
  rw [List.foldlM_cons]
  exact bind_eq_ok_iff.mpr
    ⟨_, bind_eq_ok_iff.mpr ⟨path, normalize_eq_ok.mpr reads.normal, rfl⟩, later⟩

/-! ## The scripts of the larger corpus -/

theorem Gains.withSource {corpus larger next : Corpus} (gains : Gains path corpus larger)
    {source : String × String} (run : withSource? settings corpus source = some next) :
    ∃ next', withSource? settings larger source = some next' ∧ Gains path next next' := by
  unfold withSource? at run ⊢
  split at run
  · rename_i shader
    cases run
    rw [if_pos shader, gains.chunks]
    exact ⟨_, rfl, rfl, gains.others⟩
  · rename_i noShader
    rw [if_neg noShader]
    split at run
    · rename_i code
      obtain ⟨tree, parsed, rfl⟩ := Option.map_eq_some_iff.mp run
      rw [if_pos code]
      refine ⟨_, Option.map_eq_some_iff.mpr ⟨tree, parsed, rfl⟩, gains.chunks, fun one distinct => ?_⟩
      rw [Dependency.unnumberedAt?_append, Dependency.unnumberedAt?_append, gains.others one distinct]
      rfl
    · rename_i noCode
      cases run
      rw [if_neg noCode]
      exact ⟨larger, rfl, gains⟩

theorem Gains.withScript {corpus larger : Corpus} (gains : Gains path corpus larger)
    {sources : Ledger String} {raw text : String} (reads : Reads settings sources raw text path) :
    ∃ next, withSource? settings larger (path, text) = some next ∧ Gains path corpus next := by
  obtain ⟨tree, parsed⟩ := Option.isSome_iff_exists.mp reads.parsed
  unfold withSource?
  rw [if_neg (by simp [reads.noShader]), if_pos reads.code, parsed]
  refine ⟨_, rfl, gains.chunks, fun other distinct => ?_⟩
  have apart : (Script.ofSource settings larger.scripts.length path tree).path ≠ other :=
    Ne.symm distinct
  rw [Dependency.unnumberedAt?_append, if_neg apart, Option.or_none, gains.others other distinct]

theorem read?_gains {before after : Ledger String} {raw text : String}
    (reads : Reads settings (before ++ after) raw text path) {corpus : Corpus}
    (run : read? settings (before ++ after) = some corpus) :
    ∃ larger, read? settings (before ++ (raw, text) :: after) = some larger ∧
      Gains path corpus larger := by
  unfold read? at run ⊢
  obtain ⟨normal, normalized, run⟩ := Option.bind_eq_some_iff.mp run
  replace normalized : normalizeSources (before ++ after) = .ok normal := by
    cases result : normalizeSources (before ++ after) with
    | error fault =>
        rw [result] at normalized
        cases normalized
    | ok other =>
        rw [result] at normalized
        cases normalized
        rfl
  obtain ⟨sources, normalized', same, found⟩ := normalizeSources_insert reads normalized
  have distinct := (normalizeSources_eq_ok normalized').1
  rw [normalized']
  rw [← same, Text.sortBy_filter distinct] at run
  have own : ∀ source ∈ Text.sortBy Prod.fst sources, source.1 = path → source.2 = text := by
    rintro ⟨_, other⟩ member rfl
    have entry := (Text.sortBy_perm Prod.fst sources).mem_iff.mp member
    exact Option.some.inj ((Ledger.get?_of_mem distinct entry).symm.trans found)
  suffices carried : ∀ entries : Ledger String,
      (∀ source ∈ entries, source.1 = path → source.2 = text) → ∀ before before' last : Corpus,
      Gains path before before' →
      (entries.filter fun entry => entry.1 != path).foldlM (withSource? settings) before = some last →
      ∃ last', entries.foldlM (withSource? settings) before' = some last' ∧ Gains path last last' from
    carried _ own {} {} corpus ⟨rfl, fun _ _ => rfl⟩ run
  intro entries
  induction entries with
  | nil =>
      rintro - before before' last gains run
      cases run
      exact ⟨before', rfl, gains⟩
  | cons source entries ih =>
      intro own before before' last gains run
      have rest := ih fun other member => own other (List.mem_cons_of_mem _ member)
      simp only [List.foldlM_cons, Option.bind_eq_bind]
      by_cases new : source.1 = path
      · obtain ⟨next, added, gains⟩ := gains.withScript reads
        rw [List.filter_cons, if_neg (by simp [new])] at run
        obtain ⟨last', later, gains⟩ := rest before next last gains run
        refine ⟨last', Option.bind_eq_some_iff.mpr ⟨next, ?_, later⟩, gains⟩
        rwa [show source = (path, text) from Prod.ext new (own source List.mem_cons_self new)]
      · rw [List.filter_cons, if_pos (by simp [new]), List.foldlM_cons, Option.bind_eq_bind] at run
        obtain ⟨between, added, run⟩ := Option.bind_eq_some_iff.mp run
        obtain ⟨between', added', gains⟩ := gains.withSource added
        obtain ⟨last', later, gains⟩ := rest between between' last gains run
        exact ⟨last', Option.bind_eq_some_iff.mpr ⟨between', added', later⟩, gains⟩

end Corpus

end ScriptModules
