import ScriptModules.Proofs.Corpus.Growth
import ScriptModules.Proofs.Path.FileTree

/-!
# Corpora in directories

A corpus can be read from a directory, or from the texts of all files below it. Both readings give the
same corpus if the two tests of a file for an extension agree (`ingest_readSources`): the first compares
the ending of the file name from its last point on, the second asks whether the path ends with the
extension. They agree on an extension that is one point with something behind it, except for a file that
is named like it (`agrees_of_single`); any other extension is the ending of no file name
(`suffix_ne_of_not_single`), so no file with it is read from a directory.
-/

namespace ScriptModules

open ScriptModules.Text (joinWith)

/-! ## Endings -/

namespace FilePath

def Single (extension : String) : Prop :=
  ∃ rest, extension.toList = '.' :: rest ∧ rest ≠ [] ∧ '.' ∉ rest ∧ '/' ∉ rest

theorem suffix_of_split {name : String} {front rest : List Char}
    (parts : name.toList = front ++ '.' :: rest) (free : '.' ∉ rest) :
    suffix name = if rest = [] ∨ front = [] then "" else String.ofList ('.' :: rest) := by
  have other : ∀ c ∈ rest.reverse, (c != '.') = true := by
    intro c member
    rw [bne_iff_ne]
    rintro rfl
    exact free (List.mem_reverse.mp member)
  have reversed : name.toList.reverse = rest.reverse ++ '.' :: front.reverse := by
    rw [parts]
    simp
  have ending : name.toList.reverse.takeWhile (· != '.') = rest.reverse := by
    rw [reversed, List.takeWhile_append_of_pos other]
    simp
  have stem : name.toList.reverse.dropWhile (· != '.') = '.' :: front.reverse := by
    rw [reversed, List.dropWhile_append_of_pos other]
    simp
  simp [suffix, ending, stem]

theorem exists_split (name : String) : suffix name = "" ∨ ∃ front rest,
    name.toList = front ++ '.' :: rest ∧ '.' ∉ rest := by
  have whole := List.takeWhile_append_dropWhile (p := (· != '.')) (l := name.toList.reverse)
  cases stem : name.toList.reverse.dropWhile (· != '.') with
  | nil =>
      left
      simp [suffix, stem]
  | cons c front =>
      right
      have point : c = '.' := by
        have last : (name.toList.reverse.dropWhile (· != '.')).head? = some c := by rw [stem]; rfl
        have stopped := List.head?_dropWhile_not (· != '.') name.toList.reverse
        rw [last] at stopped
        simpa using stopped
      rw [stem, point] at whole
      refine ⟨front.reverse, (name.toList.reverse.takeWhile (· != '.')).reverse, ?_, fun member => ?_⟩
      · have parts := congrArg List.reverse whole
        simpa using parts.symm
      · have within := List.mem_takeWhile_imp (List.mem_reverse.mp member)
        simp at within

theorem suffix_eq_iff {name extension : String} (given : extension ≠ "") :
    suffix name = extension ↔ ∃ front rest, name.toList = front ++ '.' :: rest ∧
      extension.toList = '.' :: rest ∧ front ≠ [] ∧ rest ≠ [] ∧ '.' ∉ rest := by
  constructor
  · intro same
    rcases exists_split name with none | ⟨front, rest, parts, free⟩
    · exact absurd (same.symm.trans none) given
    · rw [suffix_of_split parts free] at same
      split at same
      · exact absurd same.symm given
      · rename_i inner
        obtain ⟨behind, before⟩ := not_or.mp inner
        refine ⟨front, rest, parts, ?_, before, behind, free⟩
        rw [← same, String.toList_ofList]
  · rintro ⟨front, rest, parts, ends, before, behind, free⟩
    rw [suffix_of_split parts free, if_neg (not_or.mpr ⟨behind, before⟩), ← ends,
      String.ofList_toList]

theorem suffix_ne_of_not_single {extension : String} (given : extension ≠ "")
    (other : ¬Single extension) {name : String} (free : '/' ∉ name.toList) :
    suffix name ≠ extension := by
  intro same
  obtain ⟨front, rest, parts, ends, -, behind, single⟩ := (suffix_eq_iff given).mp same
  refine other ⟨rest, ends, behind, single, fun slash => free ?_⟩
  rw [parts]
  simp [slash]

theorem suffix_iff_endsWith {name extension : String} (single : Single extension)
    (longer : name ≠ extension) :
    suffix name = extension ↔ Text.endsWith name extension = true := by
  obtain ⟨rest, ends, behind, free, -⟩ := single
  have given : extension ≠ "" := by
    rintro rfl
    cases ends
  rw [suffix_eq_iff given, Text.endsWith, List.isSuffixOf_iff_suffix, ends]
  constructor
  · rintro ⟨front, rest', parts, same, -⟩
    exact ⟨front, by rw [parts, same]⟩
  · rintro ⟨front, parts⟩
    refine ⟨front, rest, parts.symm, rfl, ?_, behind, free⟩
    rintro rfl
    exact longer (String.toList_inj.mp (parts.symm.trans ends.symm))

end FilePath

/-! ## Paths of files -/

namespace Path

open Text

def FileName (name : String) : Prop :=
  Stays name ∧ Clean name

theorem isAbsolute_joinWith {parts : List String} (names : ∀ c ∈ parts, FileName c) :
    isAbsolute (joinWith '/' parts) = false := by
  cases parts with
  | nil => rfl
  | cons first rest =>
      obtain ⟨⟨stays, clean⟩, -⟩ := List.forall_mem_cons.mp names
      have filled := mt String.toList_eq_nil_iff.mp stays.nonempty
      obtain ⟨c, cs, chars⟩ := List.exists_cons_of_ne_nil filled
      have other : c ≠ '/' := by
        rintro rfl
        exact clean.1 (by simp [chars])
      cases rest with
      | nil => simp [isAbsolute, joinWith, joinChars, chars, other]
      | cons second rest => simp [isAbsolute, joinWith, joinChars, chars, other]

theorem normalize?_joinWith {parts : List String} (nonempty : parts ≠ [])
    (names : ∀ c ∈ parts, FileName c) :
    normalize? (joinWith '/' parts) = some ("./" ++ joinWith '/' parts) := by
  have clean : ∀ c ∈ parts, Clean c := fun c member => (names c member).2
  have whole : components (joinWith '/' parts) = parts := by
    have pieces : splitAt '/' (joinWith '/' parts) = parts :=
      splitAt_joinWith nonempty fun c member => (clean c member).1
    rw [components, isAbsolute_joinWith names, pieces]
    exact collapse_of_resolved (.inl names)
  exact normalize?_of_resolved (withSlashes_joinWith clean) (isAbsolute_joinWith names) whole
    (.inl names)

theorem normalize?_of_names {parts : List String} (nonempty : parts ≠ [])
    (names : ∀ c ∈ parts, FileName c) :
    normalize? ("./" ++ joinWith '/' parts) = some ("./" ++ joinWith '/' parts) := by
  have resolved : Resolved parts := .inl names
  rw [← ofComponents_eq nonempty]
  exact normalize?_ofComponents resolved.clean nonempty resolved (collapse_of_resolved resolved)

theorem joinWith_injective {parts parts' : List String} (nonempty : parts ≠ [])
    (nonempty' : parts' ≠ []) (names : ∀ c ∈ parts, FileName c) (names' : ∀ c ∈ parts', FileName c)
    (same : joinWith '/' parts = joinWith '/' parts') : parts = parts' := by
  rw [← splitAt_joinWith nonempty fun c member => (names c member).2.1, same]
  exact splitAt_joinWith nonempty' fun c member => (names' c member).2.1

theorem endsWith_joinWith {parts : List String} (nonempty : parts ≠ []) {extension : String}
    (free : '/' ∉ extension.toList) :
    endsWith ("./" ++ joinWith '/' parts) extension =
      endsWith (parts.getLast?.getD "") extension := by
  rcases List.eq_nil_or_concat parts with rfl | ⟨front, last, rfl⟩
  · exact absurd rfl nonempty
  · rw [← ofComponents_eq nonempty, List.concat_eq_append, ofComponents_append _ (by simp),
      List.getLast?_concat, Option.getD_some, show joinWith '/' [last] = last from String.ofList_toList,
      Bool.eq_iff_iff, endsWith, endsWith, List.isSuffixOf_iff_suffix, List.isSuffixOf_iff_suffix]
    have whole : (ofComponents front ++ "/" ++ last).toList =
        (ofComponents front).toList ++ '/' :: last.toList := by
      simp
    rw [whole]
    constructor
    · intro ends
      exact suffix_of_not_mem ends free
    · intro ends
      exact ends.trans ((List.suffix_cons _ _).trans (List.suffix_append _ _))

end Path

/-! ## Files below a directory -/

namespace FileTree

structure Proper (tree : FileTree) : Prop where
  distinct : (tree.entries.map Prod.fst).Nodup
  names : ∀ entry ∈ tree.entries, ∀ name ∈ entry.1, Path.FileName name

def below (tree : FileTree) (location : Location) : List (Location × ByteArray) :=
  tree.entries.filterMap fun entry =>
    match entry.2 with
    | .file content =>
      if location.isPrefixOf entry.1 ∧ location ≠ entry.1 then
        some (entry.1.drop location.length, content)
      else none
    | .directory => none

theorem filesBelow_perm (tree : FileTree) (directory : FilePath) :
    ∃ location, (tree.filesBelow directory).Perm (tree.below location) ∨
      tree.filesBelow directory = [] := by
  unfold filesBelow
  split
  · exact ⟨[], .inr rfl⟩
  · rename_i location _
    refine ⟨location, ?_⟩
    split
    · exact .inl (Text.sortBy_perm Prod.fst (tree.below location))
    · exact .inr rfl

theorem mem_below {tree : FileTree} {location : Location} {file : Location × ByteArray}
    (member : file ∈ tree.below location) :
    file.1 ≠ [] ∧ (location ++ file.1, Entry.file file.2) ∈ tree.entries := by
  obtain ⟨⟨place, entry⟩, inside, found⟩ := List.mem_filterMap.mp member
  cases entry with
  | directory => cases found
  | file content =>
      dsimp only at found
      split at found
      · rename_i beneath
        obtain ⟨rest, rfl⟩ := List.isPrefixOf_iff_prefix.mp beneath.1
        cases found
        rw [List.drop_left]
        refine ⟨?_, inside⟩
        rintro rfl
        exact beneath.2 (List.append_nil _).symm
      · cases found

theorem below_sublist (tree : FileTree) (location : Location) :
    ((tree.below location).map fun file => location ++ file.1).Sublist
      (tree.entries.map Prod.fst) := by
  unfold below
  induction tree.entries with
  | nil => exact .refl _
  | cons entry entries ih =>
      obtain ⟨place, kind⟩ := entry
      cases kind with
      | directory => exact ih.cons place
      | file content =>
          by_cases beneath : location.isPrefixOf place ∧ location ≠ place
          · obtain ⟨rest, rfl⟩ := List.isPrefixOf_iff_prefix.mp beneath.1
            rw [List.filterMap_cons_some (by simp only [if_pos beneath]; rfl)]
            simpa using ih.cons_cons (location ++ rest)
          · rw [List.filterMap_cons_none (by simp only [if_neg beneath])]
            exact ih.cons place

variable {tree : FileTree} {directory : FilePath}

theorem Proper.names_filesBelow (proper : tree.Proper) :
    ∀ file ∈ tree.filesBelow directory, file.1 ≠ [] ∧ ∀ name ∈ file.1, Path.FileName name := by
  intro file member
  obtain ⟨location, perm | none⟩ := tree.filesBelow_perm directory
  · obtain ⟨inner, inside⟩ := mem_below (perm.mem_iff.mp member)
    exact ⟨inner, fun name own => proper.names _ inside name (List.mem_append_right _ own)⟩
  · rw [none] at member
    cases member

theorem Proper.nodup_filesBelow (proper : tree.Proper) :
    ((tree.filesBelow directory).map Prod.fst).Nodup := by
  obtain ⟨location, perm | none⟩ := tree.filesBelow_perm directory
  · apply (perm.map Prod.fst).nodup_iff.mpr
    have places := proper.distinct.sublist (tree.below_sublist location)
    rw [← Function.comp_def (location ++ ·) Prod.fst, ← List.map_map] at places
    exact .of_map _ places
  · rw [none]
    exact List.nodup_nil

def texts (tree : FileTree) (directory : FilePath) : Ledger String :=
  (tree.filesBelow directory).map fun file =>
    (joinWith '/' file.1, (decode? file.2).getD "")

end FileTree

namespace Corpus

/-! ## Reading in two ways -/

variable {settings : Settings} {tree : FileTree} {directory : FilePath}

/-- The two tests of a file for an extension agree. -/
def Agrees (extension : String) (names : Location) : Prop :=
  FilePath.suffix (names.getLast?.getD "") = extension ↔
    Text.endsWith ("./" ++ joinWith '/' names) extension = true

def wanted (settings : Settings) (path : String) : Bool :=
  Text.endsWith path settings.shaderExtension || Text.endsWith path settings.codeExtension

theorem agrees_of_single {extension : String} (single : FilePath.Single extension)
    {names : Location} (nonempty : names ≠ []) (longer : names.getLast?.getD "" ≠ extension) :
    Agrees extension names := by
  have free : '/' ∉ extension.toList := by
    obtain ⟨rest, ends, -, -, free⟩ := single
    rw [ends]
    simpa using free
  rw [Agrees, Path.endsWith_joinWith nonempty free]
  exact FilePath.suffix_iff_endsWith single longer

theorem unifyBreaks_of_not_mem {chars : List Char} (unix : '\x0d' ∉ chars) :
    unifyBreaks chars = chars := by
  induction chars with
  | nil => rfl
  | cons c rest ih =>
      obtain ⟨other, unix⟩ := not_or.mp (mt List.mem_cons.mpr unix)
      rw [unifyBreaks, ih unix]
      · rintro next rfl
        exact absurd rfl other
      · rintro rfl
        exact other rfl

theorem readText_eq {path text : String} {content : ByteArray}
    (decoded : FileTree.decode? content = some text) (unix : '\x0d' ∉ text.toList) :
    readText path content = .ok text := by
  rw [readText, decoded]
  simp [unifyBreaks_of_not_mem unix]

theorem normalizeSources_eq {sources : Ledger String} {path : String → String}
    (normal : ∀ source ∈ sources, Path.normalize? source.1 = some (path source.1))
    (distinct : (sources.map fun source => path source.1).Nodup) :
    normalizeSources sources = .ok (sources.map fun source => (path source.1, source.2)) := by
  let renamed (done : Ledger String) : Ledger String := done.map fun source => (path source.1, source.2)
  have names (done : Ledger String) :
      (renamed done).names = done.map fun source => path source.1 := by
    simp [renamed, Ledger.names]
  have step : ∀ done source todo before, sources = done ++ source :: todo → before = renamed done →
      ∃ after, (do return Ledger.put before (← normalize source.1) source.2) = Except.ok after ∧
        after = renamed (done ++ [source]) := by
    rintro done source todo _ parts rfl
    have found := normalize_eq_ok.mpr (normal source (by simp [parts]))
    refine ⟨_, bind_eq_ok_iff.mpr ⟨_, found, rfl⟩, ?_⟩
    rw [put_of_not_mem]
    · simp [renamed]
    · rw [names]
      rw [parts, List.map_append, List.map_cons] at distinct
      exact fun old => (List.nodup_append.mp distinct).2.2 _ old _ List.mem_cons_self rfl
  obtain ⟨after, run, rfl⟩ :=
    foldlM_total (fun done (after : Ledger String) => after = renamed done) step rfl
  exact run

theorem addSources_filter (entries : Ledger String) (corpus : Corpus) :
    (entries.filter fun entry => wanted settings entry.1).foldlM
        (fun corpus source => addSource settings corpus source.1 source.2) corpus =
      entries.foldlM (fun corpus source => addSource settings corpus source.1 source.2) corpus := by
  induction entries generalizing corpus with
  | nil => rfl
  | cons entry entries ih =>
      by_cases use : wanted settings entry.1 = true
      · rw [List.filter_cons, if_pos use, List.foldlM_cons, List.foldlM_cons]
        congr 1
        funext next
        exact ih next
      · rw [List.filter_cons, if_neg use, ih, List.foldlM_cons]
        simp only [wanted, Bool.or_eq_true, not_or] at use
        rw [addSource, if_neg use.1, if_neg use.2, pure_bind]

theorem ingest_eq {sources normal : Ledger String} (run : normalizeSources sources = .ok normal) :
    ingest settings sources = (Text.sortBy Prod.fst normal).foldlM
      (fun corpus source => addSource settings corpus source.1 source.2) {} := by
  unfold ingest
  rw [run]
  rfl

def rooted (sources : Ledger String) : Ledger String :=
  sources.map fun source => ("./" ++ source.1, source.2)

def Plain (tree : FileTree) (directory : FilePath) : Prop :=
  ∀ file ∈ tree.filesBelow directory, ∃ text,
    FileTree.decode? file.2 = some text ∧ '\x0d' ∉ text.toList

def withFile (settings : Settings) (sources : Ledger String) (file : Location × ByteArray) :
    Except Fault (Ledger String) := do
  let suffix := FilePath.suffix (file.1.getLast?.getD "")
  if suffix = settings.codeExtension ∨ suffix = settings.shaderExtension then
    let path ← normalize (joinWith '/' file.1)
    let text ← readText path file.2
    return sources.put path text
  else return sources

theorem withFile_eq {file : Location × ByteArray} (nonempty : file.1 ≠ [])
    (names : ∀ name ∈ file.1, Path.FileName name) {text : String}
    (decoded : FileTree.decode? file.2 = some text) (unix : '\x0d' ∉ text.toList)
    (agrees : Agrees settings.codeExtension file.1 ∧ Agrees settings.shaderExtension file.1)
    {sources : Ledger String} (fresh : "./" ++ joinWith '/' file.1 ∉ sources.names) :
    withFile settings sources file = .ok (sources ++
      if wanted settings ("./" ++ joinWith '/' file.1) then [("./" ++ joinWith '/' file.1, text)]
      else []) := by
  have same : (FilePath.suffix (file.1.getLast?.getD "") = settings.codeExtension ∨
      FilePath.suffix (file.1.getLast?.getD "") = settings.shaderExtension) ↔
        wanted settings ("./" ++ joinWith '/' file.1) = true := by
    obtain ⟨code, shader⟩ := agrees
    unfold Agrees at code shader
    rw [code, shader, wanted, Bool.or_eq_true, or_comm]
  unfold withFile
  dsimp only
  by_cases use : wanted settings ("./" ++ joinWith '/' file.1) = true
  · rw [if_pos (same.mpr use), if_pos use,
      normalize_eq_ok.mpr (Path.normalize?_joinWith nonempty names), ← put_of_not_mem fresh]
    change (readText _ file.2 >>= fun text => _) = _
    rw [readText_eq decoded unix]
    rfl
  · rw [if_neg (mt same.mp use), if_neg use, List.append_nil]
    rfl

theorem nodup_rooted_texts (proper : tree.Proper) :
    (rooted (tree.texts directory)).names.Nodup := by
  have names := @FileTree.Proper.names_filesBelow tree directory proper
  have paths : (rooted (tree.texts directory)).names =
      ((tree.filesBelow directory).map Prod.fst).map fun place => "./" ++ joinWith '/' place := by
    simp [rooted, FileTree.texts, Ledger.names]
  rw [paths]
  apply List.Nodup.map_on _ proper.nodup_filesBelow
  intro place inside place' inside' same
  obtain ⟨file, member, rfl⟩ := List.mem_map.mp inside
  obtain ⟨file', member', rfl⟩ := List.mem_map.mp inside'
  obtain ⟨nonempty, own⟩ := names file member
  obtain ⟨nonempty', own'⟩ := names file' member'
  exact Path.joinWith_injective nonempty nonempty' own own' ((String.append_right_inj "./").mp same)

theorem readSources_eq (proper : tree.Proper) (plain : Plain tree directory)
    (agrees : ∀ file ∈ tree.filesBelow directory,
      Agrees settings.codeExtension file.1 ∧ Agrees settings.shaderExtension file.1) :
    readSources tree directory settings =
      .ok ((rooted (tree.texts directory)).filter fun entry => wanted settings entry.1) := by
  let all (files : List (Location × ByteArray)) : Ledger String :=
    rooted (files.map fun file => (joinWith '/' file.1, (FileTree.decode? file.2).getD ""))
  let found (done : List (Location × ByteArray)) : Ledger String :=
    (all done).filter fun entry => wanted settings entry.1
  have distinct : (all (tree.filesBelow directory)).names.Nodup := nodup_rooted_texts proper
  have step : ∀ done file todo sources, tree.filesBelow directory = done ++ file :: todo →
      sources = found done → ∃ after, withFile settings sources file = .ok after ∧
        after = found (done ++ [file]) := by
    rintro done file todo _ parts rfl
    have member : file ∈ tree.filesBelow directory := by simp [parts]
    obtain ⟨text, decoded, unix⟩ := plain file member
    obtain ⟨nonempty, own⟩ := proper.names_filesBelow file member
    have fresh : "./" ++ joinWith '/' file.1 ∉ (found done).names := by
      intro old
      have early : "./" ++ joinWith '/' file.1 ∈ (all done).names :=
        (List.filter_sublist.map Prod.fst).subset old
      have whole : (all (tree.filesBelow directory)).names =
          (all done).names ++ ("./" ++ joinWith '/' file.1) :: (all todo).names := by
        simp [all, rooted, Ledger.names, parts]
      rw [whole] at distinct
      exact (List.nodup_append.mp distinct).2.2 _ early _ List.mem_cons_self rfl
    refine ⟨_, withFile_eq nonempty own decoded unix (agrees file member) fresh, ?_⟩
    simp [found, all, rooted, decoded, List.filter_cons]
  obtain ⟨sources, run, rfl⟩ :=
    foldlM_total (fun done (sources : Ledger String) => sources = found done) step rfl
  exact run

/-- The corpus of a directory is the one of the texts of all files below it, in whatever order they
are listed. -/
theorem ingest_readSources (proper : tree.Proper) (plain : Plain tree directory)
    (agrees : ∀ file ∈ tree.filesBelow directory,
      Agrees settings.codeExtension file.1 ∧ Agrees settings.shaderExtension file.1)
    {listing : Ledger String} (perm : listing.Perm (tree.texts directory)) :
    ∃ sources, readSources tree directory settings = .ok sources ∧
      ingest settings sources = ingest settings listing := by
  let sources := (rooted (tree.texts directory)).filter fun entry => wanted settings entry.1
  have paths : ∀ source ∈ tree.texts directory, ∃ parts, parts ≠ [] ∧
      (∀ c ∈ parts, Path.FileName c) ∧ source.1 = joinWith '/' parts := by
    intro source member
    obtain ⟨file, inside, rfl⟩ := List.mem_map.mp member
    obtain ⟨nonempty, own⟩ := proper.names_filesBelow file inside
    exact ⟨file.1, nonempty, own, rfl⟩
  have distinct : (rooted (tree.texts directory)).names.Nodup := nodup_rooted_texts proper
  have perm' : (rooted listing).Perm (rooted (tree.texts directory)) := perm.map _
  have kept : normalizeSources sources = .ok sources := by
    have stays : ∀ source ∈ sources, Path.normalize? source.1 = some (id source.1) := by
      intro source member
      obtain ⟨text, inside, rfl⟩ := List.mem_map.mp (List.mem_filter.mp member).1
      obtain ⟨parts, nonempty, own, path⟩ := paths text inside
      dsimp only [id_eq]
      rw [path]
      exact Path.normalize?_of_names nonempty own
    have fewer : (sources.map fun source => id source.1).Nodup :=
      distinct.sublist (List.filter_sublist.map Prod.fst)
    rw [normalizeSources_eq stays fewer]
    exact congrArg _ (List.map_id sources)
  have moved : normalizeSources listing = .ok (rooted listing) := by
    have moves : ∀ source ∈ listing, Path.normalize? source.1 = some ("./" ++ source.1) := by
      intro source member
      obtain ⟨parts, nonempty, own, path⟩ := paths source (perm.mem_iff.mp member)
      rw [path]
      exact Path.normalize?_joinWith nonempty own
    have different : (listing.map fun source => "./" ++ source.1).Nodup := by
      have names : (rooted listing).names.Nodup := (perm'.map Prod.fst).nodup_iff.mpr distinct
      rwa [rooted, Ledger.names, List.map_map] at names
    exact normalizeSources_eq moves different
  refine ⟨sources, readSources_eq proper plain agrees, ?_⟩
  rw [ingest_eq kept, ingest_eq moved, Text.sortBy_filter distinct, addSources_filter,
    Text.sortBy_of_perm distinct perm']

-- from a directory no script with two points in its extension is read
example : (readSources
    { entries := [(["in"], .directory), (["in", "a.min.js"], .file "THREE.A = 1;".toUTF8)] }
    { parts := ["in"] } { codeExtension := ".min.js" }).toOption = some [] := by
  decide +kernel

end Corpus

end ScriptModules
