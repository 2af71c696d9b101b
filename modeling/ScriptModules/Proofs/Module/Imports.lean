import ScriptModules.Proofs.Dependency.Resolution
import ScriptModules.Proofs.Module.Redirection
import ScriptModules.Proofs.Module.Snippet
import ScriptModules.Proofs.Settings.Validation
import ScriptModules.Proofs.Text.Fresh

namespace ScriptModules

open ScriptModules.Tree
open Text.Quoted (quote)

/-! ## Names of variables -/

namespace Text

theorem isPlain_toIdentifier (text : String) : ∃ c cs, (toIdentifier text).toList = c :: cs ∧
    c.isDigit = false ∧ ∀ d ∈ (toIdentifier text).toList, isPlain d = true := by
  have plain : ∀ d ∈ plainChars text.toList, isPlain d = true := by
    intro d member
    unfold plainChars at member
    split at member
    · rw [List.mem_singleton.mp member]
      decide
    · rename_i parts
      rw [← parts] at member
      obtain ⟨c, -, rfl⟩ := List.mem_map.mp member
      split
      · assumption
      · decide
  obtain ⟨c, cs, parts⟩ : ∃ c cs, plainChars text.toList = c :: cs := by
    unfold plainChars
    split
    · exact ⟨_, _, rfl⟩
    · exact ⟨_, _, rfl⟩
  unfold toIdentifier
  dsimp only
  rw [parts] at plain ⊢
  split
  · refine ⟨'_', c :: cs, by simp, by decide, ?_⟩
    intro d member
    rw [String.toList_append, String.toList_ofList] at member
    rcases List.mem_append.mp member with first | rest
    · rw [List.mem_singleton.mp first]
      decide
    · exact plain d (by simpa using rest)
  · rename_i fits
    refine ⟨c, cs, by simp, ?_, by simpa using plain⟩
    rw [Bool.eq_false_iff]
    intro digit
    exact fits (by simp [digit])

theorem isWord_toIdentifier (text : String) : IsWord (toIdentifier text) := by
  obtain ⟨c, cs, parts, digit, plain⟩ := isPlain_toIdentifier text
  exact isWord_of_plain parts (parts ▸ plain) digit

theorem isWord_module (text : String) : IsWord (toIdentifier text ++ "Module") := by
  obtain ⟨c, cs, parts, digit, plain⟩ := isPlain_toIdentifier text
  have parts' : (toIdentifier text ++ "Module").toList = c :: (cs ++ "Module".toList) := by
    simp [parts]
  refine isWord_of_plain parts' ?_ digit
  intro d member
  rw [String.toList_append] at member
  rcases List.mem_append.mp member with first | rest
  · exact plain d first
  · exact (by decide : ∀ d ∈ "Module".toList, isPlain d = true) d rest

theorem isWord_getModule (text : String) : IsWord ("get" ++ toIdentifier text ++ "Module") := by
  obtain ⟨c, cs, parts, digit, plain⟩ := isPlain_toIdentifier text
  have parts' : ("get" ++ toIdentifier text ++ "Module").toList =
      'g' :: (['e', 't'] ++ (c :: cs) ++ "Module".toList) := by
    simp [parts]
  refine isWord_of_plain parts' ?_ (by decide)
  intro d member
  rw [String.toList_append, String.toList_append] at member
  rcases List.mem_append.mp member with first | rest
  · rcases List.mem_append.mp first with first | rest
    · exact (by decide : ∀ d ∈ "get".toList, isPlain d = true) d first
    · exact plain d rest
  · exact (by decide : ∀ d ∈ "Module".toList, isPlain d = true) d rest

end Text

theorem isWord_fresh_rootAlias {settings : Settings} (accepted : settings.Accepted)
    {taken : List String} {text : String} {tail : List Char} {node : Node}
    (same : text.toList =
      "var ".toList ++ ((Text.fresh taken settings.rootAlias).toList ++ tail))
    (parsed : Node.parse? text = some node) : IsWord (Text.fresh taken settings.rootAlias) := by
  obtain ⟨c, cs, parts, digit, lettered⟩ := accepted.rootAlias
  obtain ⟨count, fresh⟩ := Text.fresh_underscored taken settings.rootAlias
  have chars := Text.toList_underscored count settings.rootAlias
  rw [fresh] at same ⊢
  have lettered : ∀ d ∈ (Text.underscored count settings.rootAlias).toList, IsLettered d := by
    rw [chars]
    intro d member
    rcases List.mem_append.mp member with first | rest
    · rw [List.eq_of_mem_replicate first]
      exact .inr (.inl rfl)
    · exact lettered d rest
  cases count with
  | zero => exact isWord_of_declaration parts digit lettered same parsed
  | succ count =>
      rw [List.replicate_succ, List.cons_append] at chars
      exact isWord_of_declaration chars (by decide) lettered same parsed

/-! ## Required files -/

structure Import.Fits (around : Surroundings) (source : String) (required : Import) : Prop where
  converted : ∃ script, Draft.converted around required.path = .ok script
  specifier : ∃ specifier,
    Path.specifier? source required.path around.settings.codeExtension = some specifier ∧
      required.specifier = quote specifier
  deferred : required.isDeferred =
    Dependency.reaches around.index around.scripts required.path source

namespace Draft

theorem ends_nameImport {around : Surroundings} {path : String} {names : List String}
    {before after : Draft} {required : Import}
    (ends : Ends (nameImport around path names) before required after) :
    required.path = path ∧ required.names = names ∧
      required.Fits around before.script.path ∧
      (∃ wanted, required.binding = Text.fresh before.script.names wanted ∧
        (wanted = around.settings.rootAlias ∨ IsWord wanted)) ∧
      (∀ getter ∈ required.getter, IsName getter) ∧
      Text.Unused before.script.names required.locals ∧
      after = { before with script := { before.script with
        names := before.script.names ++ required.locals } } := by
  simp only [nameImport, Ends.bind_iff, Ends.get_iff, Ends.liftM_iff, ends_reserve] at ends
  obtain ⟨_, _, ⟨rfl, rfl⟩, script, _, ⟨found, rfl⟩, quoted, before, ⟨specified, rfl⟩, binding,
    between, ⟨bound, rfl⟩, ends⟩ := ends
  have specifier : ∃ specifier, Path.specifier? before.script.path path
      around.settings.codeExtension = some specifier ∧ quoted = quote specifier := by
    unfold quotedSpecifier at specified
    split at specified
    · rename_i specifier found
      cases specified
      exact ⟨specifier, found, rfl⟩
    · cases specified
  have named : ∃ wanted, binding = Text.fresh before.script.names wanted ∧
      (wanted = around.settings.rootAlias ∨ IsWord wanted) := by
    refine ⟨_, bound, ?_⟩
    split
    · exact .inl rfl
    · exact .inr (Text.isWord_module script.stem)
  have unbound : Text.Unused before.script.names [binding] := bound ▸ .fresh _ _
  split at ends
  · rename_i cyclic
    simp only [Ends.bind_iff, ends_reserve, Ends.pure_iff] at ends
    obtain ⟨getter, _, ⟨free, rfl⟩, rfl, rfl⟩ := ends
    have unused : Text.Unused (before.script.names ++ [binding]) [getter] := free ▸ .fresh _ _
    refine ⟨rfl, rfl, ⟨⟨script, found⟩, specifier, cyclic.symm⟩, named, ?_, unbound.append unused,
      ?_⟩
    · rintro other ⟨⟩
      rw [free]
      exact Text.isName_fresh (Text.isWord_getModule script.stem) _
    · simp [Import.locals]
  · rename_i acyclic
    obtain ⟨rfl, rfl⟩ := (Ends.pure_iff _ _ _ _).mp ends
    exact ⟨rfl, rfl, ⟨⟨script, found⟩, specifier, (eq_false_of_ne_true acyclic).symm⟩, named,
      by simp, unbound, rfl⟩

end Draft

theorem Import.clean_base {globalName : String} {required : Import}
    (other : globalName ∉ required.locals) :
    Draft.Clean globalName (required.base.form.name?.toList ++ required.base.names) := by
  intro name member
  refine .inr ?_
  rintro rfl
  refine other ?_
  unfold Import.base at member
  unfold Import.locals
  split at member
  · rename_i getter given
    have cases : name = required.binding ∨ name = getter := by
      simpa [Node.of, Node.invocation, Node.identifier, Node.names, Node.namesFrom, Form.isKeyAt,
        Form.name?] using member
    simpa [given] using cases
  · have same : name = required.binding := by
      simpa [Node.identifier, Node.of, Node.names, Node.namesFrom, Form.name?] using member
    simp [same]

structure Imported (around : Surroundings) (start : Script) (tree : Node)
    (written : Import × Node) : Prop where
  fits : written.1.Fits around start.path
  declared : written.2 = written.1.tree
  fresh : ∀ name ∈ written.1.locals, name ∉ start.names
  sites : ∀ name ∈ written.1.names, ∀ site ∈ start.recorded name,
    ReadsFrom tree site name written.1.base

namespace Draft

theorem sitesOf_eq_recorded {script : Script} {name : String}
    (apart : name ∉ script.provides.names) : sitesOf script name = script.recorded name := by
  rw [sitesOf, Script.recorded, (Ledger.get?_eq_none_iff _ _).mpr apart]

theorem ends_redirect {settings : Settings} {start : Script} (ready : start.Ready settings)
    {required : Import} (reference : Template.expression required.reference [] = .ok required.base)
    {globalName : String} (other : globalName ∉ required.locals) {names done : List String}
    (fresh : ∀ name ∈ names, name ∉ done ∧ name ∉ start.provides.names) {before after : Draft}
    (progress : Progress globalName start done before)
    (ends : Ends (names.forM fun name => replaceBases (sitesOf start name) required.reference)
      before ⟨⟩ after) :
    Progress globalName start (done ++ names) after ∧
      after.script.names = before.script.names ∧
      (∀ name ∈ names, ∀ site ∈ start.recorded name,
        ReadsFrom after.script.tree site name required.base) ∧
      ∀ name, name ∉ names → ∀ site ∈ start.recorded name,
        after.script.tree.at? site = before.script.tree.at? site := by
  refine Ends.forM_invariant (fun behind after => Progress globalName start (done ++ behind) after ∧
    after.script.names = before.script.names ∧
    (∀ name ∈ behind, ∀ site ∈ start.recorded name,
      ReadsFrom after.script.tree site name required.base) ∧
    ∀ name, name ∉ behind → ∀ site ∈ start.recorded name,
      after.script.tree.at? site = before.script.tree.at? site) ?_ ends
    ⟨by simpa using progress, rfl, by simp, fun _ _ _ _ => rfl⟩
  rintro behind name todo between after parts ⟨progress, same, reads, stays⟩ ends
  have known : name ∈ names := by
    rw [parts]
    simp
  obtain ⟨base, read, rfl⟩ := ends_replaceBases.mp ends
  rw [reference] at read
  cases read
  have access : ∀ site ∈ start.recorded name,
      ∃ base, AccessAt between.script.tree site name base := by
    intro site member
    by_cases again : name ∈ behind
    · obtain ⟨base, -, access, -⟩ := reads name again site member
      exact ⟨base, access⟩
    · obtain ⟨base, access, -⟩ := ready.marked member
      refine ⟨base, access.of_at? (progress.rest name ?_ site member)⟩
      exact mt List.mem_append.mp (not_or.mpr ⟨(fresh name known).1, again⟩)
  obtain ⟨changes, new⟩ := setBases_changes (ready.separate_own name) access
  obtain ⟨progress, others⟩ := progress.change ready changes (Import.clean_base other)
  rw [sitesOf_eq_recorded (fresh name known).2]
  refine ⟨by simpa using progress, same, ?_, ?_⟩
  · intro one member site place
    by_cases own : one = name
    · subst own
      exact new site place
    · have behind := (List.mem_append.mp member).resolve_right (mt List.mem_singleton.mp own)
      exact (reads one behind site place).of_at? (others one own site place)
  · intro one outside site place
    obtain ⟨outside, distinct⟩ := not_or.mp (mt List.mem_append.mpr outside)
    exact (others one (mt List.mem_singleton.mpr distinct) site place).trans
      (stays one outside site place)

theorem isName_binding {settings : Settings} (accepted : settings.Accepted) {required : Import}
    {taken : List String} {wanted : String}
    (bound : required.binding = Text.fresh taken wanted)
    (origin : wanted = settings.rootAlias ∨ IsWord wanted) {node : Node}
    (made : Template.statement required.declaration [] = .ok node) : IsName required.binding := by
  rcases origin with rfl | word
  · obtain ⟨tail, text⟩ : ∃ tail, required.declaration.toList =
        "var ".toList ++ (required.binding.toList ++ tail) := by
      unfold Import.declaration
      dsimp only
      split
      · exact ⟨_, by simp only [String.toList_append, List.append_assoc]; rfl⟩
      · exact ⟨_, by simp only [String.toList_append, List.append_assoc]; rfl⟩
    unfold Template.statement at made
    split at made
    · cases made
    · rename_i program parsed
      rw [bound] at text ⊢
      exact Text.isName_of_isWord_fresh (isWord_fresh_rootAlias accepted text parsed)
  · rw [bound]
    exact Text.isName_fresh word taken

structure Named (around : Surroundings) (start : Script) (before : Draft) (required : Import)
    (declaration : Node) (after : Draft) : Prop where
  fits : required.Fits around start.path
  declared : declaration = required.tree
  reference : Template.expression required.reference [] = .ok required.base
  other : around.settings.globalName ∉ required.locals
  unused : Text.Unused before.script.names required.locals
  drafted : after = { before with
    script := { before.script with names := before.script.names ++ required.locals } }
  sites : sitesOf after.script = sitesOf start

theorem ends_named {around : Surroundings} (accepted : around.settings.Accepted)
    {start : Script} (ready : start.Ready around.settings) {path : String}
    {names done : List String} (filled : names ≠ [])
    (fresh : ∀ name ∈ names, name ∉ done ∧ name ∈ start.requires.names) {before named : Draft}
    (progress : Progress around.settings.globalName start done before) {required : Import}
    (naming : Ends (nameImport around path names) before required named) {declaration : Node}
    (made : Template.statement required.declaration [] = .ok declaration) :
    Named around start before required declaration named := by
  obtain ⟨rfl, rfl, fits, ⟨wanted, bound, origin⟩, getters, unused, rfl⟩ := ends_nameImport naming
  have binding : IsName required.binding := isName_binding accepted bound origin made
  obtain ⟨specifier, -, quoted⟩ := fits.specifier
  obtain ⟨name, member⟩ := List.exists_mem_of_ne_nil _ filled
  have global : around.settings.globalName ∈ start.names :=
    (ready.words ready.other name (.inr (fresh name member).2)).2
  have path : before.script.path = start.path := by
    rw [progress.same]
  refine ⟨path ▸ fits, ?_, Import.expression_reference binding getters,
    fun taken => (unused.free _ taken).1 (progress.grown _ global), unused, rfl, ?_⟩
  · have same := Import.statement_declaration binding getters quoted
    rw [made] at same
    exact Except.ok.inj same
  · rw [progress.same]
    rfl

theorem ends_require {around : Surroundings} (accepted : around.settings.Accepted)
    {start : Script} (ready : start.Ready around.settings) {path : String}
    {names done : List String} (filled : names ≠ [])
    (fresh : ∀ name ∈ names, name ∉ done ∧ name ∈ start.requires.names) {before after : Draft}
    (progress : Progress around.settings.globalName start done before) {written : Import × Node}
    (ends : Ends (require around path names) before written after) :
    written.1.path = path ∧ written.1.names = names ∧
      Imported around start after.script.tree written ∧
      Progress around.settings.globalName start (done ++ names) after ∧
      Declares before after [written.2] ∧
      ∀ name, name ∉ names → ∀ site ∈ start.recorded name,
        after.script.tree.at? site = before.script.tree.at? site := by
  simp only [require, statement, Ends.bind_iff, Ends.get_iff, Ends.liftM_iff, Ends.modify_iff,
    Ends.pure_iff] at ends
  obtain ⟨required, named, naming, declaration, _, ⟨made, rfl⟩, _, _, ⟨rfl, rfl⟩, _, redirected,
    redirect, _, _, rfl, rfl, rfl⟩ := ends
  have known := ends_named accepted ready filled fresh progress naming made
  obtain ⟨rfl, rfl, -⟩ := ends_nameImport naming
  rw [known.sites] at redirect
  obtain rfl := known.drafted
  obtain ⟨progress', names, reads, stays⟩ := ends_redirect ready known.reference known.other
    (fun name member => ⟨(fresh name member).1, ready.apart name (fresh name member).2⟩)
    (progress.reserve required.locals) redirect
  have declares : Node.declaresAll [declaration] = required.locals := by
    rw [known.declared, Node.declaresAll_cons, Node.declaresAll_nil, List.append_nil,
      required.declares_tree]
  refine ⟨rfl, rfl, ⟨known.fits, known.declared, ?_, reads⟩, ?_, ⟨?_, ?_⟩, stays⟩
  · exact fun name member taken => (known.unused.free name member).1 (progress.grown name taken)
  · exact { progress' with }
  · rw [declares]
    exact names
  · rw [declares]
    exact known.unused

end Draft

structure Imports (around : Surroundings) (start : Script) (files : Ledger (List String))
    (imports : List (Import × Node)) (tree : Node) : Prop where
  files : (imports.map fun written => (written.1.path, written.1.names)) = files
  imported : ∀ written ∈ imports, Imported around start tree written

namespace Draft

theorem ends_requires {around : Surroundings} (accepted : around.settings.Accepted)
    {start : Script} (ready : start.Ready around.settings) {files : Ledger (List String)}
    (groups : Dependency.Groups around.index start.requires.names files)
    {first : Ledger (List String)} (ahead : first <+: files) {imports : List (Import × Node)}
    {after : Draft} (ends : Ends (first.mapM fun entry => require around entry.1 entry.2)
      { script := start } imports after) :
    Imports around start first imports after.script.tree ∧
      Progress around.settings.globalName start (first.flatMap Prod.snd) after ∧
      Declares { script := start } after (imports.map Prod.snd) := by
  obtain ⟨last, whole⟩ := ahead
  refine Ends.mapM_invariant (fun done imports after =>
    Imports around start done imports after.script.tree ∧
      Progress around.settings.globalName start (done.flatMap Prod.snd) after ∧
      Declares { script := start } after (imports.map Prod.snd)) ?_ ends
    ⟨⟨rfl, by simp⟩, .start (ready.free ready.other), .nil _⟩
  rintro done ⟨path, names⟩ todo imports before written after parts ⟨known, progress, declares⟩ ends
  have entry : (path, names) ∈ files := by
    rw [← whole, parts]
    simp
  have fresh : ∀ name ∈ names, name ∉ done.flatMap Prod.snd ∧ name ∈ start.requires.names :=
    fun name member => ⟨groups.not_behind (by rw [← whole, parts, List.append_assoc]; rfl) member,
      groups.within path names entry name member⟩
  obtain ⟨rfl, rfl, imported, progress, declares', stays⟩ :=
    ends_require accepted ready (groups.filled path names entry) fresh progress ends
  refine ⟨⟨?_, ?_⟩, by simpa using progress, by simpa using declares.append declares'⟩
  · rw [List.map_append, known.files]
    rfl
  · intro other member
    rcases List.mem_append.mp member with behind | last
    · have old := known.imported other behind
      refine { old with sites := fun name own site place => ?_ }
      refine (old.sites name own site place).of_at? (stays name (fun again => ?_) site place)
      refine (fresh name again).1 (List.mem_flatMap.mpr ⟨(other.1.path, other.1.names), ?_, own⟩)
      rw [← known.files]
      exact List.mem_map_of_mem behind
    · rw [List.mem_singleton.mp last]
      exact imported

theorem ends_requireAll {around : Surroundings} (accepted : around.settings.Accepted)
    {start : Script} (ready : start.Ready around.settings) {imports : List (Import × Node)}
    {after : Draft} (ends : Ends (requireAll around) { script := start } imports after) :
    ∃ files, Dependency.Groups around.index start.requires.names files ∧
      Imports around start files imports after.script.tree ∧
      Progress around.settings.globalName start (files.flatMap Prod.snd) after ∧
      Declares { script := start } after (imports.map Prod.snd) := by
  simp only [requireAll, Ends.bind_iff, Ends.get_iff, Ends.liftM_iff] at ends
  obtain ⟨_, _, ⟨rfl, rfl⟩, files, _, ⟨run, rfl⟩, ends⟩ := ends
  have groups := Dependency.requiredFiles_groups run
  exact ⟨files, groups, ends_requires accepted ready groups (List.prefix_refl files) ends⟩

end Draft

end ScriptModules
