import ScriptModules.Proofs.Conversion.Grammar
import ScriptModules.Proofs.Module.Comments

namespace ScriptModules

open ScriptModules.Tree
open Node (Carried remarks)

variable {settings : Settings} {sources : Ledger String}

/-! ## The script of a file -/

theorem Chunks.carried_fill (frame : Frame) (properties : List Node) {more : List Node}
    (plain : ∀ node ∈ more, node.bare = node) :
    Carried (holdsOn settings) (holdsOn settings) (frame.fill properties)
      (frame.fill (properties ++ more)) := by
  have here : (frame.fill properties).at? tablePosition =
      some (.mk .object frame.tableComments properties) := rfl
  have grown : Carried (holdsOn settings) (holdsOn settings)
      (.mk .object frame.tableComments properties)
      (append more (.mk .object frame.tableComments properties)) :=
    .grow (fun _ _ => by simp [holdsOn, TypeCheck.ofNode?, Access.isAccess]) plain
  exact (@carried_modifyAt settings _ _ (append more) _ here ⟨rfl, rfl⟩ grown).2

theorem Script.carried_withChunks (script : Script) (chunks : Ledger String) :
    Carried (holdsOn settings) (holdsOn settings) script.tree
        (script.withChunks settings chunks).tree ∧
      (script.withChunks settings chunks).tree.comments = script.tree.comments := by
  unfold withChunks
  split
  · rename_i table
    obtain ⟨frame, properties, whole⟩ := (Chunks.holdsTable_iff_fill _).mp table.2.2
    rw [whole, Chunks.addAll_fill]
    refine ⟨Chunks.carried_fill frame properties fun node member => ?_, rfl⟩
    obtain ⟨chunk, -, rfl⟩ := List.mem_map.mp member
    rfl
  · exact ⟨.refl _, rfl⟩

theorem Script.Merged.carried {read : Script} (merged : read.Merged settings sources) :
    ∃ parsed, Corpus.Parses sources read.path parsed ∧
      Carried (holdsOn settings) (holdsOn settings) parsed read.tree ∧ read.tree.comments = [] := by
  obtain ⟨source, chunks, parses, rfl⟩ := merged.exists_read
  obtain ⟨carried, same⟩ := @Script.carried_withChunks settings source chunks
  refine ⟨source.tree, parses, carried, same.trans ?_⟩
  obtain ⟨_, _, _, _, parsed⟩ := parses
  rw [parse?_eq_program parsed]
  rfl

theorem TypeCheck.bare_helpers {script checked : Script} {events : List Event}
    (sound : script.tree.Sound) (taken : ∀ name ∈ script.tree.names, name ∈ script.names)
    (inner : script.tree.form ≠ .binary "instanceof") (fresh : script.helpers = [])
    (run : replace settings script = .ok (checked, events)) :
    ∀ helper ∈ checked.helpers, helper.bare = helper := by
  obtain ⟨recasts, -⟩ := replace_follows sound taken inner run
  rw [recasts.helpers, fresh]
  intro helper member
  simp only [List.nil_append, List.mem_append] at member
  rcases member with tag | inst
  · split at tag
    · rw [List.mem_singleton.mp tag]
      rfl
    · cases tag
  · split at inst
    · rw [List.mem_singleton.mp inst]
      rfl
    · cases inst

/-! ## The module of a file -/

theorem Access.Redirected.comments {globalName : String} {old new : Node}
    (redirected : Access.Redirected globalName old new) (program : old.form = .program) :
    new.comments = old.comments := by
  cases redirected with
  | object => cases program
  | whole => cases program
  | other => rfl

theorem Draft.remarks_write {around : Surroundings} (accepted : around.settings.Accepted)
    {checked start : Script} {written : Module} {draft : Draft}
    (surveyed : start.Surveyed around.settings sources) (other : start.isRoot = false)
    (unread : Access.Unread checked) (unmarked : checked.isRoot = false)
    (program : checked.tree.form = .program) (uncommented : checked.tree.comments = [])
    (helpers : ∀ helper ∈ checked.helpers, helper.bare = helper)
    (classified : Access.classify around.settings checked = .ok (start, none))
    (write : Ends (Draft.write around) { script := start } written draft) : ∃ tree,
      Access.Redirected around.settings.globalName checked.tree tree ∧
        remarks (fun _ _ => true) true written.program = remarks (fun _ _ => true) true tree := by
  have ready : start.Ready around.settings :=
    { surveyed.toAnalysed with
      other
      program := surveyed.program }
  have made := ends_write accepted ready write
  obtain ⟨provides, marked⟩ := Access.classify_classified unread unmarked classified
  have met (name : String) :
      Access.Met around.settings.globalName checked.tree (start.recorded name) := by
    intro site recorded
    obtain ⟨visit, found, rfl, -⟩ := (marked.marks.recorded name site).mp recorded
    obtain ⟨visited, access⟩ := List.mem_filter.mp found
    exact ⟨visit.node, Node.at?_position_of_mem_walk visited, access⟩
  have redirected := Access.redirected_classify unread program unmarked classified
  have redirects := redirects_write ready met around _ _ _ write ⟨rfl, redirected⟩
  obtain ⟨bound, imports, declarations, -, statements⟩ := made.parts unread.sound program marked
  refine ⟨draft.script.tree, redirects.tree, Module.remarks_program made.body
    ((redirects.tree.comments program).trans uncommented) ?_ ?_ ?_ ?_⟩
  · rw [imports]
    intro node member
    obtain ⟨required, -, rfl⟩ := List.mem_map.mp member
    exact required.1.bare_tree
  · rw [made.helpers, Access.classify_same classified]
    exact helpers
  · rw [declarations]
    intro node member
    obtain ⟨entry, -, member⟩ := List.mem_flatMap.mp member
    exact (entry.2.kind.bare_exportOf entry.1 (bound entry.1)).1 node member
  · rw [statements]
    intro node member
    obtain ⟨entry, -, member⟩ := List.mem_flatMap.mp member
    exact (entry.2.kind.bare_exportOf entry.1 (bound entry.1)).2 node member

namespace Conversion

theorem Reaches.carries (accepted : settings.Accepted) {path : String} {before after : Workspace}
    {written : Module} (reaches : Reaches settings sources path before)
    (ends : Ends (Work.writeModule path) before written after) : written.path = path ∧
      ∃ parsed, Corpus.Parses sources path parsed ∧ parsed.Sound ∧
        Carries (parsed.remarks (holdsOn settings) true)
          (written.program.remarks (fun _ _ => true) true) := by
  obtain ⟨start, draft, own, surveyed, given, write⟩ := reaches.surveyed accepted ends
  subst own given
  obtain ⟨path, -, kept, body, rooted, -⟩ := write_made accepted surveyed write
  refine ⟨path, ?_⟩
  obtain ⟨read, opened, merged, becomes⟩ := surveyed.origin
  have samePath : start.path = read.path := by rw [becomes.same]
  have sameRoot : start.isRoot = read.isRoot := by rw [becomes.same]
  obtain ⟨checked, events, replaced, classified⟩ := becomes
  have inner : read.tree.form ≠ .binary "instanceof" := by
    rw [opened.program]
    decide
  obtain ⟨parsed, parses, carried, uncommented⟩ := merged.carried
  obtain ⟨carried', same⟩ :=
    TypeCheck.carried_replace opened.sound opened.taken replaced
  have unread := opened.unread_checked replaced
  have unmarked : checked.isRoot = start.isRoot := by
    rw [TypeCheck.replace_same replaced, sameRoot]
  have program : checked.tree.form = .program :=
    (TypeCheck.replace_checked opened.sound opened.taken replaced).form.trans opened.program
  have helpers := TypeCheck.bare_helpers opened.sound opened.taken inner opened.helpers replaced
  have sound : parsed.Sound := by
    obtain ⟨_, _, _, _, parse⟩ := parses
    exact parse?_sound parse
  refine ⟨parsed, samePath ▸ parses, sound, ?_⟩
  -- the file that creates the global object keeps its accesses
  cases root : start.isRoot with
  | true =>
      obtain ⟨imports, exports, drafted⟩ := rooted root
      have tree := Access.classify_root (unmarked.trans root) classified
      have plain : ∀ helper ∈ written.helpers, helper.bare = helper := by
        rw [kept, Access.classify_same classified]
        exact helpers
      rw [drafted, tree] at body
      rw [Module.remarks_program body (same.trans uncommented) (by simp [imports]) plain
        (by simp [exports]) (by simp [exports])]
      have held : Carried (holdsOn before.surroundings.settings) (fun _ _ => true) checked.tree
        checked.tree := Node.carried_self (fun _ _ _ => rfl) _
      exact (carried.trans carried').trans held true true id
  | false =>
      obtain ⟨tree, redirected, shown⟩ := Draft.remarks_write accepted surveyed root unread
        (unmarked.trans root) program (same.trans uncommented) helpers classified write
      rw [shown]
      exact (carried.trans carried').trans redirected.carried true true id

/-- The comments of a module are comments of its source, in the same order and each of them once. Those
that lead a statement are among them, at whatever depth the statement stands. -/
theorem comments_carried (accepted : settings.Accepted) {withGraph : Bool}
    {log log' : List LogLine} {report : Report}
    (ends : Ends (run settings sources withGraph) log report log') :
    ∀ written ∈ report.modules, ∃ parsed, Corpus.Parses sources written.1.path parsed ∧
      ∃ kept : List (Position × List String), kept.Nodup ∧ kept.Sublist parsed.commented ∧
        written.1.program.commented.map Prod.snd = kept.map Prod.snd ∧
        ∀ entry ∈ parsed.commented, parsed.Leads entry.1 → entry ∈ kept := by
  intro written member
  obtain ⟨final, ran, -⟩ := ends_run_iff.mp ends
  obtain ⟨first, phases⟩ := ran.phases
  obtain ⟨start, last, same, writing, -⟩ := phases.written
  obtain ⟨done, path, todo, made, before, after, parts, front, here⟩ :=
    Ends.exists_of_mem_mapM writing member
  obtain ⟨between, here, -⟩ := ends_writeFile here
  have reaches : Reaches settings sources path before :=
    ⟨first, start, done, todo, made, phases.passed, parts, same, front⟩
  obtain ⟨rfl, parsed, parses, sound, carries⟩ := reaches.carries accepted here
  rw [Node.remarks_eq] at carries
  obtain ⟨kept, sublist, all, shown⟩ := carries.exists_kept Prod.snd _
  refine ⟨parsed, parses, kept, parsed.nodup_commented.sublist sublist, sublist, ?_,
    fun entry inside leads => all entry inside ?_⟩
  · rw [← shown, Node.remarks_eq, List.map_map]
    rfl
  · exact firmAt_of_leads sound leads

def commentedSources : Ledger String :=
  [("a.js", "/* licence */ THREE.A = function () { /* why */ return x instanceof THREE.B; };"),
    ("b.js", "THREE.B = [];")]

theorem evaluate_commentedSources : ((evaluate {} commentedSources false).any fun (report, _) =>
    decide (∃ written ∈ report.modules, written.1.path = "./a.js" ∧
      written.1.program.commented =
        [([2, 0, 0], ["/* licence */"]), ([2, 0, 1, 0], ["/* why */"])])) = true := by
  decide +kernel

theorem comments_carried_commentedSources : ∃ report log,
    Ends (run {} commentedSources false) [] report log ∧ ∃ written ∈ report.modules,
      written.1.path = "./a.js" ∧ ∃ parsed, Corpus.Parses commentedSources "./a.js" parsed ∧
        ∃ kept : List (Position × List String), kept.Nodup ∧ kept.Sublist parsed.commented ∧
          kept.map Prod.snd = [["/* licence */"], ["/* why */"]] := by
  obtain ⟨⟨report, final⟩, evaluated, holds⟩ :=
    (Option.any_eq_true _ _).mp evaluate_commentedSources
  obtain ⟨written, member, path, shown⟩ := of_decide_eq_true holds
  have ends := ends_run_iff.mpr ⟨final, ran_of_evaluate evaluated, rfl⟩
  obtain ⟨parsed, parses, kept, distinct, sublist, same, -⟩ :=
    comments_carried Settings.accepted_standard ends written member
  refine ⟨report, final.log, ends, written, member, path, parsed, path ▸ parses, kept, distinct,
    sublist, ?_⟩
  rw [← same, shown]
  rfl

-- where an access and its object both have comments, those of the object are lost with it
example : ((evaluate {} [("a.js", "/* one */ THREE /* two */ .A = [];")] false).map
    fun (report, _) => report.outputs) =
      some [("./a.js", "var A;\n/* two */\nA = [];\nexports.A = A;\n")] := by
  decide +kernel

end Conversion

end ScriptModules
