import ScriptModules.Proofs.Module.Imports

namespace ScriptModules

open ScriptModules.Tree

structure Exported (start : Script) (tree : Node) (name : String) (provide : Provide)
    (bound : String) (written : Export) : Prop where
  written : written = provide.kind.exportOf name bound
  hoisted : provide.kind.isHoistable = true →
    ∀ site ∈ start.recorded name, Replaced tree site bound
  direct : provide.kind.isHoistable = false →
    ∀ site ∈ start.recorded name, ReadsFrom tree site name (.identifier "exports")

theorem Exported.of_at? {start : Script} {tree changed : Node} {name : String} {provide : Provide}
    {bound : String} {written : Export}
    (exported : Exported start tree name provide bound written)
    (same : ∀ site ∈ start.recorded name, changed.at? site = tree.at? site) :
    Exported start changed name provide bound written where
  written := exported.written
  hoisted := fun hoistable site member =>
    (exported.hoisted hoistable site member).of_at? (same site member)
  direct := fun direct site member => (exported.direct direct site member).of_at? (same site member)

namespace Draft

def Mentions (names : List String) (node : Node) : Prop :=
  node.form.name? = none ∧ ∀ name ∈ node.names, name ∈ names

theorem Mentions.clean {names : List String} {node : Node} (mentions : Mentions names node)
    {globalName : String} (clean : Clean globalName names) :
    Clean globalName (node.form.name?.toList ++ node.names) := by
  rw [mentions.1]
  exact fun name member => clean name (mentions.2 name member)

theorem mentions_markerTree (target name : String) :
    Mentions [target] (markerTree (.identifier target) name) := by
  refine ⟨rfl, fun other member => ?_⟩
  simpa [markerTree, Node.assignment, Node.access, Node.of, Node.identifier, Node.names,
    Node.namesFrom, Form.isKeyAt, Form.name?] using member

theorem mentions_guardedMarkerTree (name : String) :
    Mentions ["exports"] (guardedMarkerTree name) := by
  refine ⟨rfl, fun other member => ?_⟩
  simpa [guardedMarkerTree, markerTree, Node.assignment, Node.access, Node.of, Node.identifier,
    Node.names, Node.namesFrom, Form.isKeyAt, Form.name?] using member

theorem mentions_exportTree (name bound : String) :
    Mentions ["exports", bound] (exportTree name (.identifier bound)) := by
  refine ⟨rfl, fun other member => ?_⟩
  simpa [exportTree, Node.assignment, Node.access, Node.of, Node.identifier, Node.names,
    Node.namesFrom, Form.isKeyAt, Form.name?] using member

theorem mentions_declared (bound : String) : Mentions [bound] (.declared [[.identifier bound]]) := by
  refine ⟨rfl, fun other member => ?_⟩
  simpa [Node.declared, Node.of, Node.identifier, Node.names, Node.namesFrom, Form.isKeyAt,
    Form.name?] using member

theorem mentions_exportOf (kind : ProvideKind) (name bound : String) :
    ∀ node ∈ (kind.exportOf name bound).declarations ++ (kind.exportOf name bound).statements,
      Mentions ["exports", bound] node ∧ (kind.isHoistable = false → Mentions ["exports"] node) := by
  have weaken {names : List String} (subset : names ⊆ ["exports", bound]) {node : Node}
      (mentions : Mentions names node) : Mentions ["exports", bound] node :=
    ⟨mentions.1, fun name member => subset (mentions.2 name member)⟩
  have declared := weaken (by simp) (mentions_declared bound)
  have marker := weaken (by simp) (mentions_markerTree bound name)
  have guarded := mentions_guardedMarkerTree name
  have stated := mentions_exportTree name bound
  intro node member
  cases kind with
  | function =>
      simp only [ProvideKind.exportOf, List.cons_append, List.nil_append, List.mem_cons,
        List.not_mem_nil, or_false] at member
      refine ⟨?_, by simp [ProvideKind.isHoistable]⟩
      rcases member with rfl | rfl | rfl
      exacts [declared, marker, stated]
  | object | array =>
      simp only [ProvideKind.exportOf, List.cons_append, List.nil_append, List.mem_cons,
        List.not_mem_nil, or_false] at member
      refine ⟨?_, by simp [ProvideKind.isHoistable]⟩
      rcases member with rfl | rfl
      exacts [declared, stated]
  | literal =>
      simp [ProvideKind.exportOf] at member
  | other =>
      simp only [ProvideKind.exportOf, List.nil_append, List.mem_singleton] at member
      subst member
      exact ⟨weaken (by simp) guarded, fun _ => guarded⟩

theorem ends_markers_hoisted {kind : ProvideKind} (hoistable : kind.isHoistable = true)
    {target name : String} (word : IsWord name) (valid : IsName target) {before after : Draft}
    {marks : List Node} (ends : Ends (markers kind target name) before marks after) :
    after = before ∧ marks ++ [exportTree name (.identifier target)] =
      (kind.exportOf name target).statements := by
  unfold markers at ends
  cases kind with
  | function =>
      simp only [statement, Ends.bind_iff, Ends.liftM_iff, Ends.pure_iff] at ends
      obtain ⟨mark, _, ⟨made, rfl⟩, rfl, rfl⟩ := ends
      rw [statement_marker valid word] at made
      cases made
      exact ⟨rfl, rfl⟩
  | object | array =>
      obtain ⟨rfl, rfl⟩ := (Ends.pure_iff _ _ _ _).mp ends
      exact ⟨rfl, rfl⟩
  | literal | other => cases hoistable

theorem ends_markers_direct {kind : ProvideKind} (direct : kind.isHoistable = false)
    {name : String} (word : IsWord name) {before after : Draft} {marks : List Node}
    (ends : Ends (markers kind (exported name) name) before marks after) (bound : String) :
    after = before ∧ { statements := marks } = kind.exportOf name bound := by
  unfold markers at ends
  cases kind with
  | function | object | array => cases direct
  | literal =>
      obtain ⟨rfl, rfl⟩ := (Ends.pure_iff _ _ _ _).mp ends
      exact ⟨rfl, rfl⟩
  | other =>
      simp only [statement, Ends.bind_iff, Ends.liftM_iff, Ends.pure_iff] at ends
      obtain ⟨mark, _, ⟨made, rfl⟩, rfl, rfl⟩ := ends
      rw [statement_guardedMarker word] at made
      cases made
      exact ⟨rfl, rfl⟩

variable {settings : Settings} {start : Script} {name : String} {provided : Provide}
  {done : List String} {before after : Draft} {written : Export}

theorem ends_provideVariable (ready : start.Ready settings)
    (found : start.provides.get? name = some provided)
    (hoistable : provided.kind.isHoistable = true)
    (progress : Progress settings.globalName start done before)
    (ends : Ends (provideVariable name provided) before written after) :
    ∃ bound, Exported start after.script.tree name provided bound written ∧
      bound ≠ settings.globalName ∧ Declares before after written.declarations ∧
      Progress settings.globalName start (done ++ [name]) after ∧
      ∀ other, other ≠ name → ∀ site ∈ start.recorded other,
        after.script.tree.at? site = before.script.tree.at? site := by
  obtain ⟨word, global⟩ :=
    ready.words ready.other name (.inl (Ledger.mem_names_of_get? found))
  have sites : provided.sites = start.recorded name := by
    rw [Script.recorded, found]
  simp only [provideVariable, statement, Ends.bind_iff, Ends.liftM_iff, ends_reserve,
    Ends.pure_iff] at ends
  obtain ⟨bound, _, ⟨free, rfl⟩, declaration, _, ⟨declared, rfl⟩, reference, _, ⟨read, rfl⟩, _,
    replaced, replacing, marks, _, marking, assignment, _, ⟨assigned, rfl⟩, rfl, rfl⟩ := ends
  have valid : IsName bound := free ▸ Text.isName_fresh word _
  have unused : Text.Unused before.script.names [bound] := free ▸ .fresh _ _
  rw [reference_of_isName valid] at read
  cases read
  rw [statement_variable valid] at declared
  cases declared
  have exported : Template.statement (exported name ++ " = " ++ bound ++ ";") [] =
      .ok (exportTree name (.identifier bound)) := statement_export word valid
  rw [exported] at assigned
  cases assigned
  obtain ⟨rfl, statements⟩ := ends_markers_hoisted hoistable word valid marking
  rw [sites] at replacing
  obtain ⟨tree, rfl, changes, replaced⟩ := ends_replaceAccesses (ready.separate_own name)
    (fun site => ready.inner) replacing
  have other : bound ≠ settings.globalName := by
    rintro rfl
    exact (unused.free _ List.mem_cons_self).1 (progress.grown _ global)
  have clean : Clean settings.globalName [bound] := by
    intro one member
    rw [List.mem_singleton.mp member]
    exact .inr other
  obtain ⟨progress, stays⟩ := (progress.reserve [bound]).change ready changes
    (by simpa [Node.identifier, Node.of, Node.names, Node.namesFrom, Form.name?] using clean)
  refine ⟨bound, ⟨?_, fun _ => replaced, ?_⟩, other, ⟨rfl, unused⟩, { progress with }, stays⟩
  · rw [statements]
    cases kind : provided.kind <;> first | rfl | rw [kind] at hoistable; cases hoistable
  · intro direct
    rw [hoistable] at direct
    cases direct

theorem ends_provideDirectly (ready : start.Ready settings)
    (found : start.provides.get? name = some provided)
    (direct : provided.kind.isHoistable = false) (fresh : name ∉ done)
    (progress : Progress settings.globalName start done before)
    (ends : Ends (provideDirectly name provided) before written after) (bound : String) :
    Exported start after.script.tree name provided bound written ∧
      Declares before after written.declarations ∧
      Progress settings.globalName start (done ++ [name]) after ∧
      ∀ other, other ≠ name → ∀ site ∈ start.recorded other,
        after.script.tree.at? site = before.script.tree.at? site := by
  obtain ⟨word, -⟩ :=
    ready.words ready.other name (.inl (Ledger.mem_names_of_get? found))
  have sites : provided.sites = start.recorded name := by
    rw [Script.recorded, found]
  simp only [provideDirectly, Ends.bind_iff, ends_replaceBases, Ends.pure_iff] at ends
  obtain ⟨_, _, ⟨base, read, rfl⟩, marks, _, marking, rfl, rfl⟩ := ends
  obtain ⟨rfl, statements⟩ := ends_markers_direct direct word marking bound
  have exports : Template.expression "exports" [] = .ok (.identifier "exports") :=
    reference_of_isName (by decide)
  rw [exports] at read
  cases read
  have access : ∀ site ∈ start.recorded name,
      ∃ base, AccessAt before.script.tree site name base := by
    intro site member
    obtain ⟨base, access, -⟩ := ready.marked member
    exact ⟨base, access.of_at? (progress.rest name fresh site member)⟩
  obtain ⟨changes, new⟩ := @setBases_changes _ name (.identifier "exports") _
    (ready.separate_own name) access
  have clean : Clean settings.globalName ["exports"] := by
    intro other member
    exact .inl (List.mem_singleton.mp member)
  obtain ⟨progress, stays⟩ := progress.change ready changes
    (by simpa [Node.identifier, Node.of, Node.names, Node.namesFrom, Form.name?] using clean)
  rw [sites]
  refine ⟨⟨statements, ?_, fun _ => new⟩, ⟨(List.append_nil _).symm, .nil _⟩, progress, stays⟩
  intro hoistable
  rw [direct] at hoistable
  cases hoistable

theorem ends_provide (ready : start.Ready settings)
    (found : start.provides.get? name = some provided) (fresh : name ∉ done)
    (progress : Progress settings.globalName start done before)
    (ends : Ends (provide name provided) before written after) :
    ∃ bound, Exported start after.script.tree name provided bound written ∧
      (provided.kind.isHoistable = true → bound ≠ settings.globalName) ∧
      Declares before after written.declarations ∧
      Progress settings.globalName start (done ++ [name]) after ∧
      ∀ other, other ≠ name → ∀ site ∈ start.recorded other,
        after.script.tree.at? site = before.script.tree.at? site := by
  unfold provide at ends
  split at ends
  · rename_i hoistable
    obtain ⟨bound, exported, other, rest⟩ := ends_provideVariable ready found hoistable progress ends
    exact ⟨bound, exported, fun _ => other, rest⟩
  · rename_i direct
    obtain ⟨exported, rest⟩ :=
      ends_provideDirectly ready found (eq_false_of_ne_true direct) fresh progress ends name
    exact ⟨name, exported, fun hoistable => absurd hoistable direct, rest⟩

end Draft

/-- The exports of a module in the order of the names that the script provides, and the variable of
each name. -/
structure Exports (globalName : String) (start : Script) (tree : Node) (provides : Ledger Provide)
    (bound : String → String) (exports : List Export) : Prop where
  written : exports = provides.map fun entry => entry.2.kind.exportOf entry.1 (bound entry.1)
  exported : ∀ entry ∈ provides, Exported start tree entry.1 entry.2 (bound entry.1)
    (entry.2.kind.exportOf entry.1 (bound entry.1))
  other : ∀ entry ∈ provides, entry.2.kind.isHoistable = true → bound entry.1 ≠ globalName

theorem Exports.clean {globalName : String} {start : Script} {tree : Node}
    {provides : Ledger Provide} {bound : String → String} {exports : List Export}
    (exported : Exports globalName start tree provides bound exports) :
    ∀ written ∈ exports, ∀ node ∈ written.declarations ++ written.statements,
      Draft.Clean globalName (node.form.name?.toList ++ node.names) := by
  rw [exported.written, List.forall_mem_map]
  intro entry member node inside
  obtain ⟨mentions, direct⟩ := Draft.mentions_exportOf entry.2.kind entry.1 (bound entry.1) node inside
  cases hoistable : entry.2.kind.isHoistable with
  | true =>
      refine mentions.clean fun name known => ?_
      rcases List.mem_cons.mp known with same | known
      · exact .inl same
      · rw [List.mem_singleton.mp known]
        exact .inr (exported.other entry member hoistable)
  | false =>
      refine (direct hoistable).clean fun name known => ?_
      exact .inl (List.mem_singleton.mp known)

namespace Draft

theorem ends_provides (ready : start.Ready settings)
    (fresh : ∀ name ∈ start.provides.names, name ∉ done)
    (progress : Progress settings.globalName start done before) {first : Ledger Provide}
    (ahead : first <+: start.provides) {exports : List Export}
    (ends : Ends (first.mapM fun entry => provide entry.1 entry.2) before exports after) :
    ∃ bound, Exports settings.globalName start after.script.tree first bound exports ∧
      Declares before after (exports.flatMap Export.declarations) ∧
      Progress settings.globalName start (done ++ first.names) after ∧
      ∀ name, name ∉ first.names → ∀ site ∈ start.recorded name,
        after.script.tree.at? site = before.script.tree.at? site := by
  obtain ⟨last, whole⟩ := ahead
  refine Ends.mapM_invariant (fun behind exports after => ∃ bound,
    Exports settings.globalName start after.script.tree behind bound exports ∧
      Declares before after (exports.flatMap Export.declarations) ∧
      Progress settings.globalName start (done ++ Ledger.names behind) after ∧
      ∀ name, name ∉ Ledger.names behind → ∀ site ∈ start.recorded name,
        after.script.tree.at? site = before.script.tree.at? site) ?_ ends
    ⟨id, ⟨rfl, by simp, by simp⟩, .nil _, by simpa using progress, fun _ _ _ _ => rfl⟩
  rintro behind ⟨name, provided⟩ todo exports between written after parts
    ⟨bound, known, declares, progress, stays⟩ ends
  have entry : (name, provided) ∈ start.provides := by
    rw [← whole, parts]
    simp
  have found := Ledger.get?_of_mem ready.provided_distinct entry
  have new : name ∉ Ledger.names behind := by
    have distinct := ready.provided_distinct
    rw [← whole, parts, List.append_assoc, Ledger.names, List.map_append, List.cons_append,
      List.map_cons] at distinct
    exact fun again => (List.nodup_append.mp distinct).2.2 name again name List.mem_cons_self rfl
  have outside : name ∉ done ++ Ledger.names behind :=
    mt List.mem_append.mp (not_or.mpr ⟨fresh name (Ledger.mem_names_of_get? found), new⟩)
  obtain ⟨own, exported, other, declares', progress, others⟩ :=
    ends_provide ready found outside progress ends
  obtain rfl := exported.written
  -- the variables of the names behind stay, since this name is none of them
  let bound' := Function.update bound name own
  have here : bound' name = own := Function.update_self name own bound
  have kept {one : String × Provide} (old : one ∈ behind) : one.1 ≠ name := by
    rintro rfl
    exact new (List.mem_map_of_mem old)
  have same {one : String × Provide} (old : one ∈ behind) : bound' one.1 = bound one.1 :=
    Function.update_of_ne (kept old) own bound
  refine ⟨bound', ⟨?_, ?_, ?_⟩, by simpa using declares.append declares', ?_, ?_⟩
  · rw [List.map_append, known.written, List.map_singleton, here]
    congr 1
    exact List.map_congr_left fun one old => by rw [same old]
  · intro one member
    rcases List.mem_append.mp member with old | last
    · rw [same old]
      exact (known.exported one old).of_at? (others one.1 (kept old))
    · rw [List.mem_singleton.mp last, here]
      exact exported
  · intro one member
    rcases List.mem_append.mp member with old | last
    · rw [same old]
      exact known.other one old
    · rw [List.mem_singleton.mp last, here]
      exact other
  · simpa [Ledger.names] using progress
  · intro other absent site member
    simp only [Ledger.names, List.map_append, List.map_cons, List.map_nil, List.mem_append,
      List.mem_singleton, not_or] at absent
    exact (others other absent.2 site member).trans (stays other absent.1 site member)

end Draft

end ScriptModules
