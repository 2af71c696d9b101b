import ScriptModules.Proofs.Module.Exports
import ScriptModules.Proofs.Stop
import ScriptModules.Proofs.Tree.Exchange

namespace ScriptModules

open ScriptModules.Tree

def Script.exchangedFor (script : Script) (name : String) : List Position :=
  match script.provides.get? name with
  | some provide =>
    if provide.kind.isHoistable then provide.sites else provide.sites.map (· ++ [0])
  | none => (script.recorded name).map (· ++ [0])

def Script.exchanged (script : Script) (files : Ledger (List String)) : List Position :=
  (files.flatMap Prod.snd ++ if script.isRoot then [] else script.provides.names).flatMap
    script.exchangedFor

/-! ## Steady changes -/

theorem Script.exchangedFor_of_required {script : Script} {name : String}
    (apart : name ∉ script.provides.names) :
    script.exchangedFor name = (script.recorded name).map (· ++ [0]) := by
  rw [exchangedFor, (Ledger.get?_eq_none_iff _ _).mpr apart]

theorem Script.mem_exchangedFor {script : Script} {name : String} {call : Position}
    (member : call ∈ script.exchangedFor name) :
    ∃ site ∈ script.recorded name, call = site ∨ call = site ++ [0] := by
  unfold exchangedFor at member
  split at member
  · rename_i provide found
    have sites : script.recorded name = provide.sites := by
      rw [recorded, found]
    rw [sites]
    split at member
    · exact ⟨call, member, .inl rfl⟩
    · obtain ⟨site, own, rfl⟩ := List.mem_map.mp member
      exact ⟨site, own, .inr rfl⟩
  · obtain ⟨site, own, rfl⟩ := List.mem_map.mp member
    exact ⟨site, own, .inr rfl⟩

theorem not_prefix_of_apart {site place call later : Position} (apart : Node.Apart site place)
    (here : call = site ∨ call = site ++ [0]) (there : later = place ∨ later = place ++ [0]) :
    ¬call <+: later := by
  have apart' : Node.Apart call place := by
    rcases here with rfl | rfl
    · exact apart
    · exact apart_base apart
  rcases there with rfl | rfl
  · exact apart'.1
  · exact (apart_base ⟨apart'.2, apart'.1⟩).2

theorem steady_map_base {sites : List Position} (distinct : sites.Nodup)
    (apart : ∀ site ∈ sites, ∀ place ∈ sites, site = place ∨ Node.Apart site place) :
    Steady sites ∧ Steady (sites.map (· ++ [0])) := by
  have pairs : sites.Pairwise Node.Apart :=
    distinct.imp_of_mem fun member member' different =>
      (apart _ member _ member').resolve_left different
  refine ⟨pairs.imp fun apart => apart.1, ?_⟩
  rw [Steady, List.pairwise_map]
  exact pairs.imp fun apart => not_prefix_of_apart apart (.inr rfl) (.inr rfl)

namespace Script.Ready

variable {settings : Settings} {script : Script} {files : Ledger (List String)}

theorem steady_exchangedFor (ready : script.Ready settings) {name : String}
    (distinct : (script.recorded name).Nodup) : Steady (script.exchangedFor name) := by
  obtain ⟨sites, bases⟩ := steady_map_base distinct (ready.separate_own name)
  unfold exchangedFor
  split
  · rename_i provide found
    rw [recorded, found] at sites bases
    split
    · exact sites
    · exact bases
  · exact bases

theorem steady_exchanged (ready : script.Ready settings)
    (distinct : ∀ name, (script.recorded name).Nodup)
    (groups : (files.flatMap Prod.snd).Perm script.requires.names) :
    Steady (script.exchanged files) := by
  have names : (files.flatMap Prod.snd ++ script.provides.names).Nodup := by
    refine List.nodup_append.mpr ⟨groups.nodup_iff.mpr ready.required_distinct,
      ready.provided_distinct, fun name required other provided same => ?_⟩
    exact ready.apart name (groups.subset required) (same ▸ provided)
  rw [Script.exchanged, if_neg (by simp [ready.other]), Steady, List.pairwise_flatMap]
  refine ⟨fun name _ => ready.steady_exchangedFor (distinct name), names.imp ?_⟩
  intro name other different call member later member'
  obtain ⟨site, own, here⟩ := mem_exchangedFor member
  obtain ⟨place, own', there⟩ := mem_exchangedFor member'
  refine not_prefix_of_apart ?_ here there
  exact (ready.separate name other site own place own').resolve_left fun same => different same.2

end Script.Ready

namespace Draft

/-! ## Tasks that change a tree -/

/-- A task on a draft that ends has made some changes in its tree. One that stops has made the first of
them, and does not stop at an internal fault. -/
structure Exchanging {α : Type} (calls : List Position) (task : Drafting α) (before : Draft) :
    Prop where
  ends : ∀ value after, Ends task before value after →
    Exchanges calls before.script.tree after.script.tree
  stops : ∀ fault after, Stops task before fault after → fault.isInternal = false ∧
    ∃ made, made <+: calls ∧ Exchanges made before.script.tree after.script.tree

namespace Exchanging

variable {α β : Type} {calls more : List Position} {before : Draft}

theorem pure (value : α) : Exchanging [] (Pure.pure value : Drafting α) before where
  ends := fun result after ends => by
    rw [((Ends.pure_iff _ _ _ _).mp ends).2]
    exact .none _
  stops := fun fault after stops => ((Stops.pure_iff _ _ _ _).mp stops).elim

theorem get : Exchanging [] (MonadState.get : Drafting Draft) before where
  ends := fun result after ends => by
    rw [((Ends.get_iff _ _ _).mp ends).2]
    exact .none _
  stops := fun fault after stops => ((Stops.get_iff _ _ _).mp stops).elim

theorem modify {change : Draft → Draft}
    (same : (change before).script.tree = before.script.tree) :
    Exchanging [] (modify change : Drafting PUnit) before where
  ends := fun result after ends => by
    rw [(Ends.modify_iff _ _ _ _).mp ends, same]
    exact .none _
  stops := fun fault after stops => ((Stops.modify_iff _ _ _ _).mp stops).elim

theorem liftM {result : Except Fault α}
    (known : ∀ fault, result = .error fault → fault.isInternal = false) :
    Exchanging [] (MonadLiftT.monadLift result : Drafting α) before where
  ends := fun value after ends => by
    rw [((Ends.liftM_iff _ _ _ _).mp ends).2]
    exact .none _
  stops := fun fault after stops => by
    obtain ⟨stopped, rfl⟩ := (Stops.liftM_iff _ _ _ _).mp stops
    exact ⟨known fault stopped, [], List.prefix_rfl, .none _⟩

theorem bind {task : Drafting α} {next : α → Drafting β} (first : Exchanging calls task before)
    (second : ∀ value between, Ends task before value between →
      Exchanging more (next value) between) : Exchanging (calls ++ more) (task >>= next) before where
  ends := fun value after ends => by
    obtain ⟨result, between, run, ends⟩ := (Ends.bind_iff _ _ _ _ _).mp ends
    exact (first.ends _ _ run).trans ((second _ _ run).ends _ _ ends)
  stops := fun fault after stops => by
    rcases (Stops.bind_iff _ _ _ _ _).mp stops with stops | ⟨result, between, run, stops⟩
    · obtain ⟨other, made, some, exchanges⟩ := first.stops _ _ stops
      exact ⟨other, made, some.trans (List.prefix_append _ _), exchanges⟩
    · obtain ⟨other, made, some, exchanges⟩ := (second _ _ run).stops _ _ stops
      exact ⟨other, calls ++ made, List.prefix_append_right_inj _ |>.mpr some,
        (first.ends _ _ run).trans exchanges⟩

theorem quiet_bind {task : Drafting α} {next : α → Drafting β} (first : Exchanging [] task before)
    (second : ∀ value between, Ends task before value between →
      Exchanging calls (next value) between) : Exchanging calls (task >>= next) before :=
  first.bind second

theorem bind_of_ends {task : Drafting α} {next : α → Drafting β} {value : α}
    (first : Ends task before value before) (second : Exchanging calls (next value) before) :
    Exchanging calls (task >>= next) before where
  ends := fun result after ends => by
    obtain ⟨other, between, run, rest⟩ := (Ends.bind_iff _ _ _ _ _).mp ends
    obtain ⟨rfl, rfl⟩ := first.unique run
    exact second.ends _ _ rest
  stops := fun fault after stops => by
    rcases (Stops.bind_iff _ _ _ _ _).mp stops with stopped | ⟨other, between, run, rest⟩
    · cases (show Ends _ _ _ _ from first).symm.trans stopped
    · obtain ⟨rfl, rfl⟩ := first.unique run
      exact second.stops _ _ rest

theorem bind_quiet {task : Drafting α} {next : α → Drafting β} (first : Exchanging calls task before)
    (second : ∀ value between, Ends task before value between →
      Exchanging [] (next value) between) : Exchanging calls (task >>= next) before := by
  have whole := first.bind second
  rwa [List.append_nil] at whole

theorem mapM {task : α → Drafting β} {calls : α → List Position} {items : List α}
    (each : ∀ done item todo values between, items = done ++ item :: todo →
      Ends (done.mapM task) before values between →
      Exchanging (calls item) (task item) between) :
    Exchanging (items.flatMap calls) (items.mapM task) before := by
  suffices carried : ∀ todo done values between, items = done ++ todo →
      Ends (done.mapM task) before values between →
      Exchanging (todo.flatMap calls) (todo.mapM task) between from
    carried items [] [] before rfl ((Ends.pure_iff _ _ _ _).mpr ⟨rfl, rfl⟩)
  intro todo
  induction todo with
  | nil =>
      intro done values between parts run
      rw [List.mapM_nil]
      exact .pure _
  | cons item todo ih =>
      intro done values between parts run
      rw [List.mapM_cons, List.flatMap_cons]
      refine (each done item todo values between parts run).bind fun value last own => ?_
      have behind : Ends ((done ++ [item]).mapM task) before (values ++ [value]) last :=
        Ends.mapM_append_iff.mpr ⟨values, between, [value], run,
          (Ends.mapM_cons_iff _ _ _ _ _ _).mpr ⟨value, last, [], own,
            (Ends.pure_iff _ _ _ _).mpr ⟨rfl, rfl⟩, rfl⟩, rfl⟩
      exact (ih (done ++ [item]) (values ++ [value]) last (by simp [parts]) behind).bind_quiet
        fun _ _ _ => .pure _

theorem forM {task : α → Drafting PUnit} {calls : α → List Position} {items : List α}
    (each : ∀ done item todo between, items = done ++ item :: todo →
      Ends (done.forM task) before ⟨⟩ between → Exchanging (calls item) (task item) between) :
    Exchanging (items.flatMap calls) (items.forM task) before := by
  suffices carried : ∀ todo done between, items = done ++ todo →
      Ends (done.forM task) before ⟨⟩ between →
      Exchanging (todo.flatMap calls) (todo.forM task) between from
    carried items [] before rfl (Ends.forM_nil_iff.mpr rfl)
  intro todo
  induction todo with
  | nil =>
      intro done between parts run
      exact .pure _
  | cons item todo ih =>
      intro done between parts run
      rw [List.flatMap_cons]
      refine (each done item todo between parts run).bind fun value last own => ?_
      exact ih (done ++ [item]) last (by simp [parts])
        (Ends.forM_append_iff.mpr ⟨between, run, Ends.forM_cons_iff.mpr
          ⟨last, own, Ends.forM_nil_iff.mpr rfl⟩⟩)

theorem changeTree {change : Node → Except Fault Node} {tree : Node}
    (run : change before.script.tree = .ok tree)
    (exchanges : Exchanges calls before.script.tree tree) :
    Exchanging calls (Draft.changeTree change) before where
  ends := fun value after ends => by
    obtain ⟨changed, own, rfl⟩ := ends_changeTree.mp ends
    cases run.symm.trans own
    exact exchanges
  stops := fun fault after stops => by
    simp [Draft.changeTree, run] at stops

end Exchanging

theorem exchanging_reserve (name : String) (before : Draft) :
    Exchanging [] (reserve name) before :=
  .bind_of_ends (.get_same _) (.quiet_bind (.modify rfl) fun _ _ _ => .pure _)

theorem exchanging_statement (text : String) (before : Draft) :
    Exchanging [] (statement text) before :=
  .liftM fun _ => Template.statement_fault

/-! ## The sites of a name -/

theorem exchanging_replaceBases {sites : List Position} {name : String} {before : Draft}
    (distinct : sites.Nodup)
    (apart : ∀ site ∈ sites, ∀ place ∈ sites, site = place ∨ Node.Apart site place)
    (access : ∀ site ∈ sites, ∃ base, AccessAt before.script.tree site name base) (text : String) :
    Exchanging (sites.map (· ++ [0])) (replaceBases sites text) before := by
  refine .quiet_bind (.liftM fun _ => Template.expression_fault) fun value between ends => ?_
  obtain ⟨-, rfl⟩ := (Ends.liftM_iff _ _ _ _).mp ends
  refine .changeTree rfl ?_
  suffices held : ∀ changed, changed = sites.foldl (fun tree site =>
      Access.setBase tree site value) between.script.tree →
      Changes sites value between.script.tree changed ∧
        Exchanges (sites.map (· ++ [0])) between.script.tree changed from (held _ rfl).2
  rintro changed rfl
  refine foldl_invariant (fun done changed => Changes done value between.script.tree changed ∧
    Exchanges (done.map (· ++ [0])) between.script.tree changed) ?_ ⟨.refl _ _, .none _⟩
  rintro done site todo changed parts ⟨changes, exchanges⟩
  have member : site ∈ sites := by
    rw [parts]
    simp
  have same : changed.at? site = between.script.tree.at? site := by
    refine changes.elsewhere site fun place behind => ?_
    refine (apart place (by simp [parts, behind]) site member).resolve_left ?_
    rintro rfl
    exact not_mem_behind distinct parts behind
  obtain ⟨base, here⟩ := access site member
  rw [List.map_append]
  exact ⟨changes.trans (setBase_changes changed site value),
    exchanges.put (here.of_at? same).base_at? (by simp) value⟩

theorem replaceAccess_eq {site : Position} {new tree old : Node} (here : tree.at? site = some old)
    (member : old.form = .member) :
    replaceAccess site new tree = .ok (tree.modifyAt new.inPlaceOf site) := by
  have above : ∃ parent, tree.at? site.dropLast = some parent := by
    obtain ⟨rest, whole⟩ := site.dropLast_prefix
    rw [← whole, Node.at?_append] at here
    obtain ⟨parent, place, -⟩ := Option.bind_eq_some_iff.mp here
    exact ⟨parent, place⟩
  obtain ⟨parent, place⟩ := above
  simp [replaceAccess, here, place, member]

theorem exchanging_replaceAccesses {sites : List Position} {name : String} {before : Draft}
    (distinct : sites.Nodup) (inner : ∀ site ∈ sites, site ≠ [])
    (apart : ∀ site ∈ sites, ∀ place ∈ sites, site = place ∨ Node.Apart site place)
    (access : ∀ site ∈ sites, ∃ base, AccessAt before.script.tree site name base)
    (bound : String) :
    Exchanging sites (sites.forM fun site => changeTree (replaceAccess site (.identifier bound)))
      before := by
  suffices held : Exchanging (sites.flatMap fun site => [site])
      (sites.forM fun site => changeTree (replaceAccess site (.identifier bound))) before by
    rwa [List.flatMap_singleton'] at held
  refine .forM fun done site todo between parts ends => ?_
  have member : site ∈ sites := by
    rw [parts]
    simp
  have inside {place : Position} (behind : place ∈ done) : place ∈ sites := by
    rw [parts]
    exact List.mem_append_left _ behind
  obtain ⟨tree, rfl, changes, -⟩ := ends_replaceAccesses
    (fun site known place known' => apart site (inside known) place (inside known'))
    (fun site known => inner site (inside known)) ends
  have same : tree.at? site = before.script.tree.at? site := by
    refine changes.elsewhere site fun place behind => ?_
    refine (apart place (inside behind) site member).resolve_left ?_
    rintro rfl
    exact not_mem_behind distinct parts behind
  obtain ⟨base, comments, key, here, -⟩ := access site member
  rw [← same] at here
  exact .changeTree (replaceAccess_eq here rfl) ((Exchanges.none tree).put here (inner site member) _)

/-! ## Required files -/

theorem exchanging_nameImport {around : Surroundings} {path : String} {script : Script}
    (known : converted around path = .ok script) (names : List String) (before : Draft) :
    Exchanging [] (nameImport around path names) before := by
  refine .bind_of_ends (.get_same _) (.bind_of_ends (.liftM_of known _) ?_)
  refine .quiet_bind (.liftM fun _ => quotedSpecifier_fault) fun specifier between _ =>
    .quiet_bind (exchanging_reserve _ _) fun binding between _ => ?_
  split
  · exact .quiet_bind (exchanging_reserve _ _) fun getter between _ => .pure _
  · exact .pure _

theorem exchanging_redirect {settings : Settings} {start : Script} (ready : start.Ready settings)
    (recorded : ∀ name, (start.recorded name).Nodup) {required : Import}
    (reference : Template.expression required.reference [] = .ok required.base)
    (other : settings.globalName ∉ required.locals) {names done : List String}
    (distinct : names.Nodup)
    (fresh : ∀ name ∈ names, name ∉ done ∧ name ∉ start.provides.names) {before : Draft}
    (progress : Progress settings.globalName start done before) :
    Exchanging (names.flatMap start.exchangedFor)
      (names.forM fun name => replaceBases (sitesOf start name) required.reference) before := by
  refine .forM fun behind name todo between parts ends => ?_
  have member : name ∈ names := by
    rw [parts]
    simp
  have inside {one : String} (known : one ∈ behind) : one ∈ names := by
    rw [parts]
    exact List.mem_append_left _ known
  obtain ⟨progress, -⟩ :=
    ends_redirect ready reference other (fun one known => fresh one (inside known)) progress ends
  obtain ⟨new, apart⟩ := fresh name member
  rw [Script.exchangedFor_of_required apart, sitesOf_eq_recorded apart]
  have access : ∀ site ∈ start.recorded name,
      ∃ base, AccessAt between.script.tree site name base := by
    intro site place
    obtain ⟨base, access, -⟩ := ready.marked place
    refine ⟨base, access.of_at? (progress.rest name (fun old => ?_) site place)⟩
    exact (List.mem_append.mp old).elim new (not_mem_behind distinct parts)
  exact exchanging_replaceBases (recorded name) (ready.separate_own name) access _

theorem exchanging_require {around : Surroundings} (accepted : around.settings.Accepted)
    {start : Script} (ready : start.Ready around.settings)
    (recorded : ∀ name, (start.recorded name).Nodup) {path : String} {script : Script}
    (known : converted around path = .ok script) {names done : List String}
    (distinct : names.Nodup) (filled : names ≠ [])
    (fresh : ∀ name ∈ names, name ∉ done ∧ name ∈ start.requires.names) {before : Draft}
    (progress : Progress around.settings.globalName start done before) :
    Exchanging (names.flatMap start.exchangedFor) (require around path names) before := by
  refine .quiet_bind (exchanging_nameImport known names before) fun required named naming =>
    .quiet_bind (exchanging_statement _ _) fun declaration between ends => ?_
  obtain ⟨made, rfl⟩ := (Ends.liftM_iff _ _ _ _).mp ends
  have about := ends_named accepted ready filled fresh progress naming made
  refine .bind_of_ends (.get_same _) ?_
  dsimp only
  rw [about.sites]
  obtain rfl := about.drafted
  refine (exchanging_redirect ready recorded about.reference about.other distinct
    (fun name member => ⟨(fresh name member).1, ready.apart name (fresh name member).2⟩)
    (progress.reserve required.locals)).bind_quiet fun _ _ _ => ?_
  exact .quiet_bind (.modify rfl) fun _ _ _ => .pure _

def Supplied (around : Surroundings) (start : Script) : Prop :=
  ∀ name ∈ start.requires.names, ∃ path, around.index.owner? name = some path ∧
    ∃ script, converted around path = .ok script

theorem exchanging_requireAll {around : Surroundings} (accepted : around.settings.Accepted)
    {start : Script} (ready : start.Ready around.settings)
    (recorded : ∀ name, (start.recorded name).Nodup) (supplied : Supplied around start)
    {files : Ledger (List String)}
    (run : Dependency.requiredFiles around.index start = .ok files) :
    Exchanging ((files.flatMap Prod.snd).flatMap start.exchangedFor) (requireAll around)
      { script := start } := by
  have groups := Dependency.requiredFiles_groups run
  have distinct : (files.flatMap Prod.snd).Nodup :=
    (Dependency.requiredFiles_perm run).nodup_iff.mpr ready.required_distinct
  refine .bind_of_ends (.get_same _) (.bind_of_ends (.liftM_of run _) ?_)
  rw [List.flatMap_assoc]
  refine .mapM fun done entry todo imports between parts ends => ?_
  obtain ⟨path, names⟩ := entry
  have entry : (path, names) ∈ files := by
    rw [parts]
    simp
  obtain ⟨-, progress, -⟩ := ends_requires accepted ready groups (parts ▸ List.prefix_append _ _) ends
  have filled := groups.filled path names entry
  obtain ⟨name, member⟩ := List.exists_mem_of_ne_nil _ filled
  obtain ⟨owner, owned, script, known⟩ := supplied name (groups.within path names entry name member)
  cases (groups.owned path names entry name member).symm.trans owned
  exact exchanging_require accepted ready recorded known
    ((List.nodup_flatMap.mp distinct).1 _ entry) filled (fun name member =>
      ⟨groups.not_behind parts member, groups.within path names entry name member⟩) progress

/-! ## Provided names -/

theorem exchanging_markers (kind : ProvideKind) (target name : String) (before : Draft) :
    Exchanging [] (markers kind target name) before := by
  unfold markers
  split
  · exact .quiet_bind (exchanging_statement _ _) fun _ _ _ => .pure _
  · exact .quiet_bind (exchanging_statement _ _) fun _ _ _ => .pure _
  · exact .pure _

theorem exchanging_provide {settings : Settings} {start : Script} (ready : start.Ready settings)
    {name : String} (recorded : (start.recorded name).Nodup) {provided : Provide}
    (found : start.provides.get? name = some provided) {done : List String} (fresh : name ∉ done)
    {before : Draft} (progress : Progress settings.globalName start done before) :
    Exchanging (start.exchangedFor name) (provide name provided) before := by
  have sites : start.recorded name = provided.sites := by
    rw [Script.recorded, found]
  have access : ∀ site ∈ provided.sites, ∃ base, AccessAt before.script.tree site name base := by
    intro site member
    rw [← sites] at member
    obtain ⟨base, access, -⟩ := ready.marked member
    exact ⟨base, access.of_at? (progress.rest name fresh site member)⟩
  have apart := ready.separate_own name
  have inner : ∀ site ∈ start.recorded name, site ≠ [] := fun site => ready.inner
  rw [sites] at apart recorded inner
  rw [Script.exchangedFor, found]
  unfold provide
  dsimp only
  split
  · obtain ⟨word, -⟩ := ready.words ready.other name (.inl (Ledger.mem_names_of_get? found))
    refine .quiet_bind (exchanging_reserve _ _) fun bound between free => ?_
    obtain ⟨fresh, rfl⟩ := ends_reserve.mp free
    have valid : IsName bound := fresh ▸ Text.isName_fresh word _
    refine .quiet_bind (exchanging_statement _ _) fun declaration between ends => ?_
    obtain ⟨-, rfl⟩ := (Ends.liftM_iff _ _ _ _).mp ends
    refine .quiet_bind (.liftM fun _ => Template.expression_fault) fun reference between ends => ?_
    obtain ⟨read, rfl⟩ := (Ends.liftM_iff _ _ _ _).mp ends
    rw [reference_of_isName valid] at read
    cases read
    refine .bind_quiet ?_ fun _ _ _ => .quiet_bind (exchanging_markers _ _ _ _) fun _ _ _ =>
      .quiet_bind (exchanging_statement _ _) fun _ _ _ => .pure _
    apply exchanging_replaceAccesses recorded inner apart
    exact access
  · exact (exchanging_replaceBases recorded apart access _).bind_quiet fun _ _ _ =>
      .quiet_bind (exchanging_markers _ _ _ _) fun _ _ _ => .pure _

theorem exchanging_write {around : Surroundings} (accepted : around.settings.Accepted)
    {start : Script} (ready : start.Ready around.settings)
    (recorded : ∀ name, (start.recorded name).Nodup) (supplied : Supplied around start)
    {files : Ledger (List String)}
    (run : Dependency.requiredFiles around.index start = .ok files) :
    Exchanging (start.exchanged files) (write around) { script := start } := by
  have groups := Dependency.requiredFiles_groups run
  rw [Script.exchanged, if_neg (by simp [ready.other]), List.flatMap_append]
  refine (exchanging_requireAll accepted ready recorded supplied run).bind
    fun imports between importing => ?_
  obtain ⟨files', groups', -, progress, -⟩ := ends_requireAll accepted ready importing
  suffices provided : Exchanging (start.provides.names.flatMap start.exchangedFor) provideAll between
    from provided.bind_quiet fun _ _ _ => .quiet_bind .get fun _ _ _ => .pure _
  refine .bind_of_ends (.get_same _) ?_
  have other : between.script.isRoot = false := by
    rw [progress.same]
    exact ready.other
  have provides : between.script.provides = start.provides := by
    rw [progress.same]
  rw [if_neg (by simp [other]), provides]
  -- so far only required names were redirected, and none of them is provided
  have fresh : ∀ name ∈ start.provides.names, name ∉ files'.flatMap Prod.snd := by
    intro name provided required
    obtain ⟨⟨path, names⟩, entry, member⟩ := List.mem_flatMap.mp required
    exact ready.apart name (groups'.within path names entry name member) provided
  rw [Ledger.names, List.flatMap_map]
  refine Exchanging.bind_quiet (.mapM fun done entry todo exports between parts ends => ?_)
    fun _ _ _ => .pure _
  obtain ⟨name, provide⟩ := entry
  have entry : (name, provide) ∈ start.provides := by
    rw [parts]
    simp
  have found := Ledger.get?_of_mem ready.provided_distinct entry
  obtain ⟨-, -, -, progress, -⟩ :=
    ends_provides ready fresh progress (parts ▸ List.prefix_append _ _) ends
  refine exchanging_provide ready (recorded name) found ?_ progress
  intro old
  rcases List.mem_append.mp old with old | old
  · exact fresh name (Ledger.mem_names_of_get? found) old
  · have distinct := ready.provided_distinct
    rw [parts, Ledger.names, List.map_append, List.map_cons] at distinct
    exact (List.nodup_append.mp distinct).2.2 name old name List.mem_cons_self rfl

/-- What is looked up while a module is written is there: the owner of each required name, the script of
each required file, and each node that is replaced, where the analysis has recorded it. -/
def Resolved (around : Surroundings) (start : Script) : Prop :=
  ∃ files, Dependency.requiredFiles around.index start = .ok files ∧
    (∀ path ∈ files.names, ∃ script, converted around path = .ok script) ∧
    Steady (start.exchanged files) ∧
    Exchanging (start.exchanged files) (write around) { script := start }

theorem resolved {around : Surroundings} (accepted : around.settings.Accepted) {start : Script}
    (ready : start.Ready around.settings) (recorded : ∀ name, (start.recorded name).Nodup)
    (supplied : Supplied around start) : Resolved around start := by
  obtain ⟨files, run⟩ := Dependency.exists_requiredFiles fun name needed =>
    (supplied name needed).imp fun path => And.left
  refine ⟨files, run, fun path known => ?_,
    ready.steady_exchanged recorded (Dependency.requiredFiles_perm run),
    exchanging_write accepted ready recorded supplied run⟩
  have groups := Dependency.requiredFiles_groups run
  obtain ⟨⟨_, group⟩, entry, rfl⟩ := List.mem_map.mp known
  obtain ⟨name, own⟩ := List.exists_mem_of_ne_nil _ (groups.filled _ group entry)
  obtain ⟨owner, owned, script, found⟩ := supplied name (groups.within _ group entry name own)
  cases (groups.owned _ group entry name own).symm.trans owned
  exact ⟨script, found⟩

theorem resolved_root {around : Surroundings} {start : Script} (root : start.isRoot = true)
    (requires : start.requires = []) : Resolved around start := by
  have none : Dependency.requiredFiles around.index start = .ok [] := by
    rw [Dependency.requiredFiles, requires]
    rfl
  have unchanged : start.exchanged [] = [] := by
    simp [Script.exchanged, root]
  refine ⟨[], none, by simp, unchanged ▸ .nil, ?_⟩
  rw [unchanged]
  have nothing : Ends (requireAll around) { script := start } [] { script := start } := by
    simp [requireAll, none]
  refine .bind_of_ends nothing (.quiet_bind (.bind_of_ends (.get_same _) ?_) fun _ _ _ =>
    .quiet_bind .get fun _ _ _ => .pure _)
  rw [if_pos root]
  exact .pure _

end Draft

end ScriptModules
