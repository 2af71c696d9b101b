import ScriptModules.Proofs.Analysis.Origin
import ScriptModules.Proofs.Conversion.Grammar
import ScriptModules.Proofs.Conversion.Names
import ScriptModules.Proofs.Module.Scope

/-!
# Captured names

What a conversion inserts into a file stands in generated statements and in place of accesses
(`Module.Inserts`). It looks at no scopes of the file there, so an inserted name may be bound by the
source. Generated declarations bind neither `require` nor `exports`: where one of these names is
captured, the source binds it at the top level or around the access that was replaced
(`captures_in_source`).
-/

namespace ScriptModules

open ScriptModules.Tree
open Access (isAccess accessedName Plain)

/-! ## What is inserted -/

namespace Module

/-- A position in the program of a module that the conversion fills: in a generated statement, or in
what stands for an access in the tree that the body is made of. For an access its site in this tree is
given. -/
inductive Inserts (written : Module) (globalName : String) (tree : Node) :
    Position → Option Position → Prop
  | statement {index : Nat} {rest : Position} {node : Node}
      (here : written.program.children[index]? = some node) (generated : node ∈ written.generated) :
      Inserts written globalName tree (index :: rest) none
  | access {site below : Position} {node : Node} (here : tree.at? site = some node)
      (access : isAccess globalName node = true) :
      Inserts written globalName tree (written.place site ++ below) (some site)

theorem generated_or_body {written : Module} {index : Nat} {node : Node}
    (here : written.program.children[index]? = some node) :
    node ∈ written.generated ∨ ∃ offset, written.body[offset]? = some node ∧
      index = written.imports.length + written.helpers.length +
        written.exports.declarations.length + offset := by
  have before : (written.imports.map Prod.snd ++ written.helpers ++
      written.exports.declarations).length = written.imports.length + written.helpers.length +
        written.exports.declarations.length := by
    simp only [List.length_append, List.length_map]
  rw [children_program, List.append_assoc, List.getElem?_append, before] at here
  split at here
  · exact .inl (List.mem_append_left _ (List.mem_of_getElem? here))
  · rw [List.getElem?_append] at here
    split at here
    · exact .inr ⟨_, here, by omega⟩
    · exact .inl (List.mem_append_right _ (List.mem_of_getElem? here))

end Module

/-! ## Identifiers in place of accesses -/

theorem Tree.Node.at?_access {base node : Node} {key name : String} {p : Position}
    (here : (Node.access base key).at? p = some node) (form : node.form = .identifier name) :
    ∃ q, base.at? q = some node := by
  match p with
  | [] =>
      cases here
      cases form
  | 0 :: q => exact ⟨q, here⟩
  | 1 :: [] =>
      cases here
      cases form
  | 1 :: _ :: _ => cases here
  | (_ + 2) :: _ => cases here

theorem Tree.Node.at?_identifier {node : Node} {own name : String} {p : Position}
    (here : (Node.identifier own).at? p = some node) (form : node.form = .identifier name) :
    own = name := by
  match p with
  | [] =>
      cases here
      cases form
      rfl
  | _ :: _ => cases here

theorem Import.mem_locals_of_base {required : Import} {p : Position} {node : Node} {name : String}
    (here : required.base.at? p = some node) (form : node.form = .identifier name) :
    name ∈ required.locals := by
  obtain ⟨path, names, specifier, binding, getter⟩ := required
  cases getter with
  | none =>
      have named : binding = name := Node.at?_identifier here form
      exact List.mem_singleton.mpr named.symm
  | some getter =>
      have named : binding = name ∨ getter = name := by
        match p with
        | 0 :: 0 :: _ => exact .inl (Node.at?_identifier (by exact here) form)
        | 0 :: 1 :: 0 :: _ => exact .inr (Node.at?_identifier (by exact here) form)
        | [] | [0] | [0, 1] | [0, 1, 1] =>
            cases here
            cases form
        | 0 :: 1 :: 1 :: _ :: _ | 0 :: 1 :: (_ + 2) :: _ | 0 :: (_ + 2) :: _ | (_ + 1) :: _ =>
            cases here
      rcases named with rfl | rfl <;> simp [locals]

variable {around : Surroundings} {checked start after : Script} {written : Module}
  {provides : Ledger Provide} {settings : Settings} {sources : Ledger String}

namespace Written

/-- The body of a module, comments aside, is the tree from before the marking with its accesses
substituted. All names that this brings into its scopes are generated. -/
theorem body_made (made : Written around start after written)
    (sound : checked.tree.Sound) (program : checked.tree.form = .program)
    (classified : Access.Classified around.settings checked start provides) :
    ∃ bound : String → String,
      Plain (Node.declaresAll written.generated) (written.standIn start.provides bound) ∧
      written.body.map Node.bare = (Access.substitute around.settings.globalName
        (written.standIn start.provides bound) checked.tree).children.map Node.bare := by
  obtain ⟨bound, -, declarations, body, -⟩ := made.parts sound program classified
  have plain := written.plain_standIn start.provides bound
  rw [← declarations] at plain
  refine ⟨bound, plain.of_subset fun name member => ?_, body⟩
  simp [Module.generated, member]

theorem identifier_standIn (made : Written around start after written) {bound : String → String}
    (plain : Plain (Node.declaresAll written.generated) (written.standIn start.provides bound))
    {accessed : String} {site : Position} (recorded : site ∈ start.recorded accessed)
    {p : Position} {node : Node}
    (here : (written.standIn start.provides bound accessed).at? p = some node) {name : String}
    (form : node.form = .identifier name) : name ∈ Node.declaresAll written.generated ∨
      name = "exports" ∧ accessed ∈ start.provides.names := by
  have brought := plain.name accessed name
  unfold Module.standIn at here brought
  split at here
  · rename_i provide own
    split at here
    · rename_i hoistable
      obtain rfl := Node.at?_identifier here form
      rw [own] at brought
      exact .inl (brought (by simp [hoistable, Node.identifier, Node.of, Form.name?]))
    · obtain ⟨q, here⟩ := Node.at?_access here form
      exact .inr ⟨(Node.at?_identifier here form).symm, Ledger.mem_names_of_get? own⟩
  · rename_i absent
    have needed := Access.required_of_recorded absent recorded
    split at here
    · rename_i required found
      obtain ⟨q, here⟩ := Node.at?_access here form
      exact .inl (made.mem_declaresAll_generated (List.mem_of_find?_eq_some found)
        (Import.mem_locals_of_base here form))
    · rename_i missing
      obtain ⟨required, inside, own, -⟩ := made.import_of_required needed
      exact absurd own (by simpa using List.find?_eq_none.mp missing required inside)

/-! ## Scopes of the program -/

theorem scope_program (made : Written around start after written)
    (sound : checked.tree.Sound) (program : checked.tree.form = .program)
    (classified : Access.Classified around.settings checked start provides) :
    written.program.scope ⊆ checked.tree.scope ++ Node.declaresAll written.generated := by
  obtain ⟨bound, plain, body⟩ := made.body_made sound program classified
  have other : isAccess around.settings.globalName checked.tree = false := by
    simp [isAccess, program]
  have within := Access.substitute_scope plain other
  rw [Node.scope_of_program (Access.substitute_program program), ← Node.hoistedAll_bares,
    Node.bares_eq_map, ← body, ← Node.bares_eq_map, Node.hoistedAll_bares] at within
  have outside := Node.hoistedAll_subset_declaresAll written.generated
  intro name member
  rw [Node.scope_of_program rfl, Module.children_program] at member
  have generated : name ∈ Node.hoistedAll written.generated ∨
      name ∈ Node.hoistedAll written.body := by
    simp only [Module.generated, Node.hoistedAll_eq_flatMap, List.flatMap_append,
      List.mem_append] at member ⊢
    tauto
  exact generated.elim (fun member => List.mem_append_right _ (outside member)) (@within name)

theorem bindings_generated (made : Written around start after written)
    (sound : checked.tree.Sound) (program : checked.tree.form = .program)
    (classified : Access.Classified around.settings checked start provides)
    (helpers : ∀ helper ∈ start.helpers, helper.bindings = []) :
    ∀ node ∈ written.generated, node.bindings = [] := by
  obtain ⟨bound, imports, declarations, -, statements⟩ := made.parts sound program classified
  intro node member
  rw [Module.generated, imports, made.helpers, declarations, statements] at member
  simp only [List.mem_append, List.mem_flatMap] at member
  rcases member with ((member | member) | ⟨entry, -, member⟩) | ⟨entry, -, member⟩
  · obtain ⟨required, -, rfl⟩ := List.mem_map.mp member
    exact required.1.bindings_tree
  · exact helpers node member
  · exact (entry.2.kind.bindings_exportOf _ _).1 node member
  · exact (entry.2.kind.bindings_exportOf _ _).2 node member

/-- The place of an access in the program is taken by what stands for it, and no names are bound
there but those around the access, and generated ones. -/
theorem program_site (made : Written around start after written)
    (sound : checked.tree.Sound) (program : checked.tree.form = .program)
    (classified : Access.Classified around.settings checked start provides)
    {site : Position} {node : Node} (here : checked.tree.at? site = some node)
    (access : isAccess around.settings.globalName node = true) (below : Position) :
    ∃ bound : String → String,
      Plain (Node.declaresAll written.generated) (written.standIn start.provides bound) ∧
      (written.program.at? (written.place site ++ below)).map Node.form =
        ((written.standIn start.provides bound (accessedName node)).at? below).map Node.form ∧
      written.program.boundAt (written.place site ++ below) ⊆
        checked.tree.boundAt site ++ Node.declaresAll written.generated := by
  obtain ⟨bound, plain, body⟩ := made.body_made sound program classified
  obtain ⟨visit, found, rfl, rfl⟩ := Access.exists_visit program here access
  have leaf := (Access.leafAccessAt_of_mem_accesses sound classified.named found).1
  have inner : visit.position ≠ [] := by
    obtain ⟨base, access, -⟩ := leaf
    exact access.inner program
  obtain ⟨there, within⟩ := Access.substitute_site plain here access
    fun p above below apart place => by
      -- accesses do not stand in each other
      by_contra access'
      rw [Bool.not_eq_false] at access'
      obtain ⟨visit', found', rfl, rfl⟩ := Access.exists_visit program place access'
      have leaf' := (Access.leafAccessAt_of_mem_accesses sound classified.named found').1
      exact apart (leaf'.not_below leaf below)
  obtain ⟨found', around⟩ := Module.body_place body inner there
  obtain ⟨forms, names⟩ := Node.below_of_silent found' (plain.bindings _) below
  refine ⟨bound, plain, forms, ?_⟩
  rw [names]
  have scopes := made.scope_program sound program classified
  have outer : checked.tree.scope ⊆ checked.tree.boundAt visit.position := by
    obtain ⟨index, rest, same⟩ := List.exists_cons_of_ne_nil inner
    rw [same, Node.boundAt]
    exact List.subset_append_left _ _
  intro name member
  rcases List.mem_append.mp (around member) with member | member
  · have known := scopes member
    simp only [List.mem_append] at known ⊢
    exact known.imp_left (@outer name)
  · exact within member

theorem inserts_or_kept (made : Written around start after written)
    (sound : checked.tree.Sound) (program : checked.tree.form = .program)
    (classified : Access.Classified around.settings checked start provides)
    {p : Position} {node : Node} (here : written.program.at? p = some node) (inner : p ≠ []) :
    (∃ site?, written.Inserts around.settings.globalName checked.tree p site?) ∨
      ∃ site old, p = written.place site ∧ checked.tree.at? site = some old ∧
        old.form = node.form := by
  obtain ⟨bound, -, body⟩ := made.body_made sound program classified
  obtain ⟨index, rest, rfl⟩ := List.exists_cons_of_ne_nil inner
  rw [Node.at?_cons] at here
  obtain ⟨child, place, below⟩ := Option.bind_eq_some_iff.mp here
  rcases Module.generated_or_body place with generated | ⟨offset, place', rfl⟩
  · exact .inl ⟨none, .statement place generated⟩
  · obtain ⟨node', found, same⟩ := Module.exists_of_body body place' below
    rcases Access.at?_substitute found with ⟨site, further, old, parts, found, access⟩ |
      ⟨old, found, same'⟩
    · have inner : site ≠ [] := by
        rintro rfl
        rw [Node.at?_nil, Option.some.injEq] at found
        rw [← found, isAccess, program] at access
        cases access
      refine .inl ⟨some site, ?_⟩
      have inserts : written.Inserts around.settings.globalName checked.tree
          (written.place site ++ further) (some site) := .access found access
      rw [← written.place_append inner, ← parts] at inserts
      exact inserts
    · exact .inr ⟨offset :: rest, old, rfl, found, same'.trans same⟩

theorem bound_statement (made : Written around start after written)
    (sound : checked.tree.Sound) (program : checked.tree.form = .program)
    (classified : Access.Classified around.settings checked start provides)
    (helpers : ∀ helper ∈ start.helpers, helper.bindings = []) {index : Nat} {rest : Position}
    {node : Node} (place : written.program.children[index]? = some node)
    (stated : node ∈ written.generated) {name : String}
    (bound : name ∈ written.program.boundAt (index :: rest)) :
    name ∈ checked.tree.scope ∨ name ∈ Node.declaresAll written.generated := by
  rw [Node.boundAt_cons place] at bound
  have silent := made.bindings_generated sound program classified helpers _ stated
  rcases List.mem_append.mp bound with member | member
  · exact List.mem_append.mp (made.scope_program sound program classified member)
  · have member := Node.boundAt_subset_bindings _ _ member
    rw [silent] at member
    cases member

/-- Around an identifier that stands for an access, the names are bound that were bound around the
access, and generated ones. Unless it is generated itself, the accessed name is one that the script
assigns. -/
theorem bound_access (made : Written around start after written)
    (sound : checked.tree.Sound) (program : checked.tree.form = .program)
    (classified : Access.Classified around.settings checked start provides)
    {site below : Position} {node : Node} (found : checked.tree.at? site = some node)
    (access : isAccess around.settings.globalName node = true) {name : String}
    (here : (written.program.at? (written.place site ++ below)).map Node.form =
      some (.identifier name))
    (bound : name ∈ written.program.boundAt (written.place site ++ below)) :
    (name ∈ checked.tree.boundAt site ∧
        Access.Assigns around.settings.globalName checked.tree (accessedName node)) ∨
      name ∈ Node.declaresAll written.generated := by
  obtain ⟨value, plain, forms, scopes⟩ :=
    made.program_site sound program classified found access below
  obtain ⟨inserted, within, form⟩ := Option.map_eq_some_iff.mp (forms ▸ here)
  have recorded : site ∈ start.recorded (accessedName node) := by
    obtain ⟨visit, met, rfl, rfl⟩ := Access.exists_visit program found access
    exact (classified.marks.recorded _ _).mpr ⟨visit, met, rfl, rfl⟩
  rcases made.identifier_standIn plain recorded within form with declared | ⟨-, provided⟩
  · exact .inr declared
  · rw [classified.marks.provided] at provided
    have assigned := (classified.collected.assigned _ provided).resolve_left (by simp)
    exact (List.mem_append.mp (scopes bound)).imp_left fun member => ⟨member, assigned⟩

end Written

/-! ## What the source binds -/

namespace Access

/-- A tree comes from a source without new names in its scopes: those of the program are the same or
less, and so are those around each access to a name that is provided, which the source has at its
origin. -/
structure Traced (settings : Settings) (source tree : Node) : Prop where
  scope : tree.scope ⊆ source.scope
  provided : ∀ site node, tree.at? site = some node →
    isAccess settings.globalName node = true →
      Assigns settings.globalName tree (accessedName node) → ∃ origin old,
        source.at? origin = some old ∧ isAccess settings.globalName old = true ∧
          TypeCheck.moved? settings source origin = some site ∧
          tree.boundAt site ⊆ source.boundAt origin

end Access

open Access (Traced)

theorem Script.withChunks_origin {chunks : Ledger String} {script : Script} {globalName : String}
    (program : script.tree.form = .program) {p : Position} {node : Node}
    (here : (script.withChunks settings chunks).tree.at? p = some node)
    (access : isAccess globalName node = true) :
    script.tree.at? p = some node ∧
      TypeCheck.moved? settings (script.withChunks settings chunks).tree p =
        TypeCheck.moved? settings script.tree p ∧
      (script.withChunks settings chunks).tree.boundAt p = script.tree.boundAt p := by
  unfold withChunks at here ⊢
  split at here
  · rename_i table
    obtain ⟨frame, properties, whole⟩ := (Chunks.holdsTable_iff_fill _).mp table.2.2
    rw [if_pos table]
    rw [whole] at program here ⊢
    rw [Chunks.addAll_fill] at here ⊢
    exact Chunks.access_fill program here access
  · rename_i table
    rw [if_neg table]
    exact ⟨here, rfl, rfl⟩

theorem Script.scope_withChunks {chunks : Ledger String} {script : Script}
    (program : script.tree.form = .program) :
    (script.withChunks settings chunks).tree.scope = script.tree.scope := by
  unfold withChunks
  split
  · rename_i table
    obtain ⟨frame, properties, whole⟩ := (Chunks.holdsTable_iff_fill _).mp table.2.2
    rw [whole] at program ⊢
    rw [Chunks.addAll_fill]
    exact Chunks.scope_fill program properties chunks
  · rfl

/-- The tree that accesses are substituted in comes from the source without new names in its
scopes. -/
theorem Script.Opened.traced {read checked : Script} {events : List Event}
    (opened : read.Opened settings sources) (merged : read.Merged settings sources)
    (replaced : TypeCheck.replace settings read = .ok (checked, events)) : ∃ source,
      Corpus.Parses sources read.path source ∧ Traced settings source checked.tree := by
  obtain ⟨first, chunks, parses, rfl⟩ := merged.exists_read
  have program : first.tree.form = .program := by
    obtain ⟨_, _, _, _, parsed⟩ := parses
    rw [parse?_eq_program parsed]
    rfl
  refine ⟨first.tree, parses, ?_, fun site node here access assigns => ?_⟩
  · have less := TypeCheck.replace_scope opened.sound opened.taken opened.program replaced
    rwa [Script.scope_withChunks program] at less
  · have named := TypeCheck.replace_assigns opened.sound opened.taken opened.program replaced assigns
    obtain ⟨origin, old, found, access, moved, less⟩ := TypeCheck.replace_origin opened.sound
      opened.taken opened.program replaced named here access
    obtain ⟨there, moved', bound⟩ := Script.withChunks_origin program found access
    exact ⟨origin, old, there, access, moved' ▸ moved, bound ▸ less⟩

/-- A source binds a name for what is inserted into the tree that comes from it: at the top level, or
around the access at a site. Around an access it is bound in the tree, and at the place in the source
that the access was moved from. -/
def Tree.Node.BindsFor (settings : Settings) (source tree : Node) (name : String) :
    Option Position → Prop
  | none => name ∈ source.scope
  | some site => name ∈ tree.boundAt site ∧ ∃ origin old,
      source.at? origin = some old ∧ isAccess settings.globalName old = true ∧
        TypeCheck.moved? settings source origin = some site ∧ name ∈ source.boundAt origin

/-- The names of the module system and of the globals that generated code refers to. -/
def Module.outerNames : List String :=
  ["require", "exports", "Object"]

/-- What captures the outer names that are inserted into a module. -/
structure Module.Captures (written : Module) (settings : Settings) (source tree : Node) : Prop where
  kept : ∀ p node, written.program.at? p = some node → p ≠ [] →
    (∃ site?, written.Inserts settings.globalName tree p site?) ∨
      ∃ site old, p = written.place site ∧ tree.at? site = some old ∧ old.form = node.form
  /-- An inserted name is captured by the source, unless a generated declaration takes the name of a
  global. -/
  captured : ∀ p site?, written.Inserts settings.globalName tree p site? → ∀ name ∈ outerNames,
    (written.program.at? p).map Node.form = some (.identifier name) →
      name ∈ written.program.boundAt p → source.BindsFor settings tree name site? ∨
        name = "Object" ∧ name ∈ Node.declaresAll written.generated

theorem Written.captures (made : Written around start after written)
    (sound : checked.tree.Sound) (program : checked.tree.form = .program)
    (classified : Access.Classified around.settings checked start provides)
    (helpers : ∀ helper ∈ start.helpers, helper.bindings = [])
    (unreserved : ∀ name ∈ Node.declaresAll written.generated, name ∉ Text.reservedWords)
    {source : Node} (traced : Traced around.settings source checked.tree) :
    written.Captures around.settings source checked.tree where
  kept := fun p node => made.inserts_or_kept sound program classified
  captured := by
    intro p site? inserts name outer here bound
    -- of the outer names, only that of a global is not reserved
    have generated (declared : name ∈ Node.declaresAll written.generated) :
        name = "Object" ∧ name ∈ Node.declaresAll written.generated := by
      refine ⟨?_, declared⟩
      have free := unreserved name declared
      simp only [Module.outerNames, List.mem_cons, List.not_mem_nil, or_false] at outer
      rcases outer with rfl | rfl | rfl
      · exact absurd (by decide) free
      · exact absurd (by decide) free
      · rfl
    cases inserts with
    | statement place stated =>
        exact (made.bound_statement sound program classified helpers place stated bound).imp
          (@traced.scope name) generated
    | access found access =>
        refine (made.bound_access sound program classified found access here bound).imp ?_ generated
        rintro ⟨member, assigned⟩
        obtain ⟨origin, old, there, access, moved, less⟩ :=
          traced.provided _ _ found access assigned
        exact ⟨member, origin, old, there, access, moved, less member⟩

namespace Conversion

/-- Where an outer name is captured that a conversion inserts, the source binds it, or it is that of
a global and some generated declaration has the name. -/
theorem captures_in_source (accepted : settings.Accepted) {withGraph : Bool}
    {log log' : List LogLine} {report : Report}
    (ends : Ends (run settings sources withGraph) log report log') :
    ∀ written ∈ report.modules, written.1.path ≠ settings.rootPath →
      ∃ source read checked events, Corpus.Parses sources written.1.path source ∧
        read.path = written.1.path ∧ read.Merged settings sources ∧
        TypeCheck.replace settings read = .ok (checked, events) ∧
        written.1.Captures settings source checked.tree := by
  obtain ⟨final, ran, -⟩ := ends_run_iff.mp ends
  obtain ⟨rewritten, -⟩ := ran.rewritten accepted
  intro written member other
  obtain ⟨start, script, made⟩ := rewritten.made written.1 (List.mem_map_of_mem member)
  obtain ⟨_, -, unused⟩ := made.unused
  have root : start.isRoot = false := by
    rw [made.surveyed.rooted, made.path_eq]
    simpa using other
  obtain ⟨read, opened, merged, becomes⟩ := made.surveyed.origin
  have samePath : read.path = written.1.path := by rw [← made.path_eq, becomes.same]
  have sameRoot : start.isRoot = read.isRoot := by rw [becomes.same]
  obtain ⟨checked, events, replaced, classified⟩ := becomes
  have kept := TypeCheck.replace_checked opened.sound opened.taken replaced
  have unmarked : checked.isRoot = false := by
    rw [TypeCheck.replace_same replaced, ← root, sameRoot]
  obtain ⟨provides, marked⟩ :=
    Access.classify_classified (opened.unread_checked replaced) unmarked classified
  obtain ⟨source, parses, traced⟩ := opened.traced merged replaced
  have helpers : ∀ helper ∈ start.helpers, helper.bindings = [] := by
    rw [Access.classify_same classified]
    have helpers := TypeCheck.replace_bindings opened.sound opened.taken replaced
    exact fun helper inside => (helpers helper inside).resolve_left (by simp [opened.helpers])
  rw [← rewritten.given] at marked traced ⊢
  exact ⟨source, read, checked, events, samePath ▸ parses, samePath, rewritten.given ▸ merged,
    rewritten.given ▸ replaced,
    (made.other root).captures kept.sound (kept.form.trans opened.program) marked helpers
      (fun name declared => (unused.free name declared).2) traced⟩

def wrappedSources : Ledger String :=
  [("a.js", "(function (exports) \x7b THREE.A = foo(); \x7d)(\x7b\x7d);")]

def wrappedSite : Position :=
  [0, 0, 0, 0, 1, 0, 0]

theorem evaluate_wrappedSources : ((evaluate {} wrappedSources false).any fun (report, _) =>
    decide (∃ written ∈ report.modules, written.1.path = "./a.js" ∧
      (written.1.program.at? (written.1.place wrappedSite ++ [0])).map Node.form =
        some (.identifier "exports") ∧
      "exports" ∈ written.1.program.boundAt (written.1.place wrappedSite ++ [0]))) = true := by
  decide +kernel

theorem parses_wrappedSources : ∃ source node, Corpus.Parses wrappedSources "./a.js" source ∧
    source.at? wrappedSite = some node ∧ isAccess "THREE" node = true := by
  have parsed : ((Node.parse? "(function (exports) \x7b THREE.A = foo(); \x7d)(\x7b\x7d);").any
      fun source => (source.at? wrappedSite).any (isAccess "THREE")) = true := by
    decide +kernel
  obtain ⟨source, parsed, found⟩ := (Option.any_eq_true _ _).mp parsed
  obtain ⟨node, here, access⟩ := (Option.any_eq_true _ _).mp found
  have normalized : Corpus.normalizeSources wrappedSources =
      .ok [("./a.js", "(function (exports) \x7b THREE.A = foo(); \x7d)(\x7b\x7d);")] := by
    decide +kernel
  exact ⟨source, node, ⟨_, _, normalized, rfl, parsed⟩, here, access⟩

theorem captures_in_source_wrappedSources : ∃ report log,
    Ends (run {} wrappedSources false) [] report log ∧
      ∃ written ∈ report.modules, written.1.path = "./a.js" ∧ ∃ source tree,
        Corpus.Parses wrappedSources "./a.js" source ∧
          written.1.Captures {} source tree := by
  obtain ⟨⟨report, final⟩, evaluated, holds⟩ := (Option.any_eq_true _ _).mp evaluate_wrappedSources
  obtain ⟨written, member, path, -⟩ := of_decide_eq_true holds
  have ends := ends_run_iff.mpr ⟨final, ran_of_evaluate evaluated, rfl⟩
  obtain ⟨source, read, checked, events, parses, -, -, -, captures⟩ :=
    captures_in_source Settings.accepted_standard ends written member (by rw [path]; decide)
  exact ⟨report, final.log, ends, written, member, path, source, checked.tree, path ▸ parses,
    captures⟩

/-- The parameter of a function in the source captures the exports that are inserted in it. -/
theorem parameter_captures : ∃ report final written source p,
    Ran {} wrappedSources false [] report final ∧ written ∈ report.modules ∧
      written.1.path = "./a.js" ∧ Corpus.Parses wrappedSources "./a.js" source ∧
      written.1.Inserts "THREE" source p (some wrappedSite) ∧
      (written.1.program.at? p).map Node.form = some (.identifier "exports") ∧
      "exports" ∈ written.1.program.boundAt p := by
  obtain ⟨⟨report, final⟩, evaluated, holds⟩ := (Option.any_eq_true _ _).mp evaluate_wrappedSources
  obtain ⟨written, member, path, here, bound⟩ := of_decide_eq_true holds
  obtain ⟨source, node, parses, found, access⟩ := parses_wrappedSources
  exact ⟨report, final, written, source, _, ran_of_evaluate evaluated, member, path, parses,
    .access found access, here, bound⟩

end Conversion

end ScriptModules
