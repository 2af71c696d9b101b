import ScriptModules.Proofs.Conversion.Owners
import ScriptModules.Proofs.Module.EntryPoint

namespace ScriptModules

open ScriptModules.Tree
open Dependency (scriptAt?)

theorem Script.Surveyed.isWord_of_provided {settings : Settings} {sources : Ledger String}
    {script : Script} (surveyed : script.Surveyed settings sources)
    (words : ∀ name ∈ settings.rootNames, IsWord name) :
    ∀ name ∈ script.provides.names, IsWord name := by
  intro name provided
  cases root : script.isRoot with
  | true =>
      rcases surveyed.root_words root name provided with given | word
      · exact words name given
      · exact word
  | false => exact (surveyed.words root name (.inl provided)).1

namespace Conversion

structure Forwards (entry : EntryPoint) (scripts : List Script) (forwarding : Forwarding) : Prop where
  leads : forwarding.Leads entry.path entry.extension
  provides : ∃ script ∈ scripts, forwarding.path = script.path ∧
    forwarding.names = script.provides.names

theorem ends_addScripts {scripts : List Script}
    (words : ∀ script ∈ scripts, ∀ name ∈ script.provides.names, IsWord name)
    {before after : EntryPoint} (ends : Ends (addScripts scripts) before ⟨⟩ after) :
    ∃ forwardings : List Forwarding,
      forwardings.map Forwarding.path = scripts.map Script.path ∧
      (∀ forwarding ∈ forwardings, Forwards before scripts forwarding) ∧
      Text.Unused before.aliases (forwardings.flatMap fun forwarding => forwarding.bound.toList) ∧
      after.statements = before.statements ++ forwardings.flatMap Forwarding.statements := by
  induction scripts generalizing before with
  | nil =>
      obtain rfl := Ends.forM_nil_iff.mp ends
      exact ⟨[], rfl, by simp, .nil _, by simp⟩
  | cons script scripts ih =>
      obtain ⟨between, first, rest⟩ := Ends.forM_cons_iff.mp ends
      obtain ⟨forwarding, path, names, leads, unused, rfl⟩ :=
        EntryPoint.ends_add (words script List.mem_cons_self) first
      obtain ⟨forwardings, paths, forwards, unused', statements⟩ :=
        ih (fun one member => words one (List.mem_cons_of_mem _ member)) rest
      refine ⟨forwarding :: forwardings, by simp [path, paths], ?_, unused.append unused', ?_⟩
      · intro one member
        rcases List.mem_cons.mp member with rfl | later
        · exact ⟨leads, script, List.mem_cons_self, path, names⟩
        · obtain ⟨leads, other, known, provides⟩ := forwards one later
          exact ⟨leads, other, List.mem_cons_of_mem _ known, provides⟩
      · rw [statements, List.flatMap_cons, List.append_assoc]

theorem last_assignment {before after : List Forwarding} {forwarding : Forwarding} {name : String}
    (distinct : forwarding.names.Nodup) (provided : name ∈ forwarding.names)
    (absent : ∀ later ∈ after, name ∉ later.names) : ∃ first rest,
      (before ++ forwarding :: after).flatMap Forwarding.assignments =
          first ++ (name, .access forwarding.source name) :: rest ∧
        ∀ later ∈ rest, later.1 ≠ name := by
  obtain ⟨ahead, behind, parts⟩ := List.append_of_mem provided
  refine ⟨before.flatMap Forwarding.assignments ++
      ahead.map (fun name => (name, .access forwarding.source name)),
    behind.map (fun name => (name, .access forwarding.source name)) ++
      after.flatMap Forwarding.assignments, ?_, ?_⟩
  · simp [Forwarding.assignments, parts]
  · rintro later member rfl
    rcases List.mem_append.mp member with own | other
    · obtain ⟨again, known, rfl⟩ := List.mem_map.mp own
      rw [parts] at distinct
      have fresh := (List.nodup_cons.mp (List.nodup_append.mp distinct).2.1).1
      exact fresh known
    · obtain ⟨file, known, assigned⟩ := List.mem_flatMap.mp other
      obtain ⟨again, inside, rfl⟩ := List.mem_map.mp assigned
      exact absent file known inside

theorem Writing.forwards {settings : Settings} {sources : Ledger String}
    (words : ∀ name ∈ settings.rootNames, IsWord name) {first final : Workspace}
    (passed : Passed settings sources first) {modules : List Module}
    (writing : Writing settings sources first first.live modules final) :
    ∃ forwardings : List Forwarding, forwardings.map Forwarding.path = final.live ∧
      final.entry.statements = forwardings.flatMap Forwarding.statements ∧
      Text.Unused [] (forwardings.flatMap fun forwarding => forwarding.bound.toList) ∧
      ∀ forwarding ∈ forwardings, forwarding.names.Nodup ∧
        forwarding.Leads settings.entryPath settings.codeExtension ∧
        ∃ script, scriptAt? final.scripts forwarding.path = some script ∧
          forwarding.names = script.provides.names := by
  obtain ⟨starts, paths, inside, adding⟩ := writing.entry
  have surveyed : ∀ start ∈ starts, start.Surveyed settings sources := by
    intro start member
    have live : start.path ∈ first.live := paths ▸ List.mem_map_of_mem member
    obtain ⟨script, found, surveyed⟩ := passed.linked.surveyed start.path live
    cases (inside start member).symm.trans found
    exact surveyed
  obtain ⟨forwardings, files, forwards, unused, statements⟩ :=
    ends_addScripts (fun start member => (surveyed start member).isWord_of_provided words) adding
  rw [passed.opening] at forwards unused statements
  refine ⟨forwardings, files.trans (paths.trans writing.alike.live.symm), statements, unused, ?_⟩
  intro forwarding member
  obtain ⟨leads, start, known, path, names⟩ := forwards forwarding member
  obtain ⟨script, found, outline⟩ := writing.alike.scriptAt?_eq_some (inside start known)
  have same : script.outline.provides = start.outline.provides := congrArg _ outline
  refine ⟨names ▸ (surveyed start known).provided_distinct, leads, script, path ▸ found, ?_⟩
  rw [names, show script.provides = start.provides from same]

/-- What the entry point of a report holds: the files of the modules in their order, each with the
names that its script provides, and different aliases for them. The last assignment of a name that
the index knows is the one of the owner. -/
structure EntryForwards (settings : Settings) (report : Report) (final : Workspace)
    (entry : Node) (forwardings : List Forwarding) : Prop where
  code : report.entryCode = entry.render settings.indent
  statements : entry = .program (forwardings.flatMap Forwarding.statements)
  files : forwardings.map Forwarding.path = report.modules.map fun written => written.1.path
  provides : ∀ forwarding ∈ forwardings, forwarding.names.Nodup ∧
    forwarding.Leads settings.entryPath settings.codeExtension ∧
    ∃ script, scriptAt? final.scripts forwarding.path = some script ∧
      forwarding.names = script.provides.names
  aliases : (forwardings.flatMap fun forwarding => forwarding.bound.toList).Nodup ∧
    ∀ forwarding ∈ forwardings, ∀ bound ∈ forwarding.bound, bound ∉ Text.reservedWords
  assignments : entry.exportAssignments = forwardings.flatMap Forwarding.assignments
  owners : ∀ name path, report.index.owner? name = some path →
    ∃ forwarding ∈ forwardings, forwarding.path = path ∧ ∃ before after,
      entry.exportAssignments = before ++ (name, .access forwarding.source name) :: after ∧
        ∀ later ∈ after, later.1 ≠ name

end Conversion

end ScriptModules
