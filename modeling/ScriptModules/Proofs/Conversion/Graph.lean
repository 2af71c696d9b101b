import ScriptModules.Proofs.Conversion.Cycles
import ScriptModules.Proofs.Conversion.Faults
import ScriptModules.Proofs.Conversion.Order
import ScriptModules.Proofs.Conversion.Recording

namespace ScriptModules

open ScriptModules.Tree
open Dependency (scriptAt? numberAt? requiredFiles requiredNames Graph)
open Text.Quoted (quote)

/-! ## Edges by the files that they join -/

namespace Dependency

def GraphEdge.ends (edge : GraphEdge) : Option Nat × Option Nat :=
  (some edge.source, some edge.target)

variable {index : Index} {files : List Script}

theorem edgesFrom_ends {script : Script} {required : Ledger (List String)}
    (found : requiredFiles index script = .ok required) {edges : List GraphEdge}
    (run : Graph.edgesFrom index files script = .ok edges) :
    edges.map GraphEdge.ends =
      required.names.map fun path => (some script.id, numberAt? files path) := by
  rw [Graph.edgesFrom, found] at run
  refine mapM_map (fun path _ edge made => ?_) run
  unfold Graph.edgeTo at made
  split at made
  · rename_i target found
    cases made
    rw [numberAt?, found]
    rfl
  · cases made

theorem Graph.build_ends {targets : Script → List String}
    (known : ∀ script ∈ files, ∃ required, requiredFiles index script = .ok required ∧
      required.names = targets script) {graph : Graph} (run : Graph.build index files = .ok graph) :
    graph.nodes = files.map (nodeOf graph.edges) ∧
      graph.edges.map GraphEdge.ends = files.flatMap fun script =>
        (targets script).map fun path => (some script.id, numberAt? files path) := by
  obtain ⟨edges, joined, run⟩ := bind_eq_ok_iff.mp run
  cases run
  refine ⟨rfl, ?_⟩
  rw [List.map_flatten, List.flatMap]
  refine congrArg List.flatten (mapM_map (fun script member edges run => ?_) joined)
  obtain ⟨required, found, names⟩ := known script member
  rw [edgesFrom_ends found run, names]

end Dependency

/-! ## Pairs of files -/

def Report.requires (report : Report) : List (String × String) :=
  report.modules.flatMap fun written =>
    written.1.imports.map fun required => (written.1.path, required.1.path)

def Workspace.dependents (workspace : Workspace) (path : String) : List String :=
  workspace.live.filter fun source =>
    (requiredNames workspace.scripts source).any fun name =>
      workspace.index.owner? name == some path

def Workspace.requiredPaths (workspace : Workspace) (path : String) : List String :=
  ((scriptAt? workspace.scripts path).bind fun script =>
    (requiredFiles workspace.index script).toOption).elim [] Ledger.names

namespace Workspace

variable {workspace : Workspace} {path : String} {script : Script}
  {required : Ledger (List String)}

theorem requiredPaths_eq (found : scriptAt? workspace.scripts path = some script)
    (run : requiredFiles workspace.index script = .ok required) :
    workspace.requiredPaths path = required.names := by
  rw [requiredPaths, found, Option.bind_some, run]
  rfl

theorem nodup_requiredPaths (workspace : Workspace) (path : String) :
    (workspace.requiredPaths path).Nodup := by
  unfold requiredPaths
  cases found : scriptAt? workspace.scripts path with
  | none => exact List.nodup_nil
  | some script =>
      cases run : requiredFiles workspace.index script with
      | error fault =>
          rw [Option.bind_some, run]
          exact List.nodup_nil
      | ok required =>
          rw [Option.bind_some, run]
          exact (Dependency.requiredFiles_groups run).distinct

theorem mem_requiredPaths (found : scriptAt? workspace.scripts path = some script)
    (run : requiredFiles workspace.index script = .ok required) {target : String} :
    target ∈ workspace.requiredPaths path ↔
      ∃ name ∈ requiredNames workspace.scripts path, workspace.index.owner? name = some target := by
  have groups := Dependency.requiredFiles_groups run
  rw [requiredPaths_eq found run, requiredNames, found, Option.map_some, Option.getD_some]
  constructor
  · intro member
    obtain ⟨⟨_, group⟩, entry, rfl⟩ := List.mem_map.mp member
    obtain ⟨name, own⟩ := List.exists_mem_of_ne_nil _ (groups.filled _ _ entry)
    exact ⟨name, groups.within _ _ entry name own, groups.owned _ _ entry name own⟩
  · rintro ⟨name, needed, owner⟩
    obtain ⟨path, group, entry, own⟩ := groups.covers name needed
    cases (groups.owned _ _ entry name own).symm.trans owner
    exact List.mem_map_of_mem entry

def pairs (workspace : Workspace) : List (String × String) :=
  workspace.live.flatMap fun path => (workspace.requiredPaths path).map fun target => (path, target)

theorem mem_pairs {pair : String × String} :
    pair ∈ workspace.pairs ↔ pair.1 ∈ workspace.live ∧ pair.2 ∈ workspace.requiredPaths pair.1 := by
  obtain ⟨source, target⟩ := pair
  simp [pairs, List.mem_flatMap]

theorem nodup_pairs (live : workspace.live.Nodup) : workspace.pairs.Nodup := by
  refine List.nodup_flatMap.mpr ⟨fun path _ => ?_, ?_⟩
  · exact (workspace.nodup_requiredPaths path).map fun _ _ same => (Prod.mk.inj same).2
  · refine live.imp fun different => List.disjoint_left.mpr fun pair here there => ?_
    obtain ⟨_, -, rfl⟩ := List.mem_map.mp here
    obtain ⟨_, -, same⟩ := List.mem_map.mp there
    exact different (Prod.mk.inj same).1.symm

structure Joined (workspace : Workspace) : Prop extends workspace.Ordered where
  found : ∀ path ∈ workspace.live, ∃ script required,
    scriptAt? workspace.scripts path = some script ∧
      requiredFiles workspace.index script = .ok required
  closed : ∀ pair ∈ workspace.pairs, pair.2 ∈ workspace.live

namespace Joined

variable (joined : workspace.Joined)

include joined

theorem live_of_mem_pairs {pair : String × String} (member : pair ∈ workspace.pairs) :
    pair.1 ∈ workspace.live ∧ pair.2 ∈ workspace.live :=
  ⟨(mem_pairs.mp member).1, joined.closed pair member⟩

theorem numberAt?_liveScripts {path : String} (live : path ∈ workspace.live) :
    numberAt? workspace.liveScripts path = numberAt? workspace.scripts path := by
  obtain ⟨script, -, found, -⟩ := joined.found path live
  have kept : scriptAt? workspace.liveScripts path = some script :=
    Dependency.scriptAt?_filter found (List.contains_iff_mem.mpr live)
  rw [numberAt?, numberAt?, kept, found]

theorem exists_number {path : String} (live : path ∈ workspace.live) :
    ∃ script ∈ workspace.liveScripts, script.path = path ∧
      numberAt? workspace.scripts path = some script.id := by
  rw [← joined.path_liveScripts] at live
  obtain ⟨script, member, rfl⟩ := List.mem_map.mp live
  exact ⟨script, member, rfl,
    Dependency.numberAt?_of_mem joined.unique (List.mem_of_mem_filter member)⟩

theorem numberAt?_inj {path other : String} (live : path ∈ workspace.live)
    (same : numberAt? workspace.scripts path = numberAt? workspace.scripts other) :
    path = other := by
  obtain ⟨script, -, -, number⟩ := joined.exists_number live
  exact Dependency.eq_of_numberAt? joined.numbered number (same ▸ number)

variable {graph : Graph} (built : Graph.build workspace.index workspace.liveScripts = .ok graph)

include built

theorem graph_eq : graph.nodes = workspace.liveScripts.map (Graph.nodeOf graph.edges) ∧
    graph.edges.map Dependency.GraphEdge.ends = workspace.pairs.map
      (Prod.map (numberAt? workspace.scripts) (numberAt? workspace.scripts)) := by
  have live {script : Script} (member : script ∈ workspace.liveScripts) :
      script.path ∈ workspace.live := List.contains_iff_mem.mp (List.mem_filter.mp member).2
  have known : ∀ script ∈ workspace.liveScripts, ∃ required,
      requiredFiles workspace.index script = .ok required ∧
        required.names = workspace.requiredPaths script.path := by
    intro script member
    obtain ⟨script', required, found, run⟩ := joined.found script.path (live member)
    have here := Dependency.scriptAt?_of_mem joined.unique (List.mem_of_mem_filter member)
    cases here.symm.trans found
    exact ⟨required, run, (requiredPaths_eq found run).symm⟩
  obtain ⟨nodes, edges⟩ := Graph.build_ends known built
  refine ⟨nodes, edges.trans ?_⟩
  rw [pairs, ← joined.path_liveScripts, List.flatMap_map, List.map_flatMap]
  refine List.flatMap_congr fun script member => ?_
  rw [List.map_map]
  refine List.map_congr_left fun target required => ?_
  have inside : target ∈ workspace.live :=
    joined.closed (script.path, target) (mem_pairs.mpr ⟨live member, required⟩)
  change _ = (numberAt? workspace.scripts script.path, numberAt? workspace.scripts target)
  rw [joined.numberAt?_liveScripts inside,
    Dependency.numberAt?_of_mem joined.unique (List.mem_of_mem_filter member)]

theorem exists_pair {edge : Dependency.GraphEdge} (member : edge ∈ graph.edges) :
    ∃ pair ∈ workspace.pairs, numberAt? workspace.scripts pair.1 = some edge.source ∧
      numberAt? workspace.scripts pair.2 = some edge.target := by
  have known : edge.ends ∈ graph.edges.map Dependency.GraphEdge.ends := List.mem_map_of_mem member
  rw [(joined.graph_eq built).2] at known
  obtain ⟨pair, inside, same⟩ := List.mem_map.mp known
  exact ⟨pair, inside, Prod.mk.inj same⟩

theorem nodup_edges : graph.edges.Nodup := by
  refine List.Nodup.of_map Dependency.GraphEdge.ends ?_
  rw [(joined.graph_eq built).2]
  refine (nodup_pairs (joined.unique.sublist joined.live)).map_on fun pair member other _ same => ?_
  obtain ⟨source, target⟩ := Prod.mk.inj same
  obtain ⟨live, live'⟩ := joined.live_of_mem_pairs member
  exact Prod.ext (joined.numberAt?_inj live source) (joined.numberAt?_inj live' target)

theorem value_nodeOf {script : Script} (member : script ∈ workspace.liveScripts) :
    (Graph.nodeOf graph.edges script).value = (workspace.dependents script.path).length := by
  have own := Dependency.numberAt?_of_mem joined.unique (List.mem_of_mem_filter member)
  have live : script.path ∈ workspace.live :=
    List.contains_iff_mem.mp (List.mem_filter.mp member).2
  have counted : (Graph.nodeOf graph.edges script).value =
      (workspace.pairs.filter fun pair => pair.2 == script.path).length := by
    have edges : (graph.edges.filter fun edge => edge.target == script.id).length =
        ((graph.edges.map Dependency.GraphEdge.ends).filter
          fun ends => ends.2 == some script.id).length := by
      rw [List.filter_map, List.length_map]
      rfl
    refine edges.trans ?_
    rw [(joined.graph_eq built).2, List.filter_map, List.length_map]
    refine congrArg List.length (List.filter_congr fun pair inside => ?_)
    change (numberAt? workspace.scripts pair.2 == some script.id) = (pair.2 == script.path)
    rw [Bool.eq_iff_iff, beq_iff_eq, beq_iff_eq, ← own]
    exact ⟨joined.numberAt?_inj (joined.closed pair inside), congrArg _⟩
  -- a pair with a given second file is told by the first
  have first : ((workspace.pairs.filter fun pair => pair.2 == script.path).map Prod.fst).Perm
      (workspace.dependents script.path) := by
    have distinct := joined.unique.sublist joined.live
    refine (List.perm_ext_iff_of_nodup ?_ (distinct.filter _)).mpr fun source => ?_
    · refine ((nodup_pairs distinct).filter _).map_on fun pair inside other inside' same => ?_
      have target := eq_of_beq (List.mem_filter.mp inside).2
      have target' := eq_of_beq (List.mem_filter.mp inside').2
      exact Prod.ext same (target.trans target'.symm)
    · have way : source ∈ (workspace.pairs.filter fun pair => pair.2 == script.path).map Prod.fst ↔
          source ∈ workspace.live ∧ script.path ∈ workspace.requiredPaths source := by
        simp [mem_pairs]
      rw [way, List.mem_filter]
      refine and_congr_right fun source' => ?_
      obtain ⟨script', required, found, run⟩ := joined.found source source'
      rw [mem_requiredPaths found run]
      simp
  rw [counted, ← first.length_eq, List.length_map]

end Joined

end Workspace

namespace Conversion

variable {settings : Settings} {sources : Ledger String}

/-- The imports of a converted corpus as its trace and its graph tell them, given the workspace at the
end. -/
structure Agreement (settings : Settings) (report : Report) (final : Workspace) (graph : Graph) :
    Prop where
  declared : ∀ written ∈ report.modules,
    (∃ rest, written.1.program.children =
      (written.1.imports.map fun required => required.1.tree) ++ rest) ∧
    ∀ required ∈ written.1.imports, ∃ specifier,
      Path.specifier? written.1.path required.1.path settings.codeExtension = some specifier ∧
        required.1.specifier = quote specifier
  events : (report.trace.eventsOf "import_action").map TraceEntry.event =
    report.modules.flatMap fun written => written.1.imports.map fun required =>
      .imported written.1.path required.1.path required.1.names required.1.isDeferred
  edges : graph.edges.map Dependency.GraphEdge.ends =
    report.requires.map (Prod.map (numberAt? final.scripts) (numberAt? final.scripts))
  distinct : report.requires.Nodup ∧ graph.edges.Nodup
  irreflexive : (∀ pair ∈ report.requires, pair.1 ≠ pair.2) ∧
    ∀ edge ∈ graph.edges, edge.source ≠ edge.target
  closed : ∀ edge ∈ graph.edges, edge.source ∈ graph.nodes.map Dependency.GraphNode.id ∧
    edge.target ∈ graph.nodes.map Dependency.GraphNode.id
  numbered : (graph.nodes.map Dependency.GraphNode.id).Nodup
  nodes : (graph.nodes.map fun node => (some node.id, node.value)) =
    report.outputs.names.map fun path =>
      (numberAt? final.scripts path, (final.dependents path).length)

theorem Ran.joined (accepted : settings.Accepted) {log : List LogLine} {report : Report}
    {final : Workspace} (ran : Ran settings sources true log report final) :
    final.Joined ∧ report.requires = final.pairs := by
  obtain ⟨rewritten, -⟩ := ran.rewritten accepted
  obtain ⟨-, -, required⟩ := ran.recorded accepted
  have paths : (report.modules.map Prod.fst).map Module.path = final.live := rewritten.paths
  have found : ∀ path ∈ final.live, ∃ script required,
      scriptAt? final.scripts path = some script ∧
        requiredFiles final.index script = .ok required := by
    intro path live
    rw [← paths] at live
    obtain ⟨written, member, rfl⟩ := List.mem_map.mp live
    obtain ⟨script, found, run⟩ := required written member
    exact ⟨script, _, found, run⟩
  refine ⟨{ ran.ordered accepted with found, closed := fun pair member => ?_ }, ?_⟩
  · obtain ⟨live, needed⟩ := Workspace.mem_pairs.mp member
    obtain ⟨script, _, here, run⟩ := found pair.1 live
    obtain ⟨name, -, owner⟩ := (Workspace.mem_requiredPaths here run).mp needed
    exact (rewritten.provided name pair.2 owner).1
  · rw [Workspace.pairs, ← paths, List.map_map, List.flatMap_map, Report.requires]
    refine List.flatMap_congr fun written member => ?_
    obtain ⟨script, found, run⟩ := required written.1 (List.mem_map_of_mem member)
    change _ = (final.requiredPaths written.1.path).map _
    rw [Workspace.requiredPaths_eq found run, Module.required, Ledger.names, List.map_map,
      List.map_map]
    rfl

theorem evaluate_graph_cyclicSources :
    ((evaluate {} cyclicSources true).any fun (report, final) =>
      decide (report.requires = [("./a.js", "./b.js"), ("./b.js", "./a.js"), ("./c.js", "./a.js")] ∧
        final.dependents "./a.js" = ["./b.js", "./c.js"])) = true := by
  decide +kernel

end Conversion

end ScriptModules
