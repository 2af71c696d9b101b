import ScriptModules.Corpus.Index
import ScriptModules.Proofs.Ledger
import ScriptModules.Proofs.Result

namespace ScriptModules.Index

theorem owner?_register {File : Type} [DecidableEq File] [Located File] (index : Index File)
    (name : String) (file : File) (other : String) :
    (index.register name file).1.owner? other =
      if name = other then some file else index.owner? other :=
  Ledger.get?_put index.owners name other file

def registerAll (index : Index) (path : String) (names : List String) : Index :=
  names.foldl (fun index name => (index.register name path).1) index

theorem owner?_registerAll (index : Index) (path : String) (names : List String) (other : String) :
    (index.registerAll path names).owner? other =
      if other ∈ names then some path else index.owner? other := by
  induction names generalizing index with
  | nil => simp [registerAll]
  | cons name names ih =>
      rw [registerAll, List.foldl_cons, ← registerAll, ih, owner?_register]
      by_cases later : other ∈ names
      · simp [later]
      · simp [later, eq_comm]

theorem owner?_registerAll_eq_some {index : Index} {names : List String} {file name path : String}
    (owned : (index.registerAll file names).owner? name = some path) :
    path = file ∧ name ∈ names ∨ name ∉ names ∧ index.owner? name = some path := by
  rw [owner?_registerAll] at owned
  split at owned
  · exact .inl ⟨(Option.some.inj owned).symm, ‹_›⟩
  · exact .inr ⟨‹_›, owned⟩

theorem nodup_registerAll {index : Index} (distinct : index.owners.names.Nodup) (path : String)
    (names : List String) : (index.registerAll path names).owners.names.Nodup := by
  refine foldl_invariant (fun _ (index : Index) => index.owners.names.Nodup) ?_ distinct
  intro _ name _ before _ distinct
  exact Ledger.nodup_names_put distinct name path

end ScriptModules.Index
