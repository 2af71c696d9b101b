import ScriptModules.Proofs.Analysis.Verdict
import ScriptModules.Proofs.Conversion.Checks

namespace ScriptModules.Conversion

open Dependency (scriptAt?)

variable {settings : Settings} {sources : Ledger String} {before : Workspace} {read : Script}

/-- The analysis decides about a file by its tree alone, and an exclusion leaves nothing behind. -/
theorem analysis_decides (fresh : read.Fresh settings sources) (other : read.isRoot = false)
    (apart : settings.globalName ≠ Access.marker) (given : before.settings = settings)
    (found : scriptAt? before.scripts read.path = some read) :
    ∃ checked events exclusion? result after,
      TypeCheck.replace settings read = .ok (checked, events) ∧
      Ends (Work.analyze read.path) before exclusion? after ∧
      scriptAt? after.scripts read.path = some result ∧
      Access.Verdict settings.globalName checked.tree exclusion? ∧
      ∀ exclusion ∈ exclusion?, after.index = before.index ∧
        Access.Blank checked result exclusion := by
  have opened := fresh.opened
  obtain ⟨exclusion?, after, ends⟩ := (Work.confined_analyze given found opened).exists_ends
  obtain ⟨read', result, found', ⟨checked, events, replaced, classified⟩, path, same⟩ :=
    Work.ends_analyze ends
  cases found.symm.trans found'
  rw [given] at replaced classified
  have program : checked.tree.form = .program :=
    (TypeCheck.replace_checked opened.sound opened.taken replaced).form.trans opened.program
  have other' : checked.isRoot = false := by
    rw [TypeCheck.replace_same replaced]
    exact other
  obtain ⟨verdict, blank⟩ := Access.classify_verdict (opened.unread_checked replaced) program other'
    apart classified
  have here : scriptAt? after.scripts read.path = some result := by
    rw [Workspace.scripts_eq same, Work.scripts_settle, ← path]
    exact Dependency.scriptAt?_putScript_self (path.symm ▸ found)
  refine ⟨checked, events, exclusion?, result, after, replaced, ends, here, verdict,
    fun exclusion excluded => ⟨?_, blank exclusion excluded⟩⟩
  obtain rfl : exclusion? = some exclusion := excluded
  exact (Workspace.index_eq same).trans rfl

def computedSources : Ledger String :=
  [("a.js", "THREE.A = function (x) \x7b return x instanceof THREE.B || THREE[x]; \x7d;")]

theorem evaluate_computedSources :
    ((ingested {} computedSources).any fun read => read.isRoot == false) = true := by
  decide +kernel

theorem analysis_decides_computedSources : ∃ read checked events exclusion? result after,
    read.Fresh {} computedSources ∧ read.isRoot = false ∧
    TypeCheck.replace {} read = .ok (checked, events) ∧
    Ends (Work.analyze read.path) (single {} read) exclusion? after ∧
    scriptAt? after.scripts read.path = some result ∧
    Access.Verdict "THREE" checked.tree exclusion? ∧
    ∀ exclusion ∈ exclusion?, after.index = {} ∧ Access.Blank checked result exclusion := by
  obtain ⟨read, member, other⟩ := List.any_eq_true.mp evaluate_computedSources
  have fresh := fresh_of_mem_ingested member
  obtain ⟨checked, events, exclusion?, result, after, decides⟩ := analysis_decides fresh
    (by simpa using other) (by decide) rfl (scriptAt?_single {} read)
  exact ⟨read, checked, events, exclusion?, result, after, fresh, by simpa using other, decides⟩

end ScriptModules.Conversion
