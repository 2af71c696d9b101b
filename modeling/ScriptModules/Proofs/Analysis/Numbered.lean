import ScriptModules.Analysis.Access
import ScriptModules.Proofs.Result

namespace ScriptModules

open ScriptModules.Tree

def Script.numbered (id : Nat) (script : Script) : Script :=
  { script with id }

@[simp] theorem Script.path_numbered (id : Nat) (script : Script) :
    (script.numbered id).path = script.path := rfl

@[simp] theorem Script.tree_numbered (id : Nat) (script : Script) :
    (script.numbered id).tree = script.tree := rfl

namespace TypeCheck

variable {settings : Settings} {id : Nat}

def Pass.numbered (id : Nat) (pass : Pass) : Pass :=
  { pass with script := pass.script.numbered id }

theorem helper_numbered (pass : Pass) (native : Bool) : (pass.numbered id).helper native =
    ((pass.helper native).1, (pass.helper native).2.numbered id) := by
  obtain ⟨script, instanceName, tagName, events⟩ := pass
  cases native <;> cases instanceName <;> cases tagName <;> rfl

theorem replaceAt_numbered {before after : Pass} {met : Visit}
    (run : Pass.replaceAt settings before met = .ok after) :
    Pass.replaceAt settings (before.numbered id) met = .ok (after.numbered id) := by
  have same : (before.numbered id).script.tree = before.script.tree := rfl
  unfold Pass.replaceAt at run ⊢
  rw [same]
  dsimp only at run ⊢
  split at run
  · cases run
    rfl
  · rw [helper_numbered]
    obtain ⟨value, made, run⟩ := bind_eq_ok_iff.mp run
    obtain ⟨tree, put, run⟩ := bind_eq_ok_iff.mp run
    cases run
    exact bind_eq_ok_iff.mpr ⟨value, made, bind_eq_ok_iff.mpr ⟨tree, put, rfl⟩⟩

theorem replace_numbered {script checked : Script} {events : List Event}
    (run : replace settings script = .ok (checked, events)) (id : Nat) :
    replace settings (script.numbered id) = .ok (checked.numbered id, events) := by
  obtain ⟨pass, passed, run⟩ := bind_eq_ok_iff.mp run
  obtain ⟨helpers, declared, run⟩ := bind_eq_ok_iff.mp run
  cases run
  obtain ⟨pass', passed', rfl⟩ := foldlM_follows (fun pass pass' : Pass => pass' = pass.numbered id)
    (fun met _ before _ after same run => ⟨_, same ▸ replaceAt_numbered run, rfl⟩) rfl passed
  exact bind_eq_ok_iff.mpr ⟨_, passed', bind_eq_ok_iff.mpr ⟨helpers, declared, rfl⟩⟩

end TypeCheck

namespace Access

theorem markAccess_numbered (base : Node) (script : Script) (visit : Visit) (id : Nat) :
    markAccess base (script.numbered id) visit = (markAccess base script visit).numbered id := by
  obtain ⟨path, number, tree, stem, names, provides, requires, isRoot, helpers⟩ := script
  unfold markAccess addSite Script.numbered
  dsimp only
  split <;> rfl

theorem foldl_markAccess_numbered (base : Node) (found : List Visit) (script : Script) (id : Nat) :
    found.foldl (markAccess base) (script.numbered id) =
      (found.foldl (markAccess base) script).numbered id :=
  List.foldl_hom (Script.numbered id) fun script visit =>
    (markAccess_numbered base script visit id)

theorem markAccesses_numbered {globalName : String} {script marked : Script}
    {exclusion? : Option Exclusion}
    (run : markAccesses globalName script = .ok (marked, exclusion?)) (id : Nat) :
    markAccesses globalName (script.numbered id) = .ok (marked.numbered id, exclusion?) := by
  have same (base : Node) :=
    foldl_markAccess_numbered base (accesses globalName script.tree) script id
  unfold markAccesses at run ⊢
  rw [Script.tree_numbered]
  simp only [same, Script.tree_numbered]
  dsimp only at run
  split at run
  · rename_i computed
    cases run
    rw [if_pos computed]
    rfl
  · rename_i named
    rw [if_neg named]
    obtain ⟨base, referred, run⟩ := bind_eq_ok_iff.mp run
    refine bind_eq_ok_iff.mpr ⟨base, referred, ?_⟩
    split at run
    · rename_i met
      cases run
      rw [if_pos met]
      rfl
    · rename_i free
      cases run
      rw [if_neg free]
      rfl

theorem classify_numbered {settings : Settings} {script result : Script}
    {exclusion? : Option Exclusion}
    (run : classify settings script = .ok (result, exclusion?)) (id : Nat) :
    classify settings (script.numbered id) = .ok (result.numbered id, exclusion?) := by
  have provided : rootProvides settings (script.numbered id) = rootProvides settings script := rfl
  unfold classify at run ⊢
  rw [provided, Script.tree_numbered]
  dsimp only at run ⊢
  split at run
  · cases run
    rfl
  · split at run
    · rename_i root
      cases run
      exact if_pos root
    · rename_i other
      refine (if_neg other).trans ?_
      obtain ⟨⟨marked, found?⟩, classified, run⟩ := bind_eq_ok_iff.mp run
      refine bind_eq_ok_iff.mpr ⟨_, markAccesses_numbered classified id, ?_⟩
      cases found? <;> cases run <;> rfl

end Access

end ScriptModules
