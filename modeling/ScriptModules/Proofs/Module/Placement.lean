import ScriptModules.Module.Basic
import ScriptModules.Proofs.Module.Redirection

namespace ScriptModules

open ScriptModules.Tree

namespace Module

@[simp] theorem children_program (written : Module) : written.program.children =
    written.imports.map Prod.snd ++ written.helpers ++ written.exports.declarations ++ written.body
      ++ written.exports.statements :=
  rfl

def place (written : Module) : Position → Position
  | [] => []
  | index :: rest =>
    (written.imports.length + written.helpers.length + written.exports.declarations.length + index)
      :: rest

theorem place_append (written : Module) {site : Position} (inner : site ≠ []) (below : Position) :
    written.place (site ++ below) = written.place site ++ below := by
  cases site with
  | nil => exact absurd rfl inner
  | cons index rest => rfl

theorem getElem?_body {written : Module} {index : Nat} {node : Node}
    (found : written.body[index]? = some node) :
    written.program.children[written.imports.length + written.helpers.length +
      written.exports.declarations.length + index]? = some node := by
  have before : (written.imports.map Prod.snd ++ written.helpers ++
      written.exports.declarations).length = written.imports.length + written.helpers.length +
        written.exports.declarations.length := by
    simp only [List.length_append, List.length_map]
  rw [children_program, List.append_assoc, List.getElem?_append_right (by omega), before,
    Nat.add_sub_cancel_left, List.getElem?_append_left, found]
  exact (List.getElem?_eq_some_iff.mp found).1

theorem at?_place {written : Module} {tree : Node} (body : written.body = tree.children)
    {site : Position} (inner : site ≠ []) {node : Node} (here : tree.at? site = some node) :
    written.program.at? (written.place site) = some node := by
  cases site with
  | nil => exact absurd rfl inner
  | cons index rest =>
      rw [Node.at?_cons] at here
      obtain ⟨child, found, below⟩ := Option.bind_eq_some_iff.mp here
      rw [← body] at found
      rw [place, Node.at?_cons, getElem?_body found]
      exact below

end Module

variable {written : Module} {tree : Node} {site : Position} {name : String} {value : Node}

theorem AccessAt.place (access : AccessAt tree site name value) (program : tree.form = .program)
    (body : written.body = tree.children) :
    AccessAt written.program (written.place site) name value := by
  have inner := access.inner program
  obtain ⟨comments, key, here, named⟩ := access
  exact ⟨comments, key, Module.at?_place body inner here, named⟩

theorem ReadsFrom.place (reads : ReadsFrom tree site name value) (program : tree.form = .program)
    (body : written.body = tree.children) :
    ReadsFrom written.program (written.place site) name value := by
  obtain ⟨base, comments, access, own⟩ := reads
  exact ⟨base, comments, access.place program body, own⟩

theorem Replaced.place {bound : String} (replaced : Replaced tree site bound)
    (program : tree.form = .program) (body : written.body = tree.children) :
    Replaced written.program (written.place site) bound := by
  obtain ⟨node, here, form, leaf⟩ := replaced
  refine ⟨node, Module.at?_place body ?_ here, form, leaf⟩
  rintro rfl
  rw [Node.at?_nil, Option.some.injEq] at here
  rw [here, form] at program
  cases program

end ScriptModules
