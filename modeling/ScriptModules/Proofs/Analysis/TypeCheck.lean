import ScriptModules.Proofs.Module.Snippet
import ScriptModules.Proofs.Result
import ScriptModules.Proofs.Text.Fresh
import ScriptModules.Proofs.Tree.Names
import ScriptModules.Proofs.Tree.Sound

namespace ScriptModules

open ScriptModules.Tree
open Text.Quoted (quote)

/-! ## The trees of checks -/

def tagTree (helper literal : String) (value : Node) : Node :=
  .of .group
    [.of (.binary "===")
      [.invocation
        (.access (.invocation (.access (.identifier helper) "call") [value]) "slice")
        [.of (.number "8") [], .of (.unary "-") [.of (.number "1") []]],
       .of (.string literal) []]]

def markTree (helper marker : String) (value : Node) : Node :=
  .of .group
    [.of (.binary "&&")
      [.of (.unary "!") [.of (.unary "!")
        [.of .group [.assignment (.identifier helper) value]]],
       .of (.unary "!") [.of (.unary "!") [.access (.identifier helper) marker]]]]

theorem fill_tag {helper : String} (other : helper ≠ "$") (literal : String) (value : Node) :
    Template.fill (.of .expression [tagTree helper literal (.identifier "$")]) [value] =
      .ok (.of .expression [tagTree helper literal (value.inPlaceOf (.identifier "$"))]) := by
  have places : Template.places
      (.of .expression [tagTree helper literal (.identifier "$")]) = [[0, 0, 0, 0, 0, 1, 0]] := by
    simp [Template.places, Node.walk_eq, Node.visits, Node.visitsFrom, tagTree, Node.of,
      Node.invocation, Node.access, Node.identifier, Form.name?, Template.placeholder,
      Visit.position, other]
  rw [Template.fill, places]
  rfl

theorem fill_mark {helper marker : String} (other : helper ≠ "$") (other' : marker ≠ "$")
    (value : Node) :
    Template.fill (.of .expression [markTree helper marker (.identifier "$")]) [value] =
      .ok (.of .expression [markTree helper marker (value.inPlaceOf (.identifier "$"))]) := by
  have places : Template.places
      (.of .expression [markTree helper marker (.identifier "$")]) = [[0, 0, 0, 0, 0, 0, 1]] := by
    simp [Template.places, Node.walk_eq, Node.visits, Node.visitsFrom, markTree, Node.of,
      Node.assignment, Node.access, Node.identifier, Form.name?, Template.placeholder,
      Visit.position, other, other']
  rw [Template.fill, places]
  rfl

theorem expression_fill {text : String} {pattern filled value : Node}
    (parsed : Node.parse? (text ++ ";") = some (.program [.of .expression [pattern]]))
    (plain : pattern.bare = pattern)
    (fill : Template.fill (.of .expression [pattern]) [value] = .ok (.of .expression [filled])) :
    Template.expression text [value] = .ok filled := by
  rw [Template.expression, Template.expression?, Template.statement, parsed]
  simp only [Node.program, Node.of, Node.bare, Node.bares, plain, Node.children_mk] at fill ⊢
  rw [if_neg (by simp), fill]
  rfl

def tagFragments (helper literal : String) : List Fragment :=
  [⟨.punctuator, "(", false⟩, ⟨.name, helper, false⟩, ⟨.punctuator, ".", false⟩,
   ⟨.name, "call", false⟩, ⟨.punctuator, "(", false⟩, ⟨.name, "$", false⟩,
   ⟨.punctuator, ")", false⟩, ⟨.punctuator, ".", false⟩, ⟨.name, "slice", false⟩,
   ⟨.punctuator, "(", false⟩, ⟨.number, "8", false⟩, ⟨.punctuator, ",", false⟩,
   ⟨.punctuator, "-", true⟩, ⟨.number, "1", false⟩, ⟨.punctuator, ")", false⟩,
   ⟨.punctuator, "===", true⟩, ⟨.string, literal, true⟩, ⟨.punctuator, ")", false⟩,
   ⟨.punctuator, ";", false⟩]

theorem parse?_tag {helper : String} (name : IsName helper) (content : String) :
    Node.parse? ("(" ++ helper ++ ".call($).slice(8, -1) === " ++ quote content ++ ")" ++ ";") =
      some (.program [.of .expression [tagTree helper (quote content) (.identifier "$")]]) := by
  have locals : IsName "T" ∧ IsName "call" ∧ IsName "slice" ∧ IsName "$" := by decide
  have numbers : IsNatural "8" ∧ IsNatural "1" := by decide
  have fragments_valid {helper : String} (name : IsName helper) (content : String) :
      ∀ fragment ∈ tagFragments helper (quote content), fragment.Valid := by
    simp [tagFragments, Lexeme.punctuators, name, locals, numbers]
  have parsed : parseWithin 200 (spell (tagFragments "T" "'t'")) =
      some (.program [.of .expression [tagTree "T" "'t'" (.identifier "$")]]) := by
    cbv
  have read := parse?_respell
    (fun text => if text = "T" then helper else if text = "'t'" then quote content else text)
    parsed (by simp [tagFragments, Fragment.Apart, extenders])
    (fragments_valid locals.1 "t") (fragments_valid name content)
    (by simp [tagFragments, Fragment.Fixed]) rfl
    (show ("(" ++ helper ++ ".call($).slice(8, -1) === " ++ quote content ++ ")" ++ ";").toList =
        _ by
      simp [spell, tagFragments, Fragment.chars])
    (by simp [Parser.levels]; omega)
  simpa [tagTree, Node.access, Node.invocation, Node.program, Node.of, Node.identifier,
    Node.respell, Node.respells, Form.respell] using read

def markFragments (helper marker : String) : List Fragment :=
  [⟨.punctuator, "(", false⟩, ⟨.punctuator, "!", false⟩, ⟨.punctuator, "!", false⟩,
   ⟨.punctuator, "(", false⟩, ⟨.name, helper, false⟩, ⟨.punctuator, "=", true⟩,
   ⟨.name, "$", true⟩, ⟨.punctuator, ")", false⟩, ⟨.punctuator, "&&", true⟩,
   ⟨.punctuator, "!", true⟩, ⟨.punctuator, "!", false⟩, ⟨.name, helper, false⟩,
   ⟨.punctuator, ".", false⟩, ⟨.name, marker, false⟩, ⟨.punctuator, ")", false⟩,
   ⟨.punctuator, ";", false⟩]

theorem parse?_mark {helper marker : String} (name : IsName helper) (name' : IsName marker) :
    Node.parse? ("(!!(" ++ helper ++ " = $) && !!" ++ helper ++ "." ++ marker ++ ")" ++ ";") =
      some (.program [.of .expression [markTree helper marker (.identifier "$")]]) := by
  have locals : IsName "T" ∧ IsName "K" ∧ IsName "$" := by decide
  have fragments_valid {helper marker : String} (name : IsName helper) (name' : IsName marker) :
      ∀ fragment ∈ markFragments helper marker, fragment.Valid := by
    simp [markFragments, Lexeme.punctuators, name, name', locals]
  have parsed : parseWithin 200 (spell (markFragments "T" "K")) =
      some (.program [.of .expression [markTree "T" "K" (.identifier "$")]]) := by
    cbv
  have read := parse?_respell
    (fun text => if text = "T" then helper else if text = "K" then marker else text)
    parsed (by simp [markFragments, Fragment.Apart, extenders])
    (fragments_valid locals.1 locals.2.1) (fragments_valid name name')
    (by simp [markFragments, Fragment.Fixed]) rfl
    (show ("(!!(" ++ helper ++ " = $) && !!" ++ helper ++ "." ++ marker ++ ")" ++ ";").toList =
        _ by
      simp [spell, markFragments, Fragment.chars])
    (by simp [Parser.levels]; omega)
  simpa [markTree, Node.access, Node.assignment, Node.program, Node.of, Node.identifier,
    Node.respell, Node.respells, Form.respell] using read

def tagDeclarationFragments (helper : String) : List Fragment :=
  [⟨.keyword, "var", false⟩, ⟨.name, helper, true⟩, ⟨.punctuator, "=", true⟩,
   ⟨.name, "Object", true⟩, ⟨.punctuator, ".", false⟩, ⟨.name, "prototype", false⟩,
   ⟨.punctuator, ".", false⟩, ⟨.name, "toString", false⟩, ⟨.punctuator, ";", false⟩]

def tagDeclaration (helper : String) : Node :=
  .declared [[.identifier helper,
    .access (.access (.identifier "Object") "prototype") "toString"]]

theorem statement_tagDeclaration {helper : String} (name : IsName helper) :
    Template.statement ("var " ++ helper ++ " = Object.prototype.toString;") [] =
      .ok (tagDeclaration helper) := by
  have locals : IsName "T" ∧ IsName "Object" ∧ IsName "toString" := by decide
  have fragments_valid {helper : String} (name : IsName helper) :
      ∀ fragment ∈ tagDeclarationFragments helper, fragment.Valid := by
    simp [tagDeclarationFragments, Lexeme.keywords, Lexeme.punctuators, name, locals,
      isName_locals]
  have parsed : parseWithin 200 (spell (tagDeclarationFragments "T")) =
      some (.program [tagDeclaration "T"]) := by
    cbv
  have read := statement_respell (fun text => if text = "T" then helper else text)
    parsed rfl (by simp [tagDeclarationFragments, Fragment.Apart])
    (fragments_valid locals.1) (fragments_valid name)
    (by simp [tagDeclarationFragments, Fragment.Fixed]) rfl
    (show ("var " ++ helper ++ " = Object.prototype.toString;").toList = _ by
      simp [spell, tagDeclarationFragments, Fragment.chars])
    (by simp [Parser.levels]; omega)
  simpa [tagDeclaration, Node.declared, Node.access, Node.of, Node.identifier, Node.respell,
    Node.respells, Form.respell] using read

namespace TypeCheck

/-! ## Replacing one check -/

/-- Whether a helper variable can stand in a check: a name that is no place of the template. -/
def IsHelper (helper : String) : Prop :=
  IsName helper ∧ helper ≠ "$"

theorem names_tagTree {helper literal name : String} {value : Node}
    (member : name ∈ (tagTree helper literal value).names) :
    name = helper ∨ value.form.name? = some name ∨ name ∈ value.names := by
  simpa [tagTree, Node.access, Node.invocation, Node.of, Node.identifier, Node.names,
    Node.namesFrom, Form.isKeyAt, Form.name?] using member

theorem names_markTree {helper marker name : String} {value : Node}
    (member : name ∈ (markTree helper marker value).names) :
    name = helper ∨ value.form.name? = some name ∨ name ∈ value.names := by
  have cases : name = helper ∨ (value.form.name? = some name ∨ name ∈ value.names) ∨
      name = helper := by
    simpa [markTree, Node.access, Node.assignment, Node.of, Node.identifier, Node.names,
      Node.namesFrom, Form.isKeyAt, Form.name?, or_assoc] using member
  rcases cases with same | below | same
  · exact .inl same
  · exact .inr below
  · exact .inl same

theorem tagTree_sound {helper : String} (word : IsWord helper) (literal : String) {value : Node}
    (sound : value.Sound) : (tagTree helper literal value).Sound := by
  have locals : IsWord "call" ∧ IsWord "slice" := by decide
  simp [tagTree, Node.access, Node.invocation, Node.of, Node.identifier, Node.sound_mk_iff,
    Form.Fits, Form.name?, word, locals, sound]

theorem markTree_sound {helper marker : String} (word : IsWord helper) (word' : IsWord marker)
    {value : Node} (sound : value.Sound) : (markTree helper marker value).Sound := by
  simp [markTree, Node.access, Node.assignment, Node.of, Node.identifier, Node.sound_mk_iff,
    Form.Fits, Form.name?, word, word', sound]

structure Replaces (helper : String) (node value : Node) : Prop where
  sound : value.Sound
  grouped : value.form = .group
  names : ∀ name ∈ value.names, name = helper ∨ name ∈ node.names

theorem ofNode?_eq_some {settings : Settings} {node : Node} {check : Check}
    (found : ofNode? settings node = some check) : ∃ left right,
      node.form = .binary "instanceof" ∧ node.children = [left, right] ∧
        ofRight? settings right = some check := by
  unfold ofNode? at found
  split at found
  · rename_i left right form children
    exact ⟨left, right, form, children, found⟩
  · cases found

theorem ofRight?_eq_some {settings : Settings} {right : Node} (sound : right.Sound) {check : Check}
    (found : ofRight? settings right = some check) (own : check.native = false) :
    IsWord check.type ∧ settings.globalName ∈ right.names := by
  unfold ofRight? at found
  split at found
  · rename_i base key form children
    split at found
    · rename_i global
      obtain ⟨type, named, same⟩ := Option.map_eq_some_iff.mp found
      subst same
      refine ⟨(sound.child (by simp [children])).word named, ?_⟩
      refine Node.mem_names.mpr ⟨0, base, by simp [children], .inl ⟨?_, global⟩⟩
      rw [form]
      rfl
    · cases found
  · split at found
    · cases found
      cases own
    · cases found
  · split at found
    · cases found
      cases own
    · cases found
  · cases found

theorem ofRight?_congr {settings : Settings} {right right' : Node} (form : right'.form = right.form)
    (names : right'.children.map (fun child => child.form.name?) =
      right.children.map fun child => child.form.name?) :
    ofRight? settings right' = ofRight? settings right := by
  unfold ofRight?
  rw [form]
  generalize right'.children = parts', right.children = parts at names
  cases right.form with
  | member =>
      rcases parts with _ | ⟨base, _ | ⟨key, _ | ⟨more, rest⟩⟩⟩ <;>
        rcases parts' with _ | ⟨base', _ | ⟨key', _ | ⟨more', rest'⟩⟩⟩ <;> simp_all
  | _ => rfl

theorem ofNode?_congr {settings : Settings} {node node' : Node} (form : node'.form = node.form)
    (rights : node'.children.map (ofRight? settings) = node.children.map (ofRight? settings)) :
    ofNode? settings node' = ofNode? settings node := by
  unfold ofNode?
  rw [form]
  generalize node'.children = parts', node.children = parts at rights
  by_cases test : node.form = .binary "instanceof"
  · rw [test]
    rcases parts with _ | ⟨base, _ | ⟨key, _ | ⟨more, rest⟩⟩⟩ <;>
      rcases parts' with _ | ⟨base', _ | ⟨key', _ | ⟨more', rest'⟩⟩⟩ <;> simp_all
  · split <;> split <;> simp_all

def Check.tree (check : Check) (helper : String) (value : Node) : Node :=
  if check.native then tagTree helper (quote check.type) value
  else markTree helper ("is" ++ check.type) value

theorem Check.form_tree (check : Check) (helper : String) (value : Node) :
    (check.tree helper value).form = .group := by
  unfold tree
  split <;> rfl

theorem Check.names_tree {check : Check} {helper name : String} {value : Node}
    (member : name ∈ (check.tree helper value).names) :
    name = helper ∨ value.form.name? = some name ∨ name ∈ value.names := by
  unfold tree at member
  split at member
  · exact names_tagTree member
  · exact names_markTree member

variable {settings : Settings} {check : Check} {helper : String}

theorem Check.tree_sound {right : Node} (sound : right.Sound)
    (found : ofRight? settings right = some check) (name : IsHelper helper) {value : Node}
    (sound' : value.Sound) : (check.tree helper value).Sound := by
  unfold tree
  split
  · exact tagTree_sound name.1.1 _ sound'
  · rename_i foreign
    obtain ⟨word, -⟩ := ofRight?_eq_some sound found (eq_false_of_ne_true foreign)
    exact markTree_sound name.1.1 (isName_marked word).1 sound'

theorem expression_template {right : Node} (sound : right.Sound)
    (found : ofRight? settings right = some check) (name : IsHelper helper) (value : Node) :
    Template.expression (template check helper) [value] =
      .ok (check.tree helper (value.inPlaceOf (.identifier "$"))) := by
  rw [Check.tree, template]
  cases native : check.native with
  | true =>
      rw [if_pos rfl, if_pos rfl]
      exact expression_fill (parse?_tag name.1 check.type) rfl (fill_tag name.2 _ value)
  | false =>
      obtain ⟨word, -⟩ := ofRight?_eq_some sound found native
      have marker := isName_marked word
      have other : "is" ++ check.type ≠ "$" := by simp [← String.toList_inj]
      rw [if_neg Bool.false_ne_true, if_neg Bool.false_ne_true]
      refine expression_fill ?_ rfl (fill_mark name.2 other value)
      rw [← parse?_mark name.1 marker]
      exact congrArg Node.parse? (by simp [← String.toList_inj])

theorem replacement_eq {node : Node} (sound : node.Sound)
    (found : ofNode? settings node = some check) (name : IsHelper helper) :
    ∃ left right value, node.form = .binary "instanceof" ∧ node.children = [left, right] ∧
      ofRight? settings right = some check ∧ value.bare = left.bare ∧ value.Sound ∧
      replacement check helper node =
        .ok ((check.tree helper value).withComments node.leadingComments) := by
  obtain ⟨left, right, form, children, found⟩ := ofNode?_eq_some found
  have sound' : left.Sound := sound.child (by simp [children])
  obtain ⟨first, taken, same, sound'⟩ : ∃ first,
      node.dropLeadingComments.children.take 1 = [first] ∧ first.bare = left.bare ∧ first.Sound := by
    obtain ⟨own, comments, below⟩ := node
    rw [Node.children_mk] at children
    subst children
    cases comments with
    | nil =>
        exact ⟨left.dropLeadingComments, rfl, left.bare_dropLeadingComments,
          sound'.dropLeadingComments⟩
    | cons comment comments => exact ⟨left, rfl, rfl, sound'⟩
  refine ⟨left, right, first.inPlaceOf (.identifier "$"), form, children, found, by simp [same],
    sound'.inPlaceOf _, ?_⟩
  rw [replacement, taken, expression_template (sound.child (by simp [children])) found name]
  rfl

theorem exists_replacement {node : Node} (sound : node.Sound)
    (found : ofNode? settings node = some check) (name : IsHelper helper) :
    ∃ value, replacement check helper node = .ok value ∧ Replaces helper node value := by
  obtain ⟨left, right, value, form, children, found, same, sound', made⟩ :=
    replacement_eq sound found name
  refine ⟨_, made, ?_, ?_, fun other member => ?_⟩
  · exact (Check.tree_sound (sound.child (by simp [children])) found name sound').withComments _
  · rw [Node.form_withComments, check.form_tree]
  · rw [Node.names_withComments] at member
    refine (Check.names_tree member).imp_right fun below => ?_
    rw [← value.form_bare, ← value.names_bare, same, left.form_bare, left.names_bare] at below
    refine Node.mem_names.mpr ⟨0, left, by simp [children], below.imp_left fun named => ⟨?_, named⟩⟩
    rw [form]
    rfl

theorem replacement_replaces {node : Node} (sound : node.Sound)
    (found : ofNode? settings node = some check) (name : IsHelper helper) {value : Node}
    (run : replacement check helper node = .ok value) : Replaces helper node value := by
  obtain ⟨value', made, replaces⟩ := exists_replacement sound found name
  rw [made] at run
  cases run
  exact replaces

/-! ## The pass -/

theorem helper_same (pass : Pass) (native : Bool) : (pass.helper native).2.script =
    { pass.script with names := (pass.helper native).2.script.names } := by
  unfold Pass.helper
  split <;> split <;> rfl

theorem helper_events (pass : Pass) (native : Bool) :
    (pass.helper native).2.events = pass.events := by
  unfold Pass.helper
  split <;> split <;> rfl

theorem replacement_inPlaceOf {check : Check} {helper : String} {node value : Node}
    (made : replacement check helper node = .ok value) : value.inPlaceOf node = value := by
  obtain ⟨tree, -, made⟩ := bind_eq_ok_iff.mp made
  cases made
  cases comments : node.leadingComments <;> cases tree <;>
    simp [Node.inPlaceOf, comments, Node.withComments, Node.comments]

theorem current?_eq_some {tree node : Node} {met : Visit} :
    current? tree met = some node ↔
      tree.at? met.position = some node ∧ node.form = met.node.form := by
  rw [current?, Option.filter_eq_some_iff, beq_iff_eq]

theorem exchange_eq_ok {tree last new : Node} {met : Visit} :
    exchange tree met new = .ok last ↔ ∃ node, current? tree met = some node ∧
      last = tree.modifyAt (fun _ => new.inPlaceOf node) met.position := by
  have place : met.position.dropLast = met.above ∧ met.position ≠ [] := by simp [Visit.position]
  rw [exchange, Node.replaceChild?, if_pos place]
  cases current : current? tree met with
  | none => simp
  | some node => simp [(current?_eq_some.mp current).1, eq_comm]

theorem replaceAt_cases {settings : Settings} {pass next : Pass} {met : Visit}
    (run : Pass.replaceAt settings pass met = .ok next) :
    ofNode? settings ((current? pass.script.tree met).getD met.node) = none ∧ next = pass ∨
      ∃ node check helper between value, pass.script.tree.at? met.position = some node ∧
        ofNode? settings node = some check ∧ pass.helper check.native = (helper, between) ∧
        replacement check helper node = .ok value ∧ next =
          { between with
            script := { between.script with
              tree := between.script.tree.modifyAt (fun _ => value) met.position }
            events := between.events ++
              [.typeChecked between.script.path check.type check.native] } := by
  rw [Pass.replaceAt] at run
  split at run
  · rename_i unfound
    cases run
    exact .inl ⟨unfound, rfl⟩
  · rename_i check found
    have same := congrArg Script.tree (helper_same pass check.native)
    cases named : pass.helper check.native with
    | mk helper between =>
        rw [named] at run same
        replace same : between.script.tree = pass.script.tree := same
        obtain ⟨value, made, run⟩ := bind_eq_ok_iff.mp run
        obtain ⟨tree, exchanged, run⟩ := bind_eq_ok_iff.mp run
        cases run
        obtain ⟨node, current, rfl⟩ := exchange_eq_ok.mp exchanged
        rw [same] at current
        rw [current, Option.getD_some] at found made
        refine .inr ⟨node, check, helper, between, value, (current?_eq_some.mp current).1, found,
          named, made, ?_⟩
        rw [replacement_inPlaceOf made]

theorem replaceAt_eq {settings : Settings} {pass between : Pass} {met : Visit} {node value : Node}
    {check : Check} {helper : String} (current : current? pass.script.tree met = some node)
    (found : ofNode? settings node = some check) (named : pass.helper check.native = (helper, between))
    (made : replacement check helper node = .ok value) : Pass.replaceAt settings pass met = .ok
      { between with
        script := { between.script with
          tree := pass.script.tree.modifyAt (fun _ => value) met.position }
        events := between.events ++
          [.typeChecked between.script.path check.type check.native] } := by
  have same := congrArg Script.tree (helper_same pass check.native)
  rw [named] at same
  have put : exchange between.script.tree met value =
      .ok (pass.script.tree.modifyAt (fun _ => value) met.position) := by
    rw [show between.script.tree = pass.script.tree from same]
    exact exchange_eq_ok.mpr ⟨node, current, by rw [replacement_inPlaceOf made]⟩
  simp only [Pass.replaceAt, current, Option.getD_some, found, named, made]
  change (exchange between.script.tree met value >>= _) = _
  rw [put]
  rfl

theorem replaceAt_same {settings : Settings} {pass next : Pass} {met : Visit}
    (run : Pass.replaceAt settings pass met = .ok next) : next.script =
      { pass.script with tree := next.script.tree, names := next.script.names } := by
  rcases replaceAt_cases run with
    ⟨-, rfl⟩ | ⟨node, check, helper, between, value, -, -, named, -, rfl⟩
  · rfl
  · have same := helper_same pass check.native
    rw [named] at same
    rw [same]

theorem replace_same {settings : Settings} {script checked : Script} {events : List Event}
    (run : replace settings script = .ok (checked, events)) : checked =
      { script with tree := checked.tree, names := checked.names, helpers := checked.helpers } := by
  obtain ⟨pass, passed, run⟩ := bind_eq_ok_iff.mp run
  obtain ⟨helpers, -, run⟩ := bind_eq_ok_iff.mp run
  cases run
  have same : pass.script =
      { script with tree := pass.script.tree, names := pass.script.names } := by
    refine foldlM_ok (fun pass : Pass => pass.script =
      { script with tree := pass.script.tree, names := pass.script.names }) ?_ passed rfl
    intro before met after _ same run
    rw [replaceAt_same run, same]
  rw [same]

structure Keeps (settings : Settings) (script : Script) (pass : Pass) : Prop where
  form : pass.script.tree.form = script.tree.form
  sound : pass.script.tree.Sound
  taken : ∀ name ∈ pass.script.tree.names, name ∈ pass.script.names
  grown : ∀ name ∈ script.names, name ∈ pass.script.names
  tag : ∀ name ∈ pass.tagName,
    IsHelper name ∧ name ∈ pass.script.names ∧ ∃ count, name = Text.underscored count "toString"
  inst : ∀ name ∈ pass.instanceName,
    IsHelper name ∧ name ∈ pass.script.names ∧ name ≠ settings.globalName
  unused : Text.Unused script.names (pass.tagName.toList ++ pass.instanceName.toList)

theorem Keeps.start {settings : Settings} {script : Script} (sound : script.tree.Sound)
    (taken : ∀ name ∈ script.tree.names, name ∈ script.names) : Keeps settings script { script } where
  form := rfl
  sound := sound
  taken := taken
  grown := fun _ => id
  tag := by simp
  inst := by simp
  unused := .nil _

theorem isHelper_fresh {name : String} (word : IsWord name) (plain : ∀ c ∈ name.toList, c ≠ '$')
    (taken : List String) : IsHelper (Text.fresh taken name) := by
  refine ⟨Text.isName_fresh word taken, fun same => ?_⟩
  obtain ⟨count, result⟩ := Text.fresh_underscored taken name
  have chars := congrArg String.toList (result.symm.trans same)
  rw [Text.toList_underscored] at chars
  have dollar : '$' ∈ List.replicate count '_' ++ name.toList := by simp [chars]
  rcases List.mem_append.mp dollar with member | member
  · exact absurd (List.eq_of_mem_replicate member) (by decide)
  · exact plain '$' member rfl

theorem helper_reserved {name : String} (word : IsWord name)
    (plain : ∀ c ∈ name.toList, c ≠ '$') (script : Script) :
    IsHelper (Text.fresh script.names name) ∧
      Text.fresh script.names name ∈ (script.reserve name).2.names :=
  ⟨isHelper_fresh word plain _, List.mem_append_right _ List.mem_cons_self⟩

theorem Keeps.reserve {settings : Settings} {script : Script} {pass : Pass}
    (keeps : Keeps settings script pass) (name : String) :
    Keeps settings script { pass with script := (pass.script.reserve name).2 } where
  form := keeps.form
  sound := keeps.sound
  taken := fun other member => List.mem_append_left _ (keeps.taken other member)
  grown := fun other member => List.mem_append_left _ (keeps.grown other member)
  tag := by
    intro other known
    obtain ⟨fits, member, count⟩ := keeps.tag other known
    exact ⟨fits, List.mem_append_left _ member, count⟩
  inst := by
    intro other known
    obtain ⟨fits, member, apart⟩ := keeps.inst other known
    exact ⟨fits, List.mem_append_left _ member, apart⟩
  unused := keeps.unused

theorem Keeps.unused_fresh {settings : Settings} {script : Script} {pass : Pass}
    (keeps : Keeps settings script pass) (name : String) :
    Text.Unused script.names ((pass.tagName.toList ++ pass.instanceName.toList) ++
      [Text.fresh pass.script.names name]) := by
  refine keeps.unused.append ((Text.Unused.fresh pass.script.names name).of_subset ?_)
  intro other member
  simp only [List.mem_append, Option.mem_toList] at member
  rcases member with old | tag | inst
  · exact keeps.grown other old
  · exact (keeps.tag other tag).2.1
  · exact (keeps.inst other inst).2.1

theorem helper_keeps {settings : Settings} {script : Script} {pass next : Pass} {native : Bool}
    {helper : String} (keeps : Keeps settings script pass)
    (global : native = false → settings.globalName ∈ pass.script.names)
    (named : pass.helper native = (helper, next)) :
    Keeps settings script next ∧ IsHelper helper ∧ helper ∈ next.script.names ∧
      next.script.tree = pass.script.tree := by
  cases native with
  | true =>
      cases known : pass.tagName with
      | some name =>
          simp only [Pass.helper, known, if_true] at named
          cases named
          obtain ⟨fits, member, -⟩ := keeps.tag helper known
          exact ⟨keeps, fits, member, rfl⟩
      | none =>
          simp only [Pass.helper, known, if_true] at named
          cases named
          obtain ⟨fits, member⟩ :=
            helper_reserved (show IsWord "toString" by decide) (by decide) pass.script
          have reserved := keeps.reserve "toString"
          have unused := keeps.unused_fresh "toString"
          rw [known] at unused
          refine ⟨{ reserved with tag := ?_, unused := ?_ }, fits, member, rfl⟩
          · rintro other ⟨⟩
            exact ⟨fits, member, Text.fresh_underscored _ _⟩
          · exact unused.perm List.perm_append_comm
  | false =>
      cases known : pass.instanceName with
      | some name =>
          simp only [Pass.helper, known] at named
          cases named
          obtain ⟨fits, member, -⟩ := keeps.inst helper known
          exact ⟨keeps, fits, member, rfl⟩
      | none =>
          simp only [Pass.helper, known] at named
          cases named
          obtain ⟨fits, member⟩ :=
            helper_reserved (show IsWord "instance" by decide) (by decide) pass.script
          have reserved := keeps.reserve "instance"
          have unused := keeps.unused_fresh "instance"
          rw [known, Option.toList_none, List.append_nil] at unused
          refine ⟨{ reserved with inst := ?_, unused := ?_ }, fits, member, rfl⟩
          · rintro other ⟨⟩
            -- the name of the global object is taken, so the fresh name is another one
            refine ⟨fits, member, fun same => Text.fresh_not_mem pass.script.names "instance" ?_⟩
            rw [show Text.fresh pass.script.names "instance" = settings.globalName from same]
            exact global rfl
          · exact unused

theorem Keeps.global {settings : Settings} {script : Script} {pass : Pass} {position : Position}
    (keeps : Keeps settings script pass) {node : Node}
    (here : pass.script.tree.at? position = some node) {check : Check}
    (found : ofNode? settings node = some check) (own : check.native = false) :
    settings.globalName ∈ pass.script.names := by
  obtain ⟨left, right, form, children, found⟩ := ofNode?_eq_some found
  obtain ⟨-, member⟩ :=
    ofRight?_eq_some ((keeps.sound.at? here).child (by simp [children])) found own
  have inside : settings.globalName ∈ node.names :=
    Node.mem_names.mpr ⟨1, right, by simp [children], .inr member⟩
  exact keeps.taken _ (Node.mem_names_of_at? here inside)

theorem replaceAt_keeps {settings : Settings} {script : Script} {pass next : Pass} {met : Visit}
    (keeps : Keeps settings script pass) (run : Pass.replaceAt settings pass met = .ok next) :
    Keeps settings script next := by
  have below : met.position ≠ [] := by simp [Visit.position]
  rcases replaceAt_cases run with
    ⟨-, rfl⟩ | ⟨node, check, helper, between, value, here, found, named, made, rfl⟩
  · exact keeps
  · have sound := keeps.sound.at? here
    obtain ⟨left, right, form, children, found'⟩ := ofNode?_eq_some found
    have names : ∀ name ∈ node.names, name ∈ pass.script.tree.names :=
      fun name member => Node.mem_names_of_at? here member
    obtain ⟨keeps', fits, known, tree⟩ := helper_keeps keeps (keeps.global here found) named
    have replaces := replacement_replaces sound found fits made
    refine { keeps' with
      form := ?_
      sound := ?_
      taken := ?_ }
    · rw [tree, Node.form_modifyAt_of_ne_nil _ _ below]
      exact keeps.form
    · rw [tree]
      refine keeps.sound.modifyAt fun old place => ⟨replaces.sound, ?_⟩
      cases here.symm.trans place
      intro name key
      rw [form] at key
      cases key
    · intro name member
      rw [tree] at member
      rcases Node.mem_names_modifyAt below member with member | ⟨-, -, member | member⟩
      · exact keeps'.taken name (tree ▸ member)
      · rw [replaces.grouped] at member
        cases member
      · rcases replaces.names name member with rfl | member
        · exact known
        · exact keeps'.taken name (tree ▸ names name member)

def IsHelperDeclaration (settings : Settings) (node : Node) : Prop :=
  node.form = .declarations ∧ ∀ name ∈ node.names,
    name = "Object" ∨ (∃ count, name = Text.underscored count "toString") ∨
      name ≠ settings.globalName

def Pass.helperTrees (pass : Pass) : List Node :=
  pass.tagName.toList.map tagDeclaration ++
    pass.instanceName.toList.map fun name => .declared [[.identifier name]]

theorem Pass.declaresAll_helperTrees (pass : Pass) :
    Node.declaresAll pass.helperTrees = pass.tagName.toList ++ pass.instanceName.toList := by
  unfold helperTrees
  cases pass.tagName <;> cases pass.instanceName <;> rfl

theorem mapM_toList_eq {name? : Option String} {make : String → Except Fault Node}
    {tree : String → Node} (made : ∀ name ∈ name?, make name = .ok (tree name)) :
    name?.toList.mapM make = .ok (name?.toList.map tree) := by
  cases name? with
  | none => rfl
  | some name =>
      rw [Option.toList_some, List.mapM_cons, made name rfl]
      rfl

theorem declarations_eq {settings : Settings} {script : Script} {pass : Pass}
    (keeps : Keeps settings script pass) : pass.declarations = .ok pass.helperTrees := by
  have tags := mapM_toList_eq fun name known =>
    statement_tagDeclaration (keeps.tag name known).1.1
  have instances := mapM_toList_eq fun name known =>
    statement_variable (keeps.inst name known).1.1
  rw [Pass.declarations, tags, instances]
  rfl

theorem declarations_helpers {settings : Settings} {script : Script} {pass : Pass}
    (keeps : Keeps settings script pass) :
    ∀ helper ∈ pass.helperTrees, IsHelperDeclaration settings helper := by
  intro helper member
  rcases List.mem_append.mp member with member | member
  · obtain ⟨name, known, rfl⟩ := List.mem_map.mp member
    obtain ⟨-, -, count⟩ := keeps.tag name (Option.mem_toList.mp known)
    refine ⟨rfl, fun other member => ?_⟩
    have cases : other = name ∨ other = "Object" := by
      simpa [tagDeclaration, Node.declared, Node.access, Node.of, Node.identifier, Node.names,
        Node.namesFrom, Form.isKeyAt, Form.name?] using member
    rcases cases with rfl | rfl
    · exact .inr (.inl count)
    · exact .inl rfl
  · obtain ⟨name, known, rfl⟩ := List.mem_map.mp member
    obtain ⟨-, -, apart⟩ := keeps.inst name (Option.mem_toList.mp known)
    refine ⟨rfl, fun other member => ?_⟩
    have same : other = name := by
      simpa [Node.declared, Node.of, Node.identifier, Node.names, Node.namesFrom, Form.isKeyAt,
        Form.name?] using member
    exact .inr (.inr (same ▸ apart))

structure Checked (settings : Settings) (script checked : Script) : Prop where
  form : checked.tree.form = script.tree.form
  sound : checked.tree.Sound
  taken : ∀ name ∈ checked.tree.names, name ∈ checked.names
  grown : ∀ name ∈ script.names, name ∈ checked.names
  helpers : ∃ more, checked.helpers = script.helpers ++ more ∧
    (∀ helper ∈ more, IsHelperDeclaration settings helper) ∧
    Text.Unused script.names (Node.declaresAll more) ∧
    ∀ name ∈ Node.declaresAll more, name ∈ checked.names

theorem replace_invariant {settings : Settings} {script checked : Script} {events : List Event}
    (sound : script.tree.Sound) (taken : ∀ name ∈ script.tree.names, name ∈ script.names)
    (Holds : List Visit → Pass → Prop) (start : Holds [] { script })
    (step : ∀ done met before after, met ∈ candidates script.tree →
      Keeps settings script before → Holds done before →
      Pass.replaceAt settings before met = .ok after → Holds (done ++ [met]) after)
    (run : replace settings script = .ok (checked, events)) : ∃ pass,
      Keeps settings script pass ∧ Holds (candidates script.tree).reverse pass ∧
        events = pass.events ∧
        checked = { pass.script with helpers := script.helpers ++ pass.helperTrees } := by
  obtain ⟨pass, passed, run⟩ := bind_eq_ok_iff.mp run
  obtain ⟨helpers, declared, run⟩ := bind_eq_ok_iff.mp run
  cases run
  obtain ⟨keeps, held, same⟩ : Keeps settings script pass ∧
      Holds (candidates script.tree).reverse pass ∧ pass.script.helpers = script.helpers := by
    refine foldlM_invariant (fun done pass => Keeps settings script pass ∧ Holds done pass ∧
      pass.script.helpers = script.helpers) ?_ passed ⟨.start sound taken, start, rfl⟩
    rintro done met todo before after parts ⟨keeps, held, same⟩ run
    have member : met ∈ candidates script.tree := by
      rw [← List.mem_reverse, parts]
      simp
    refine ⟨replaceAt_keeps keeps run, step done met before after member keeps held run, ?_⟩
    rw [replaceAt_same run, same]
  rw [declarations_eq keeps] at declared
  cases declared
  exact ⟨pass, keeps, held, rfl, by rw [same]⟩

theorem replace_checked {settings : Settings} {script checked : Script} {events : List Event}
    (sound : script.tree.Sound) (taken : ∀ name ∈ script.tree.names, name ∈ script.names)
    (run : replace settings script = .ok (checked, events)) : Checked settings script checked := by
  obtain ⟨pass, keeps, -, -, rfl⟩ :=
    replace_invariant sound taken (fun _ _ => True) trivial (fun _ _ _ _ _ _ _ _ => trivial) run
  have named := pass.declaresAll_helperTrees
  refine ⟨keeps.form, keeps.sound, keeps.taken, keeps.grown, pass.helperTrees, rfl,
    declarations_helpers keeps, ?_, ?_⟩
  · rw [named]
    exact keeps.unused
  · intro name member
    rw [named, List.mem_append, Option.mem_toList, Option.mem_toList] at member
    exact member.elim (fun tag => (keeps.tag name tag).2.1) fun inst => (keeps.inst name inst).2.1

end TypeCheck
end ScriptModules
