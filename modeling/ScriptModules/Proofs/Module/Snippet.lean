import Mathlib
import ScriptModules.Module.Draft
import ScriptModules.Proofs.Tree.Names
import ScriptModules.Proofs.Tree.Respelling

namespace ScriptModules

open ScriptModules.Tree
open Text.Quoted (quote)

/-! ## Trees -/

namespace Tree.Node

def access (base : Node) (name : String) : Node :=
  of .member [base, of (.propertyName name) []]

def invocation (callee : Node) (items : List Node) : Node :=
  of .call [callee, of .arguments items]

def assignment (target value : Node) : Node :=
  of (.assign "=") [target, value]

def declared (declarators : List (List Node)) : Node :=
  of .declarations (declarators.map (of .declarator))

def requirement (specifier : String) : Node :=
  invocation (identifier "require") [of (.string specifier) []]

end Tree.Node

def Import.tree (required : Import) : Node :=
  match required.getter with
  | some getter =>
    .declared [[.identifier required.binding],
      [.identifier getter, .of (.function false false 0)
        [Node.of .returnWith
          [.assignment (.identifier required.binding) (.requirement required.specifier)]]]]
  | none => .declared [[.identifier required.binding, .requirement required.specifier]]

def Import.locals (required : Import) : List String :=
  required.binding :: required.getter.toList

def Import.base (required : Import) : Node :=
  match required.getter with
  | some getter =>
    .of .group
      [.of (.binary "||")
        [.identifier required.binding, .invocation (.identifier getter) []]]
  | none => .identifier required.binding

def exportTree (name : String) (value : Node) : Node :=
  .of .expression [.assignment (.access (.identifier "exports") name) value]

def markerTree (target : Node) (name : String) : Node :=
  .of .expression
    [.assignment (.access (.access target "prototype") ("is" ++ name)) (.of (.boolean "true") [])]

def guardedMarkerTree (name : String) : Node :=
  let target := Node.access (.identifier "exports") name
  .of .ifElse
    [.of (.binary "===") [.of (.unary "typeof") [target], .of (.string "'function'") []],
      markerTree target name]

def ProvideKind.exportOf (kind : ProvideKind) (name bound : String) : Export :=
  match kind with
  | .function =>
    { declarations := [.declared [[.identifier bound]]]
      statements := [markerTree (.identifier bound) name, exportTree name (.identifier bound)] }
  | .object | .array =>
    { declarations := [.declared [[.identifier bound]]]
      statements := [exportTree name (.identifier bound)] }
  | .other => { statements := [guardedMarkerTree name] }
  | .literal => {}

/-! ## Declared variables -/

theorem Import.declares_tree (required : Import) : required.tree.declares = required.locals := by
  obtain ⟨path, names, specifier, binding, getter⟩ := required
  cases getter <;> rfl

theorem ProvideKind.statements_exportOf (kind : ProvideKind) (name bound : String) :
    Node.declaresAll (kind.exportOf name bound).statements = [] := by
  cases kind <;> rfl

theorem ProvideKind.exportTree_mem {kind : ProvideKind} (hoistable : kind.isHoistable = true)
    (name bound : String) :
    exportTree name (.identifier bound) ∈ (kind.exportOf name bound).statements := by
  cases kind with
  | function | object | array => simp [exportOf]
  | literal | other => cases hoistable

/-! ## Declarations -/

theorem isName_locals : IsName "require" ∧ IsName "exports" ∧ IsName "prototype" ∧
    IsName "M" ∧ IsName "G" := by
  decide

def directFragments (binding specifier : String) : List Fragment :=
  [⟨.keyword, "var", false⟩, ⟨.name, binding, true⟩, ⟨.punctuator, "=", true⟩,
   ⟨.name, "require", true⟩, ⟨.punctuator, "(", false⟩, ⟨.string, specifier, false⟩,
   ⟨.punctuator, ")", false⟩, ⟨.punctuator, ";", false⟩]

theorem directFragments_valid {binding : String} (name : IsName binding) (content : String) :
    ∀ fragment ∈ directFragments binding (quote content), fragment.Valid := by
  simp [directFragments, Lexeme.keywords, Lexeme.punctuators, name, isName_locals]

theorem statement_direct {binding : String} (name : IsName binding) (content : String) :
    Template.statement ("var " ++ binding ++ " = " ++ ("require(" ++ quote content ++ ");")) [] =
      .ok (.declared [[.identifier binding, .requirement (quote content)]]) := by
  have parsed : parseWithin 100 (spell (directFragments "M" "'s'")) =
      some (.program [.declared [[.identifier "M", .requirement "'s'"]]]) := by
    cbv
  have read := statement_respell
    (fun text => if text = "M" then binding else if text = "'s'" then quote content else text)
    parsed rfl (by simp [directFragments, Fragment.Apart, extenders])
    (directFragments_valid isName_locals.2.2.2.1 "s") (directFragments_valid name content)
    (by simp [directFragments, Fragment.Fixed]) rfl
    (show ("var " ++ binding ++ " = " ++ ("require(" ++ quote content ++ ");")).toList = _ by
      simp [spell, directFragments, Fragment.chars])
    (by simp [Parser.levels]; omega)
  simpa [Node.declared, Node.requirement, Node.invocation, Node.of, Node.identifier, Node.respell,
    Node.respells, Form.respell] using read

def deferredFragments (binding getter specifier : String) : List Fragment :=
  [⟨.keyword, "var", false⟩, ⟨.name, binding, true⟩, ⟨.punctuator, ",", false⟩,
   ⟨.name, getter, true⟩, ⟨.punctuator, "=", true⟩, ⟨.keyword, "function", true⟩,
   ⟨.punctuator, "(", true⟩, ⟨.punctuator, ")", false⟩, ⟨.punctuator, "\x7b", true⟩,
   ⟨.keyword, "return", true⟩, ⟨.name, binding, true⟩, ⟨.punctuator, "=", true⟩,
   ⟨.name, "require", true⟩, ⟨.punctuator, "(", false⟩, ⟨.string, specifier, false⟩,
   ⟨.punctuator, ")", false⟩, ⟨.punctuator, ";", false⟩, ⟨.punctuator, "\x7d", true⟩,
   ⟨.punctuator, ";", false⟩]

theorem deferredFragments_valid {binding getter : String} (name : IsName binding)
    (name' : IsName getter) (content : String) :
    ∀ fragment ∈ deferredFragments binding getter (quote content), fragment.Valid := by
  simp [deferredFragments, Lexeme.keywords, Lexeme.punctuators, name, name',
    isName_locals]

theorem Import.statement_declaration {required : Import} (name : IsName required.binding)
    (name' : ∀ getter ∈ required.getter, IsName getter) {content : String}
    (quoted : required.specifier = quote content) :
    Template.statement required.declaration [] = .ok required.tree := by
  obtain ⟨path, names, specifier, binding, getter⟩ := required
  obtain rfl : specifier = quote content := quoted
  cases getter with
  | none => exact statement_direct name content
  | some getter =>
      have parsed : parseWithin 100 (spell (deferredFragments "M" "G" "'s'")) =
          some (.program [Import.tree ⟨"", [], "'s'", "M", some "G"⟩]) := by
        cbv
      have read := statement_respell
        (fun text => if text = "M" then binding else if text = "G" then getter
          else if text = "'s'" then quote content else text)
        parsed rfl (by simp [deferredFragments, Fragment.Apart, extenders])
        (deferredFragments_valid isName_locals.2.2.2.1 isName_locals.2.2.2.2 "s")
        (deferredFragments_valid name (name' getter rfl) content)
        (by simp [deferredFragments, Fragment.Fixed]) rfl
        (show (Import.declaration ⟨path, names, quote content, binding, some getter⟩).toList = _ by
          simp [Import.declaration, spell, deferredFragments, Fragment.chars])
        (by simp [Import.declaration, Parser.levels]; omega)
      simpa [Import.tree, Node.declared, Node.requirement, Node.invocation, Node.assignment,
        Node.of, Node.identifier, Node.respell, Node.respells, Form.respell] using read

def variableFragments (name : String) : List Fragment :=
  [⟨.keyword, "var", false⟩, ⟨.name, name, true⟩, ⟨.punctuator, ";", false⟩]

theorem statement_variable {name : String} (valid : IsName name) :
    Template.statement ("var " ++ name ++ ";") [] = .ok (.declared [[.identifier name]]) := by
  have fragments_valid {name : String} (valid : IsName name) :
      ∀ fragment ∈ variableFragments name, fragment.Valid := by
    simp [variableFragments, Lexeme.keywords, Lexeme.punctuators, valid]
  have parsed : parseWithin 40 (spell (variableFragments "M")) =
      some (.program [.declared [[.identifier "M"]]]) := by
    cbv
  have read := statement_respell (fun text => if text = "M" then name else text)
    parsed rfl (by simp [variableFragments, Fragment.Apart])
    (fragments_valid isName_locals.2.2.2.1) (fragments_valid valid)
    (by simp [variableFragments, Fragment.Fixed]) rfl
    (show ("var " ++ name ++ ";").toList = _ by
      simp [spell, variableFragments, Fragment.chars])
    (by simp [Parser.levels]; omega)
  simpa [Node.declared, Node.of, Node.identifier, Node.respell, Node.respells, Form.respell]
    using read

/-! ## Expressions -/

theorem expression_of_statement {text : String} {value : Node}
    (statement : Template.statement (text ++ ";") [] = .ok (.of .expression [value])) :
    Template.expression text [] = .ok value := by
  rw [Template.expression, Template.expression?, statement]
  rfl

def nameFragments (name : String) : List Fragment :=
  [⟨.name, name, false⟩, ⟨.punctuator, ";", false⟩]

theorem reference_of_isName {name : String} (valid : IsName name) :
    Template.reference name = .ok (.identifier name) := by
  have fragments_valid {name : String} (valid : IsName name) :
      ∀ fragment ∈ nameFragments name, fragment.Valid := by
    simp [nameFragments, Lexeme.punctuators, valid]
  have parsed : parseWithin 30 (spell (nameFragments "M")) =
      some (.program [.of .expression [.identifier "M"]]) := by
    cbv
  have read := statement_respell (fun text => if text = "M" then name else text)
    parsed rfl (by simp [nameFragments, Fragment.Apart])
    (fragments_valid isName_locals.2.2.2.1) (fragments_valid valid)
    (by simp [nameFragments, Fragment.Fixed]) rfl
    (show (name ++ ";").toList = _ by
      simp [spell, nameFragments, Fragment.chars])
    (by simp [Parser.levels]; omega)
  exact expression_of_statement
    (by simpa [Node.of, Node.identifier, Node.respell, Node.respells, Form.respell] using read)

def choiceFragments (binding getter : String) : List Fragment :=
  [⟨.punctuator, "(", false⟩, ⟨.name, binding, false⟩, ⟨.punctuator, "||", true⟩,
   ⟨.name, getter, true⟩, ⟨.punctuator, "(", false⟩, ⟨.punctuator, ")", false⟩,
   ⟨.punctuator, ")", false⟩, ⟨.punctuator, ";", false⟩]

theorem Import.expression_reference {required : Import} (name : IsName required.binding)
    (name' : ∀ getter ∈ required.getter, IsName getter) :
    Template.expression required.reference [] = .ok required.base := by
  obtain ⟨path, names, specifier, binding, getter⟩ := required
  cases getter with
  | none => exact reference_of_isName name
  | some getter =>
      have fragments_valid {binding getter : String} (name : IsName binding)
          (name' : IsName getter) :
          ∀ fragment ∈ choiceFragments binding getter, fragment.Valid := by
        simp [choiceFragments, Lexeme.punctuators, name, name']
      have parsed : parseWithin 60 (spell (choiceFragments "M" "G")) =
          some (.program [.of .expression [Import.base ⟨"", [], "", "M", some "G"⟩]]) := by
        cbv
      have read := statement_respell
        (fun text => if text = "M" then binding else if text = "G" then getter else text)
        parsed rfl (by simp [choiceFragments, Fragment.Apart, extenders])
        (fragments_valid isName_locals.2.2.2.1 isName_locals.2.2.2.2)
        (fragments_valid name (name' getter rfl))
        (by simp [choiceFragments, Fragment.Fixed]) rfl
        (show (Import.reference ⟨path, names, specifier, binding, some getter⟩ ++ ";").toList = _ by
          simp [Import.reference, spell, choiceFragments, Fragment.chars])
        (by simp [Import.reference, Parser.levels]; omega)
      exact expression_of_statement (by
        simpa [Import.base, Node.invocation, Node.of, Node.identifier, Node.respell,
          Node.respells, Form.respell] using read)

/-! ## Exports and markers -/

theorem isName_marked {name : String} (word : IsWord name) : IsName ("is" ++ name) := by
  obtain ⟨start, tail, parts, -, starts, continues⟩ := word
  refine ⟨⟨'i' :: 's' :: start, tail, by simp [parts], by simp, ?_, continues⟩, ?_⟩
  · intro c member
    have letters : startsIdentifier 'i' = true ∧ startsIdentifier 's' = true := by decide
    simp only [List.mem_cons] at member
    rcases member with rfl | rfl | member
    · exact letters.1
    · exact letters.2
    · exact starts c member
  · intro keyword
    have other : ∀ keyword ∈ Lexeme.keywords, ¬['i', 's'].isPrefixOf keyword.toList := by decide
    exact other _ keyword (by simp)

def propertyFragment (name : String) : Fragment :=
  { kind := if name ∈ Lexeme.keywords then .keyword else .name, text := name }

theorem propertyFragment_valid {name : String} (word : IsWord name) :
    (propertyFragment name).Valid := by
  unfold propertyFragment
  split
  · assumption
  · rename_i free
    exact ⟨word, free⟩

@[simp] theorem apart_propertyFragment (mark name : String) (gap : Bool) :
    Fragment.Apart { kind := .punctuator, text := mark, gap } (propertyFragment name) := by
  unfold propertyFragment
  split <;> trivial

@[simp] theorem propertyFragment_apart (mark name : String) (gap : Bool) :
    (propertyFragment name).Apart { kind := .punctuator, text := mark, gap } := by
  unfold propertyFragment
  split <;> trivial

def exportTable (name value : String) : String → String := fun text =>
  if text = "N" then name else if text = "M" then value
  else if text = "isN" then "is" ++ name else text

theorem exportTable_keyword (name value : String) :
    ∀ keyword ∈ Lexeme.keywords, exportTable name value keyword = keyword := by
  intro keyword member
  have other : "N" ∉ Lexeme.keywords ∧ "M" ∉ Lexeme.keywords ∧ "isN" ∉ Lexeme.keywords := by
    decide
  have notN : keyword ≠ "N" := fun same => other.1 (same ▸ member)
  have notM : keyword ≠ "M" := fun same => other.2.1 (same ▸ member)
  have notIsN : keyword ≠ "isN" := fun same => other.2.2 (same ▸ member)
  simp [exportTable, notN, notM, notIsN]

/-- A reserved word is its own example, since the parser tells it from others. -/
theorem property_example {table : String → String} {name : String} (own : table "N" = name)
    (keywords : ∀ keyword ∈ Lexeme.keywords, table keyword = keyword) :
    ∃ sample ∈ "N" :: Lexeme.keywords, table sample = name ∧ (sample = "N" ∨ sample = name) ∧
      (propertyFragment sample).respell table = propertyFragment name ∧
      (propertyFragment sample).Fixed table := by
  by_cases keyword : name ∈ Lexeme.keywords
  · have same := keywords name keyword
    refine ⟨name, List.mem_cons_of_mem _ keyword, same, .inr rfl, ?_, fun _ _ => same⟩
    simp [propertyFragment, Fragment.respell, same]
  · have free : "N" ∉ Lexeme.keywords := by decide
    refine ⟨"N", List.mem_cons_self, own, .inl rfl, ?_, fun no => absurd ?_ no⟩
    · simp [propertyFragment, Fragment.respell, keyword, free, own]
    · simp [propertyFragment, free]

theorem isWord_example : ∀ name ∈ "N" :: Lexeme.keywords, IsWord name := by
  decide

def exportFragments (name value : String) : List Fragment :=
  [⟨.name, "exports", false⟩, ⟨.punctuator, ".", false⟩, propertyFragment name,
   ⟨.punctuator, "=", true⟩, ⟨.name, value, true⟩, ⟨.punctuator, ";", false⟩]

theorem exportFragments_valid {name value : String} (word : IsWord name) (valid : IsName value) :
    ∀ fragment ∈ exportFragments name value, fragment.Valid := by
  have property := propertyFragment_valid word
  simp [exportFragments, Lexeme.punctuators, valid, isName_locals, property]

theorem statement_export {name value : String} (word : IsWord name) (valid : IsName value) :
    Template.statement ("exports." ++ name ++ " = " ++ value ++ ";") [] =
      .ok (exportTree name (.identifier value)) := by
  have parsed : ∀ name ∈ "N" :: Lexeme.keywords,
      parseWithin 100 (spell (exportFragments name "M")) =
        some (.program [exportTree name (.identifier "M")]) := by
    decide +kernel
  obtain ⟨sample, known, same, -, fragment, fixed⟩ :=
    @property_example (exportTable name value) name rfl (exportTable_keyword name value)
  have read := statement_respell (exportTable name value) (parsed sample known) rfl
    (by simp [exportFragments]; simp [Fragment.Apart])
    (exportFragments_valid (isWord_example sample known) isName_locals.2.2.2.1)
    (exportFragments_valid word valid)
    (by simp [exportFragments, fixed]; simp [Fragment.Fixed, exportTable])
    (by simp only [exportFragments, List.map_cons, List.map_nil, fragment]; rfl)
    (show ("exports." ++ name ++ " = " ++ value ++ ";").toList = _ by
      simp [spell, exportFragments, propertyFragment, Fragment.chars])
    (by simp [Parser.levels]; omega)
  rw [exportTable] at same
  simpa [exportTree, Node.access, Node.assignment, Node.of, Node.identifier, Node.respell,
    Node.respells, Form.respell, exportTable, same] using read

def markerFragments (target name : String) : List Fragment :=
  [⟨.name, target, false⟩, ⟨.punctuator, ".", false⟩, ⟨.name, "prototype", false⟩,
   ⟨.punctuator, ".", false⟩, ⟨.name, name, false⟩, ⟨.punctuator, "=", true⟩,
   ⟨.keyword, "true", true⟩, ⟨.punctuator, ";", false⟩]

theorem statement_marker {target name : String} (valid : IsName target) (word : IsWord name) :
    Template.statement (Draft.markerText target name) [] =
      .ok (markerTree (.identifier target) name) := by
  have fragments_valid {target name : String} (valid : IsName target) (valid' : IsName name) :
      ∀ fragment ∈ markerFragments target name, fragment.Valid := by
    simp [markerFragments, Lexeme.keywords, Lexeme.punctuators, valid, valid', isName_locals]
  have parsed : parseWithin 100 (spell (markerFragments "M" "isN")) =
      some (.program [markerTree (.identifier "M") "N"]) := by
    cbv
  have read := statement_respell (exportTable name target) parsed rfl
    (by simp [markerFragments, Fragment.Apart])
    (fragments_valid isName_locals.2.2.2.1 (by decide)) (fragments_valid valid (isName_marked word))
    (by simp [markerFragments, Fragment.Fixed, exportTable]) rfl
    (show (Draft.markerText target name).toList = spell (markerFragments target ("is" ++ name)) by
      simp [Draft.markerText, spell, markerFragments, Fragment.chars])
    (by simp [Draft.markerText, Parser.levels]; omega)
  simpa [markerTree, Node.access, Node.assignment, Node.of, Node.identifier, Node.respell,
    Node.respells, Form.respell, exportTable] using read

def guardedFragments (name : String) : List Fragment :=
  [⟨.keyword, "if", false⟩, ⟨.punctuator, "(", true⟩, ⟨.keyword, "typeof", false⟩,
   ⟨.name, "exports", true⟩, ⟨.punctuator, ".", false⟩, propertyFragment name,
   ⟨.punctuator, "===", true⟩, ⟨.string, "'function'", true⟩, ⟨.punctuator, ")", false⟩,
   ⟨.name, "exports", true⟩, ⟨.punctuator, ".", false⟩, propertyFragment name,
   ⟨.punctuator, ".", false⟩, ⟨.name, "prototype", false⟩, ⟨.punctuator, ".", false⟩,
   ⟨.name, "is" ++ name, false⟩, ⟨.punctuator, "=", true⟩, ⟨.keyword, "true", true⟩,
   ⟨.punctuator, ";", false⟩]

theorem statement_guardedMarker {name : String} (word : IsWord name) :
    Template.statement ("if (typeof " ++ Draft.exported name ++ " === 'function') " ++
      Draft.markerText (Draft.exported name) name) [] = .ok (guardedMarkerTree name) := by
  have spelled : ("if (typeof " ++ Draft.exported name ++ " === 'function') " ++
      Draft.markerText (Draft.exported name) name).toList = spell (guardedFragments name) := by
    simp [Draft.exported, Draft.markerText, spell, guardedFragments, propertyFragment,
      Fragment.chars]
  have fragments_valid {name : String} (word : IsWord name) :
      ∀ fragment ∈ guardedFragments name, fragment.Valid := by
    have quoted : Fragment.Valid ⟨.string, "'function'", true⟩ := ⟨"function", by decide⟩
    simp [guardedFragments, Lexeme.keywords, Lexeme.punctuators, isName_locals,
      propertyFragment_valid word, isName_marked word, quoted]
  have parsed : ∀ name ∈ "N" :: Lexeme.keywords,
      parseWithin 300 (spell (guardedFragments name)) =
        some (.program [guardedMarkerTree name]) := by
    decide +kernel
  obtain ⟨sample, known, same, origin, fragment, fixed⟩ :=
    @property_example (exportTable name "M") name rfl (exportTable_keyword name "M")
  have marked : exportTable name "M" ("is" ++ sample) = "is" ++ name := by
    rcases origin with rfl | rfl
    · rfl
    · simp [exportTable, ← String.toList_inj]
  have read := statement_respell (exportTable name "M") (parsed sample known) rfl
    (by simp [guardedFragments]; simp [Fragment.Apart])
    (fragments_valid (isWord_example sample known)) (fragments_valid word)
    (by simp [guardedFragments, fixed]; simp [Fragment.Fixed, exportTable])
    (by
      simp only [guardedFragments, List.map_cons, List.map_nil, fragment]
      simp only [Fragment.respell, marked]
      rfl)
    spelled (by simp [Draft.exported, Draft.markerText, Parser.levels]; omega)
  rw [exportTable] at same marked
  simpa [guardedMarkerTree, markerTree, Node.access, Node.assignment, Node.of, Node.identifier,
    Node.respell, Node.respells, Form.respell, exportTable, same, marked] using read

end ScriptModules
