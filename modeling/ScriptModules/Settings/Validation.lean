import ScriptModules.Fault
import ScriptModules.Path.Corpus
import ScriptModules.Settings.Basic
import ScriptModules.Text.Alphanumeric
import ScriptModules.Text.Blank
import ScriptModules.Text.Ledger

namespace ScriptModules.Settings

abbrev Checked (α : Type) := Except (List Problem) α

def wrong {α : Type} (setting : String) (cause : Cause) : Checked α :=
  .error [{ setting, cause }]

def checkText (setting : String) : Value → Checked String
  | .text value => .ok value
  | _ => wrong setting .notText

/-- A text that is used as an identifier: letters, digits, `_` and `$`, not starting with a
digit. Blanks around it are dropped. -/
def checkIdentifier (setting : String) (value : Value) : Checked String := do
  let name := Text.strip (← checkText setting value)
  match name.toList with
  | first :: rest =>
    let fits := fun c => Text.isAlphanumeric c || c == '_' || c == '$'
    if !Text.isDigit first && (first :: rest).all fits then pure name
    else wrong setting (.notIdentifier name)
  | [] => wrong setting (.notIdentifier name)

def checkCorpusPath (setting : String) (value : Value) : Checked String := do
  let path ← checkText setting value
  match Path.normalize? path with
  | some normal => pure normal
  | none => wrong setting (.outsideCorpus path)

def checkExtension (setting : String) (value : Value) : Checked String := do
  let extension := Text.strip (← checkText setting value)
  pure (if Text.startsWith extension "." then extension else "." ++ extension)

def splitList (text : String) : List String :=
  ((Text.splitAt ',' text).map Text.strip).filter (· != "")

def itemProblems (setting : String) : Nat → List Value → List Problem
  | _, [] => []
  | index, .text _ :: items => itemProblems setting (index + 1) items
  | index, _ :: items =>
    { setting, item := some index, cause := .notText } :: itemProblems setting (index + 1) items

def textItems (items : List Value) : List String :=
  items.filterMap fun
    | .text value => some value
    | _ => none

def checkList (setting : String) : Value → Checked (List String)
  | .text value => .ok (splitList value)
  | .list items =>
    match itemProblems setting 0 items with
    | [] => .ok (textItems items)
    | problems => .error problems
  | _ => wrong setting .notList

def checkDirectory (setting : String) : Value → Checked FilePath
  | .text value => .ok (FilePath.parse value)
  | _ => wrong setting .notPath

def settingNames : List String :=
  ["namespace", "root_module_path", "root_module_alias", "root_extra_provides",
   "shader_chunk_path", "code_extension", "shader_extension", "native_instanceof_types",
   "index_path", "template_dir", "passthrough_files", "indent"]

def problems {α : Type} : Checked α → List Problem
  | .ok _ => []
  | .error problems => problems

def given {α : Type} (table : Ledger Value) (setting : String)
    (check : String → Value → Checked α) (default : α) : Checked α :=
  match table.get? setting with
  | some value => check setting value
  | none => .ok default

def valueOr {α : Type} (default : α) : Checked α → α
  | .ok value => value
  | .error _ => default

def unknownNames (table : Ledger Value) : List Problem :=
  (table.names.filter fun name => !settingNames.contains name).map fun setting =>
    { setting, cause := .unknown }

def ofTable (table : Ledger Value) : Except Fault Settings :=
  let standard : Settings := {}
  let globalName := given table "namespace" checkIdentifier standard.globalName
  let rootPath := given table "root_module_path" checkCorpusPath standard.rootPath
  let rootAlias := given table "root_module_alias" checkIdentifier standard.rootAlias
  let rootNames := given table "root_extra_provides" checkList standard.rootNames
  let chunkTablePath := given table "shader_chunk_path" checkCorpusPath standard.chunkTablePath
  let codeExtension := given table "code_extension" checkExtension standard.codeExtension
  let shaderExtension := given table "shader_extension" checkExtension standard.shaderExtension
  let nativeTypes := given table "native_instanceof_types" checkList standard.nativeTypes
  let entryPath := given table "index_path" checkCorpusPath standard.entryPath
  let templateDirectory := given table "template_dir" checkDirectory standard.templateDirectory
  let copiedFiles := given table "passthrough_files" checkList standard.copiedFiles
  let indent := given table "indent" checkText standard.indent
  let found :=
    problems globalName ++ problems rootPath ++ problems rootAlias ++ problems rootNames ++
      problems chunkTablePath ++ problems codeExtension ++ problems shaderExtension ++
      problems nativeTypes ++ problems entryPath ++ problems templateDirectory ++
      problems copiedFiles ++ problems indent ++ unknownNames table
  match found with
  | [] => .ok {
      globalName := valueOr standard.globalName globalName
      rootPath := valueOr standard.rootPath rootPath
      rootAlias := valueOr standard.rootAlias rootAlias
      rootNames := valueOr standard.rootNames rootNames
      chunkTablePath := valueOr standard.chunkTablePath chunkTablePath
      codeExtension := valueOr standard.codeExtension codeExtension
      shaderExtension := valueOr standard.shaderExtension shaderExtension
      nativeTypes := valueOr standard.nativeTypes nativeTypes
      entryPath := valueOr standard.entryPath entryPath
      templateDirectory := valueOr standard.templateDirectory templateDirectory
      copiedFiles := valueOr standard.copiedFiles copiedFiles
      indent := valueOr standard.indent indent }
  | found => .error (.wrongSettings found)

end ScriptModules.Settings
