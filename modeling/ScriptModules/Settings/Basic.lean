import ScriptModules.Path.FilePath

namespace ScriptModules

inductive Value where
  | text (value : String)
  | integer (value : Int)
  | boolean (value : Bool)
  | null
  | list (items : List Value)
  | table (entries : List (String × Value))

structure Settings where
  globalName : String := "THREE"
  rootPath : String := "./Three.js"
  rootAlias : String := "Three"
  rootNames : List String := ["REVISION"]
  chunkTablePath : String := "./renderers/shaders/ShaderChunk.js"
  codeExtension : String := ".js"
  shaderExtension : String := ".glsl"
  nativeTypes : List String :=
    ["Array", "ArrayBuffer", "Uint32Array", "Uint16Array", "String", "Function", "RegExp",
     "Number", "PositionSensorVRDevice", "HMDVRDevice"]
  entryPath : String := "./index.js"
  templateDirectory : FilePath := { parts := ["dist"] }
  copiedFiles : List String := ["package.json", "README.md"]
  indent : String := "\t"
deriving DecidableEq, Repr

end ScriptModules
