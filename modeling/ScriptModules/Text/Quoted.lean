namespace ScriptModules.Text.Quoted

def escape : Char → List Char
  | '\\' => ['\\', '\\']
  | '\x27' => ['\\', '\x27']
  | '\n' => ['\\', 'n']
  | '\x0d' => ['\\', 'r']
  | '\u2028' => ['\\', 'u', '2', '0', '2', '8']
  | '\u2029' => ['\\', 'u', '2', '0', '2', '9']
  | c => [c]

def encode (text : List Char) : List Char :=
  '\x27' :: (text.flatMap escape ++ ['\x27'])

def quote (text : String) : String :=
  String.ofList (encode text.toList)

end ScriptModules.Text.Quoted
