import ScriptModules.Console.Markup
import ScriptModules.Conversion.Report

namespace ScriptModules

def LogLine.display (line : LogLine) : List String :=
  match Console.linesOf line.message with
  | [] => []
  | first :: more =>
    (Text.padTo 8 line.level.word ++ " " ++ first) :: more.map fun text => Text.copies 9 " " ++ text

namespace Console

def rowLine (bar : String) (widths : Nat × Nat) (left right : String) : String :=
  bar ++ " " ++ Text.padTo widths.1 left ++ " " ++ bar ++ " " ++ Text.padTo widths.2 right
    ++ " " ++ bar

def row (bar : String) (widths : Nat × Nat) (left right : List String) : List String :=
  (List.range (max left.length right.length)).map fun n =>
    rowLine bar widths (left[n]?.getD "") (right[n]?.getD "")

def rule (left inner right stroke : String) (widths : Nat × Nat) : String :=
  left ++ Text.copies (widths.1 + 2) stroke ++ inner ++ Text.copies (widths.2 + 2) stroke ++ right

def longest (texts : List String) : Nat :=
  texts.foldl (fun most text => max most (Text.width text)) 0

def tableTitle : String :=
  "Excluded Files"

def table (excluded : List ExcludedFile) : List String :=
  let paths := excluded.map fun file => linesOf file.path
  let reasons := excluded.map fun file => linesOf file.reason
  let widths := (longest ("File" :: paths.flatten), longest ("Reason" :: reasons.flatten))
  [Text.copies ((widths.1 + widths.2 + 7 - tableTitle.length) / 2) " " ++ tableTitle,
    rule "┏" "┳" "┓" "━" widths,
    rowLine "┃" widths "File" "Reason",
    rule "┡" "╇" "┩" "━" widths] ++
  (List.zipWith (row "│" widths) paths reasons).flatten ++
  [rule "└" "┴" "┘" "─" widths]

inductive Closing where
  | complete (line : LogLine)
  | incomplete (lines : List String)

def closing (converted : Nat) (excluded : List ExcludedFile) : Closing :=
  if excluded.isEmpty then
    let count := toString converted
    .complete
      { level := .success
        message := "Conversion complete: " ++ count ++ "/" ++ count ++ " files converted." }
  else
    .incomplete (table excluded ++
      ["", "Summary: " ++ toString converted ++ " converted, " ++ toString excluded.length
        ++ " excluded."])

end Console

end ScriptModules
