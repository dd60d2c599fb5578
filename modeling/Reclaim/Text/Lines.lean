import Reclaim.Text.Blank

namespace Reclaim.Text

def dropReturn (line : List Char) : List Char :=
  if line.getLast? = some '\r' then line.dropLast else line

def finishLines : List (List Char) → List (List Char)
  | [] => []
  | [last] => if last.isEmpty then [] else [last]
  | line :: rest => dropReturn line :: finishLines rest

def lines (s : String) : List String :=
  (finishLines (splitAt (· == '\n') s.toList)).map String.ofList

end Reclaim.Text
