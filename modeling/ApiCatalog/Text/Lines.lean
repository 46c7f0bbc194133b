namespace ApiCatalog.Text

def splitOn (sep : Char) : List Char → List (List Char)
  | [] => [[]]
  | c :: cs =>
    if c = sep then [] :: splitOn sep cs
    else
      match splitOn sep cs with
      | [] => [[c]]
      | l :: ls => (c :: l) :: ls

def lines (s : List Char) : List (List Char) :=
  splitOn '\n' s

def unlines (ls : List (List Char)) : List Char :=
  ['\n'].intercalate ls

def cutAt? (sep : Char) : List Char → Option (List Char × List Char)
  | [] => none
  | c :: cs =>
    if c = sep then some ([], cs)
    else (cutAt? sep cs).map fun (a, b) => (c :: a, b)

def cutAt (sep : Char) (s : List Char) : List Char × List Char :=
  (cutAt? sep s).getD (s, [])

def dropPrefix? : List Char → List Char → Option (List Char)
  | [], s => some s
  | _ :: _, [] => none
  | p :: ps, c :: cs => if p = c then dropPrefix? ps cs else none

def startsWith (start text : String) : Bool :=
  start.toList.isPrefixOf text.toList

def endsWith (finish text : String) : Bool :=
  finish.toList.isSuffixOf text.toList

def cutAtText? (sep : List Char) : List Char → Option (List Char × List Char)
  | [] => (dropPrefix? sep []).map ([], ·)
  | c :: cs =>
    match dropPrefix? sep (c :: cs) with
    | some after => some ([], after)
    | none => (cutAtText? sep cs).map fun (a, b) => (c :: a, b)

/-- A line end of two characters, or of a carriage return alone, is read as a line feed. -/
def readLineEnds : List Char → List Char
  | '\r' :: '\n' :: cs => '\n' :: readLineEnds cs
  | '\r' :: cs => '\n' :: readLineEnds cs
  | c :: cs => c :: readLineEnds cs
  | [] => []

/-- Where the text after `offset` characters stands: its line and column, both from one, columns
in characters. -/
def positionAt (s : List Char) (offset : Nat) : Nat × Nat :=
  let before := s.take offset
  (before.count '\n' + 1, (before.reverse.takeWhile (· != '\n')).length + 1)

end ApiCatalog.Text
