import ApiCatalog.Text.Blank

namespace ApiCatalog.Component

/-- How a character changes the depth of nesting. The head of an arrow closes too. -/
def nesting (c : Char) : Int :=
  if "<([\x7b".toList.contains c then 1
  else if ">)]\x7d".toList.contains c then -1
  else 0

def splitBars : Int → List Char → List (List Char)
  | _, [] => [[]]
  | depth, c :: cs =>
    let depth := depth + nesting c
    let rest := splitBars depth cs
    if c = '|' && depth = 0 then [] :: rest
    else
      match rest with
      | [] => [[c]]
      | t :: ts => (c :: t) :: ts

def splitUnion (type : String) : List String :=
  (splitBars 0 type.toList).map fun t => String.ofList (Text.trim t)

def includesUndefined (type : String) : Bool :=
  (splitUnion type).contains "undefined"

end ApiCatalog.Component
