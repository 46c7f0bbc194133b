import ApiCatalog.Component.Markup
import ApiCatalog.Text.WordChar

namespace ApiCatalog.Component

open Text

def isIndent (c : Char) : Bool :=
  c = ' ' || c = '\t'

def commonStart : List Char → List Char → List Char
  | a :: s, b :: t => if a = b then a :: commonStart s t else []
  | _, _ => []

/-- The indentation that all lines share, but for those that are empty. -/
def margin (ls : List (List Char)) : List Char :=
  match (ls.filter fun l => !l.isEmpty).map (List.takeWhile isIndent) with
  | [] => []
  | first :: rest => rest.foldl commonStart first

/-- Lines without the indentation that they share. Lines of indentation alone become empty. -/
def dedent (s : List Char) : List Char :=
  let ls := (lines s).map fun l => if l.all isIndent then [] else l
  let shared := margin ls
  unlines (ls.map fun l => (dropPrefix? shared l).getD l)

def taggedComment? (s : List Char) : Option (List Char) := do
  let rest ← dropPrefix? "<!--".toList s
  let body ← dropPrefix? "@component".toList (trimLeft rest)
  if endsWord body then (cutAtText? "-->".toList body).map (·.1) else none

def componentComment? (content : List Char) : Option String := do
  let (_, body) ← findFrom taggedComment? 0 content
  let (first, rest) := cutAt '\n' body
  match trim (trim first ++ '\n' :: dedent rest) with
  | [] => none
  | text => some (String.ofList text)

end ApiCatalog.Component
