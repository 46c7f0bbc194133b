import ApiCatalog.Text.Blank
import ApiCatalog.Text.Lines

namespace ApiCatalog.DocComment

open Text

/-- A doc comment opens with two stars and is not the empty comment of two stars. -/
def isDocComment (raw : List Char) : Bool :=
  match trimLeft raw with
  | '/' :: '*' :: '*' :: '/' :: _ => false
  | '/' :: '*' :: '*' :: _ => true
  | _ => false

def dropOpening : List Char → List Char
  | '/' :: '*' :: '*' :: s => s
  | '/' :: '*' :: s => s
  | s => s

def dropClosing (s : List Char) : List Char :=
  match s.reverse with
  | '/' :: '*' :: r => r.reverse
  | _ => s

/-- A line without its star and the space after that; a line without a star loses its
indentation instead. -/
def cleanLine (line : List Char) : List Char :=
  match trimLeft line with
  | '*' :: ' ' :: s => trimRight s
  | '*' :: s => trimRight s
  | _ => trim line

def cleanText (raw : List Char) : List Char :=
  trim (unlines ((lines (dropClosing (dropOpening (trim raw)))).map cleanLine))

def clean? (raw : List Char) : Option (List Char) :=
  match cleanText raw with
  | [] => none
  | s => some s

end ApiCatalog.DocComment
