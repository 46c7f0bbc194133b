import ApiCatalog.Text.Lines

/-!
File paths, whose parts are set apart by slashes. A path is absolute when it starts with a slash; two slashes
at the start, and no third, are kept apart from one.
-/

namespace ApiCatalog

open Text

structure Path where
  slashes : Nat
  parts : List String
  deriving DecidableEq

namespace Path

def leadingSlashes : List Char → Nat
  | '/' :: '/' :: '/' :: _ => 1
  | '/' :: '/' :: _ => 2
  | '/' :: _ => 1
  | _ => 0

def meansNothing (part : String) : Bool :=
  part == "" || part == "."

def ofString (s : String) : Path where
  slashes := leadingSlashes s.toList
  parts := ((splitOn '/' s.toList).map String.ofList).filter fun p => !meansNothing p

def isAbsolute (p : Path) : Bool :=
  p.slashes != 0

def toString (p : Path) : String :=
  let s := String.ofList (List.replicate p.slashes '/') ++ "/".intercalate p.parts
  if s.isEmpty then "." else s

def join (p q : Path) : Path :=
  if q.isAbsolute then q else { p with parts := p.parts ++ q.parts }

/-- Adds a part, where two dots lead back. They stay where nothing is left to leave, except at the root,
which leads to itself. -/
def enter (absolute : Bool) (done : List String) (part : String) : List String :=
  if part != ".." then part :: done
  else
    match done with
    | [] => if absolute then [] else [".."]
    | last :: before => if last == ".." then part :: done else before

def normalize (p : Path) : Path :=
  { p with parts := (p.parts.foldl (enter p.isAbsolute) []).reverse }

def parent (p : Path) : Path :=
  { p with parts := p.parts.dropLast }

def name (p : Path) : String :=
  p.parts.getLast?.getD ""

def expand? (homes : String → Option Path) (p : Path) : Option Path :=
  match p.slashes, p.parts with
  | 0, first :: rest =>
    match first.toList with
    | '~' :: user => (homes (String.ofList user)).map fun home => { home with parts := home.parts ++ rest }
    | _ => some p
  | _, _ => some p

def relativeTo? (p base : Path) : Option Path :=
  if p.slashes = base.slashes && base.parts.isPrefixOf p.parts then
    some ⟨0, p.parts.drop base.parts.length⟩
  else none

end Path

/-- The home directories of users by name; the user who runs the program has the empty name. -/
abbrev Homes := String → Option Path

def directoryOf (path : String) : String :=
  let head := (path.toList.reverse.dropWhile (· != '/')).reverse
  if head.all (· == '/') then String.ofList head
  else String.ofList ((head.reverse.dropWhile (· == '/')).reverse)

def joinTexts (directory path : String) : String :=
  if Text.startsWith "/" path then path
  else if directory.isEmpty || Text.endsWith "/" directory then directory ++ path
  else directory ++ "/" ++ path

def baseName (path : String) : String :=
  String.ofList ((path.toList.reverse.takeWhile (· != '/')).reverse)

/-- A name without and with the suffix from its last dot on; dots that start a name start no suffix. -/
def splitSuffix (path : String) : String × String :=
  let base := (baseName path).toList
  let shown := base.dropWhile (· == '.')
  if shown.contains '.' then
    let suffix := '.' :: (shown.reverse.takeWhile (· != '.')).reverse
    (String.ofList (path.toList.take (path.length - suffix.length)), String.ofList suffix)
  else (path, "")

end ApiCatalog
