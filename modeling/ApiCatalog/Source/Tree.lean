import ApiCatalog.Source.Path
import ApiCatalog.Text.Quoted

/-!
File trees: what a disk holds, as far as it matters. Every directory on the way to a file exists, and
so do those that are named.
-/

namespace ApiCatalog

abbrev Place := List String

structure FileTree where
  files : List (Place × String) := []
  directories : List Place := []

inductive ReadError where
  | missing | isDirectory | notDirectory
  deriving DecidableEq

def ReadError.text (e : ReadError) (path : String) : String :=
  match e with
  | .missing => "[Errno 2] No such file or directory: " ++ Text.quoted path
  | .isDirectory => "[Errno 21] Is a directory: " ++ Text.quoted path
  | .notDirectory => "[Errno 20] Not a directory: " ++ Text.quoted path

namespace FileTree

variable (t : FileTree)

def fileAt? (p : Place) : Option String :=
  t.files.lookup p

def isDirectoryAt (p : Place) : Bool :=
  p.isEmpty || t.directories.any (p.isPrefixOf ·)
    || t.files.any fun f => p.isPrefixOf f.1 && p != f.1

def obstacle (p : Place) : ReadError :=
  if t.files.any fun f => f.1.isPrefixOf p then .notDirectory else .missing

/-- Follows a path; two dots lead back only from a directory. -/
def follow (done : Place) : List String → Except ReadError Place
  | [] => .ok done
  | part :: rest =>
    if part != ".." then follow (done ++ [part]) rest
    else if t.isDirectoryAt done then follow done.dropLast rest
    else .error (t.obstacle done)

def locate (p : Path) : Except ReadError Place :=
  t.follow [] p.parts

def isDirectory (p : Path) : Bool :=
  match t.locate p with
  | .ok place => t.isDirectoryAt place
  | .error _ => false

def read (p : Path) : Except ReadError String := do
  let place ← t.locate p
  match t.fileAt? place with
  | some content => pure (String.ofList (Text.readLineEnds content.toList))
  | none => .error (if t.isDirectoryAt place then .isDirectory else t.obstacle place)

def holds (p : Path) : Bool :=
  match t.read p with
  | .ok _ | .error .isDirectory => true
  | .error _ => false

/-- The paths, relative to a directory, of the files in it and in those directories below it that are
entered. -/
def filesBelow (enters : String → Bool) (p : Path) : List Place :=
  match t.locate p with
  | .error _ => []
  | .ok place =>
    t.files.filterMap fun (file, _) =>
      let relative := file.drop place.length
      if place.isPrefixOf file && !relative.isEmpty && relative.dropLast.all enters then some relative
      else none

def write (place : Place) (content : String) : FileTree :=
  if (t.fileAt? place).isSome then
    { t with files := t.files.map fun f => if f.1 == place then (place, content) else f }
  else { t with files := t.files ++ [(place, content)] }

def passed : Place → List String → List Place
  | _, [] => []
  | done, part :: rest =>
    let next := if part == ".." then done.dropLast else done ++ [part]
    done :: passed next rest

def create (p : Path) (content : String) : FileTree :=
  let t := t.write p.normalize.parts content
  { t with directories := passed [] p.parts ++ t.directories }

def delete (place : Place) : FileTree where
  files := t.files.filter fun f => f.1 != place
  directories := place.dropLast :: t.directories

end FileTree

end ApiCatalog
