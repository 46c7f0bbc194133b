import ApiCatalog.Source.File
import ApiCatalog.Source.Tree
import ApiCatalog.Syntax.Program

namespace ApiCatalog

structure IndexedFile where
  id : String
  kind : FileKind
  content : String
  script : Option Syntax.Node

structure Program where
  files : List IndexedFile := []
  parser : Syntax.ScriptParser := Syntax.parseScript

namespace Program

def get? (p : Program) (id : String) : Option IndexedFile :=
  p.files.find? fun f => f.id == id

def contains (p : Program) (id : String) : Bool :=
  (p.get? id).isSome

def ids (p : Program) : List String :=
  sortTexts (p.files.map IndexedFile.id)

def insert (p : Program) (f : IndexedFile) : Program :=
  { p with files :=
      if p.contains f.id then p.files.map fun g => if g.id == f.id then f else g
      else p.files ++ [f] }

def unreadableMessage (id : String) : String :=
  "Could not read " ++ id ++ ": " ++ ReadError.text .missing id

/-- The entry for a file, if it has a kind. A file without content is one whose content cannot be read from the disk. -/
def index (extensions : List String) (f : SourceFile) (parser : Syntax.ScriptParser := Syntax.parseScript) :
    Noted (Option IndexedFile) :=
  match fileKind? extensions f.id, f.content with
  | none, _ => pure none
  | some _, none => do
    Noted.write .warning .program (unreadableMessage f.id)
    pure none
  | some kind, some content =>
    let script := if kind == .code then some (parser content) else none
    pure (some { id := f.id, kind, content, script })

def add (extensions : List String) (p : Program) (f : SourceFile) : Noted Program := do
  pure ((← index extensions f p.parser).elim p p.insert)

def ofFiles (extensions : List String) (files : List SourceFile)
    (parser : Syntax.ScriptParser := Syntax.parseScript) : Noted Program :=
  files.foldlM (add extensions) { parser }

def sourceSuffixes : String → List String
  | ".js" => [".ts"]
  | ".mjs" => [".mts", ".ts"]
  | _ => []

def candidates (target : String) : List String :=
  let (stem, suffix) := splitSuffix target
  target :: (sourceSuffixes suffix).map (stem ++ ·)
    ++ [".ts", ".mts", ".js", ".mjs", ".svelte"].map (target ++ ·)
    ++ ["index.ts", "index.js"].map (joinTexts target)

/-- The file that a relative specifier means in a file. Other specifiers name packages. -/
def resolve? (p : Program) (specifier fromId : String) : Option String :=
  if Text.startsWith "." specifier then
    let target := (Path.ofString (joinTexts (directoryOf fromId) specifier)).normalize.toString
    (candidates target).find? p.contains
  else none

end Program

end ApiCatalog
