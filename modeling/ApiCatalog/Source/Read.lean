import ApiCatalog.Source.File
import ApiCatalog.Source.Tree

namespace ApiCatalog

def skippedDirectories : List String :=
  [".git", ".hg", ".svn", ".svelte-kit", "node_modules", "__pycache__", ".pytest_cache", ".idea", "dist"]

def entersDirectory (name : String) : Bool :=
  !skippedDirectories.contains name

namespace SourceFile

def readOne? (o : SourceOptions) (t : FileTree) (p : Path) : Except OptionsError (Option SourceFile) := do
  if ← o.contains p.toString then
    pure ((t.read p).toOption.map fun content => { id := p.toString, content := some content })
  else pure none

def readPath (o : SourceOptions) (t : FileTree) (channel : Channel) (project : Path) (sourcePath : String) :
    Run (List SourceFile) :=
  let directory := project.join (Path.ofString sourcePath)
  if t.isDirectory directory then do
    let paths := (t.filesBelow entersDirectory directory).map fun r => directory.join ⟨0, r⟩
    let read ← Run.ofOptions (paths.mapM (readOne? o t))
    pure (read.filterMap fun f => f)
  else do
    .write .warning channel ("Could not read source directory " ++ directory.toString)
    pure []

def readAll (o : SourceOptions) (t : FileTree) (channel : Channel) : Run (List SourceFile) :=
  match o.projectRoot with
  | none => throw (.options .projectRequired)
  | some root => do
    let found ← o.sourcePaths.mapM (readPath o t channel (Path.ofString root))
    let files := found.flatten
    .write .info channel ("read " ++ toString files.length ++ " source files from filesystem")
    collect o channel files

end SourceFile

end ApiCatalog
