import ApiCatalog.Catalog.Module
import ApiCatalog.Report.Failure
import ApiCatalog.Source.Scope

namespace ApiCatalog

structure SourceFile where
  id : String
  content : Option String := none
  dependencies : List String := []
  dependents : List String := []
  deriving DecidableEq

namespace SourceFile

structure Keyed where
  key : String
  file : SourceFile

/-- Module paths come first; files of one module path are ordered by their ids. -/
def Keyed.le (a b : Keyed) : Bool :=
  if a.key == b.key then textLE a.file.id b.file.id else textLE a.key b.key

def keyed (o : SourceOptions) (f : SourceFile) : Except OptionsError Keyed := do
  pure ⟨← o.modulePath f.id, f⟩

def collect (o : SourceOptions) (channel : Channel) (files : List SourceFile) :
    Run (List SourceFile) := do
  .write .info channel ("received " ++ toString files.length ++ " files total")
  let chosen ← Run.ofOptions (files.filterM fun f => o.contains f.id)
  .write .info channel ("found " ++ toString chosen.length ++ " source files to analyze")
  if chosen.isEmpty then
    let root ← Run.ofOptions o.effectiveRoot
    .write .warning channel
      ("No source files found in " ++ root ++ " - generating empty library metadata")
    pure []
  else
    let keyedFiles ← Run.ofOptions (chosen.mapM (keyed o))
    pure ((keyedFiles.mergeSort Keyed.le).map Keyed.file)

def modulePathsOf (o : SourceOptions) (ids : List String) : Except OptionsError (List String) := do
  let chosen ← ids.filterM o.contains
  pure (sortTexts (← chosen.mapM o.modulePath))

end SourceFile

end ApiCatalog
