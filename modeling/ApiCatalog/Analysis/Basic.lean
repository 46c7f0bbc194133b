import ApiCatalog.Code.Exports
import ApiCatalog.Component.Basic
import ApiCatalog.Program.Index

namespace ApiCatalog

def Program.targetPath? (p : Program) (o : SourceOptions) (fromId specifier : String) :
    Option String :=
  (p.resolve? specifier fromId).map fun id => (o.modulePath id).toOption.getD id

@[grind =] def extract (p : Program) (o : SourceOptions) (f : IndexedFile) (modulePath : String) :
    Run Code.Extracted :=
  match f.script with
  | some root => Run.ofNoted (Code.analyzeCode f.id modulePath (p.targetPath? o f.id) root)
  | none => Component.analyze p.parser f.id modulePath f.content o.defaultImpliesOptional

def analyzeFile (p : Program) (o : SourceOptions) (channel : Channel) (f : SourceFile) :
    Run (Option Module) :=
  match p.get? f.id with
  | none => do
    .write .warning channel ("Could not get source file from program: " ++ f.id)
    pure none
  | some indexed => do
    let path ← Run.ofOptions (o.modulePath f.id)
    let extracted ← extract p o indexed path
    let dependencies ← Run.ofOptions (SourceFile.modulePathsOf o f.dependencies)
    let dependents ← Run.ofOptions (SourceFile.modulePathsOf o f.dependents)
    .write .debug channel
      ("analyzed " ++ path ++ ": " ++ toString extracted.declarations.length ++ " declarations")
    pure (some {
      path
      declarations := extracted.declarations
      moduleComment := extracted.moduleComment
      dependencies, dependents
      reExports := extracted.reExports
      starExports := extracted.starExports })

def analyzeFiles (p : Program) (o : SourceOptions) (channel : Channel) (files : List SourceFile) :
    Run (List Module) := do
  pure ((← files.mapM (analyzeFile p o channel)).filterMap id)

end ApiCatalog
