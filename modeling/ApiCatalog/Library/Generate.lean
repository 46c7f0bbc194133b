import ApiCatalog.Analysis.Basic
import ApiCatalog.Catalog.Encode
import ApiCatalog.Library.Duplicates
import ApiCatalog.Library.Wrapper
import ApiCatalog.Link.Basic

namespace ApiCatalog

structure Output where
  json : String
  wrapper : Option String := none
  deriving DecidableEq

structure GenerateSettings where
  channel : Channel := .library
  duplicates : Option DuplicatePolicy := none
  wrapper : Bool := true
  jsonFile : String := "library.json"
  parser : Syntax.ScriptParser := Syntax.parseScript

def Output.of (p : Package) (ms : List Module) (s : GenerateSettings) : Output :=
  let l := Library.assemble p ms
  { json := l.serialize, wrapper := if s.wrapper then some (l.wrapper s.jsonFile) else none }

structure GenerateResult where
  library : Library
  output : Output
  links : Links

def generateFrom (program : Program) (files : List SourceFile) (package : Package)
    (o : SourceOptions) (s : GenerateSettings) : Run GenerateResult := do
  let analysed := analyzeFiles program o s.channel files
  let ms ← analysed
  let links ← Run.ofNoted (linkModules s.channel ms)
  let library := Library.assemble package (mergeLinks links ms)
  match s.duplicates with
  | some policy => policy.apply s.channel library.duplicates
  | none => pure ()
  Run.ofNoted (.writeAll (reportRecords s.channel o.projectRoot (analysed.run).diagnostics))
  let output := Output.of package library.modules s
  .write .info s.channel
    ("library metadata generation complete: " ++ toString library.modules.length ++ " modules")
  pure { library, output, links }

/-- Generates a library from files that make up the whole program. -/
def generateLibrary (files : List SourceFile) (package : Package) (o : SourceOptions)
    (s : GenerateSettings) : Run GenerateResult := do
  let program ← Run.ofNoted (Program.ofFiles o.extensions files s.parser)
  generateFrom program files package o s

end ApiCatalog
