import ApiCatalog.Source.Options
import ApiCatalog.Source.Path
import ApiCatalog.Yaml.Value

namespace ApiCatalog

namespace Yaml.Value

def scalarText? : Value → Option String
  | text s => some s
  | int n => some (ToString.toString n)
  | float x => some x.text
  | _ => none

def truth? : Value → Option Bool
  | bool b => some b
  | text s =>
    let word := String.ofList ((Text.trim s.toList).map Char.toLower)
    if ["true", "yes", "1"].contains word then some true
    else if ["false", "no", "0"].contains word then some false
    else none
  | _ => none

def itemText? : Value → Option String
  | bool b => some (if b then "True" else "False")
  | v => v.scalarText?

def texts : Value → List String
  | text s => [s]
  | sequence items => items.filterMap itemText?
  | bytes bs => bs.map ToString.toString
  | _ => []

def fields : Value → List (Value × Value)
  | mapping pairs => pairs
  | _ => []

end Yaml.Value

open Yaml (Value)

def stripSlashes (s : String) : String :=
  String.ofList (Text.trimOf (· == '/') (Text.trim s.toList))

structure OutputConfig where
  directory : String := "src/routes"
  jsonFile : String := "library.json"
  wrapperFile : Option String := some "library.ts"
  deriving DecidableEq

structure Config where
  root : Path
  source : SourceOptions := {}
  output : OutputConfig := {}
  packageFile : String := "package.json"
  strictDuplicates : Bool := true

namespace Config

variable (c : Config)

def outputDirectory : Path :=
  c.root.join (Path.ofString c.output.directory)

def packagePath : Path :=
  c.root.join (Path.ofString c.packageFile)

def options : SourceOptions :=
  c.source.withProject (some c.root.toString)

end Config

def filledText? (v : Option Value) : Option String :=
  (v.bind Value.scalarText?).filter (· != "")

def SourceOptions.ofFields (fields : List (Value × Value)) : SourceOptions :=
  let d : SourceOptions := {}
  { sourcePaths := ((Value.get? "paths" fields).map fun v => v.texts.map stripSlashes).getD d.sourcePaths
    sourceRoot := (filledText? (Value.get? "root" fields)).map stripSlashes
    extensions := ((Value.get? "extensions" fields).map Value.texts).getD d.extensions
    excludePatterns := ((Value.get? "exclude" fields).map Value.texts).getD d.excludePatterns
    defaultImpliesOptional :=
      ((Value.get? "default_implies_optional" fields).bind Value.truth?).getD d.defaultImpliesOptional }

def OutputConfig.ofFields (fields : List (Value × Value)) : OutputConfig :=
  let d : OutputConfig := {}
  { directory := (filledText? (Value.get? "dir" fields)).getD d.directory
    jsonFile := (filledText? (Value.get? "json" fields)).getD d.jsonFile
    wrapperFile :=
      match Value.get? "wrapper" fields with
      | some v => v.scalarText?
      | none => d.wrapperFile }

def Config.ofFields (root : Path) (fields : List (Value × Value)) : Config :=
  let part (key : String) : List (Value × Value) := ((Value.get? key fields).map Value.fields).getD []
  { root
    source := .ofFields (part "source")
    output := .ofFields (part "output")
    packageFile := (filledText? (Value.get? "package_json" fields)).getD "package.json"
    strictDuplicates := ((Value.get? "strict_duplicates" fields).bind Value.truth?).getD true }

end ApiCatalog
