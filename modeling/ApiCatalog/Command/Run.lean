import ApiCatalog.Command.Arguments
import ApiCatalog.Config.Load
import ApiCatalog.Library.Generate
import ApiCatalog.Package.Manifest
import ApiCatalog.Source.Read

namespace ApiCatalog.Command

abbrev Results := List (Path × String)

def given? (s : Option String) : Option String :=
  s.filter (· != "")

structure Platform where
  homes : Homes := fun _ => none
  parser : Syntax.ScriptParser := Syntax.parseScript
  search : PatternSearch := Pattern.search?

variable (platform : Platform) (t : FileTree) (working : Path) (a : Arguments)

def typedPath (text : String) : Except ConfigError Path :=
  match (Path.ofString text).expand? platform.homes with
  | some p => .ok (working.join p)
  | none => .error .unknownHome

def projectRoot : Except ConfigError Path := do
  pure (← typedPath platform working a.path).normalize

/-- The settings of the project; those of another configuration file apply to it too. -/
def loadConfig : Except ConfigError Config := do
  let root ← projectRoot platform working a
  match given? a.config with
  | some file => do
    let c ← Config.load t working (Path.ofString file) platform.homes
    pure { c with root }
  | none => Config.load t working root platform.homes

def duplicatePolicy (c : Config) : DuplicatePolicy :=
  if a.strict.getD c.strictDuplicates then .fail else .warn

def outputDirectory (c : Config) : Except ConfigError Path :=
  match given? a.outputDirectory with
  | some directory => do pure (← typedPath platform working directory).normalize
  | none => .ok c.outputDirectory

def resultsOf (directory : Path) (o : OutputConfig) (out : Output) : Results :=
  (directory.join (Path.ofString o.jsonFile), out.json)
    :: match out.wrapper, given? o.wrapperFile with
      | some text, some file => [(directory.join (Path.ofString file), text)]
      | _, _ => []

def sourceOptions (c : Config) : SourceOptions :=
  { c.options with search := platform.search }

def settings (c : Config) : GenerateSettings where
  channel := .commandLine
  duplicates := some (duplicatePolicy a c)
  wrapper := a.wrapper && c.output.wrapperFile.isSome
  jsonFile := c.output.jsonFile
  parser := platform.parser

def projectResults (c : Config) : Run Results := do
  let o := sourceOptions platform c
  Run.ofOptions o.validate
  match Package.load t c.packagePath with
  | .error e => throw (.package e)
  | .ok package =>
    let files ← SourceFile.readAll o t .commandLine
    let r ← generateLibrary files package o (settings platform a c)
    let directory ← Run.ofConfig (outputDirectory platform working a c)
    pure (resultsOf directory c.output r.output)

def results : Run Results := do
  projectResults platform t working a (← Run.ofConfig (loadConfig platform t working a))

/-! ### Outcomes -/

structure Outcome where
  exitCode : Nat
  stdout : String := ""
  stderr : String := ""
  written : Results := []

def shownPath (p : Path) : String :=
  ((p.relativeTo? working).getD p).toString

def stale (rs : Results) : Results :=
  rs.filter fun (p, text) => (t.read p).toOption != some text

def finish (rs : Results) : Outcome :=
  match a.action with
  | .generate => {
      exitCode := 0
      stdout := String.join (rs.map fun r => "Wrote " ++ shownPath working r.1 ++ "\n")
      written := rs }
  | .check =>
    match stale t rs with
    | [] => { exitCode := 0, stdout := "Library metadata is up to date\n" }
    | old => {
        exitCode := 1
        stderr := "Library metadata is out of date: "
          ++ ", ".intercalate (old.map fun r => shownPath working r.1)
          ++ "\nRun `docinfo generate` to refresh.\n" }

def failed (f : Failure) : Outcome where
  exitCode := 1
  stderr := "docinfo " ++ a.action.name ++ " failed: " ++ f.message
    ++ "\nRun with --verbose for more details.\n"

def run (platform : Platform := {}) : Outcome :=
  let noted := (results platform t working a).run
  let outcome := match noted.value with
    | .ok rs => finish t working a rs
    | .error f => failed a f
  { outcome with stderr := consoleText a.verbose noted.log ++ outcome.stderr }

def applyTo (t : FileTree) (rs : Results) : FileTree :=
  rs.foldl (fun t (p, text) => t.create p text) t

/-! Which parts of a disk a command looks at. Nothing else has to be in the tree that it is run on. -/

def configPath : Option Path :=
  match given? a.config with
  | some file => (typedPath platform working file).toOption
  | none => (projectRoot platform working a).toOption

def singleFiles (c : Config) : Except ConfigError (List Path) := do
  let results := resultsOf (← outputDirectory platform working a c) c.output ⟨"", some ""⟩
  pure (c.packagePath :: results.map Prod.fst)

def sourceDirectories (c : Config) : List Path :=
  c.source.sourcePaths.map fun p => c.root.join (Path.ofString p)

end ApiCatalog.Command
