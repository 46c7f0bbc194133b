import ApiCatalog.Pattern.Reader
import ApiCatalog.Text.Lines
import ApiCatalog.Text.Quoted

namespace ApiCatalog

/-- The search for a regular expression, by its text; there is none for a text that spells no expression. -/
abbrev PatternSearch := String → Option (String → Bool)

structure SourceOptions where
  sourcePaths : List String := ["src/lib"]
  /-- What module paths are relative to; a single source path needs no other root. -/
  sourceRoot : Option String := none
  /-- With a project root, source roots lie directly below it; without one, the first occurrence of the
  source root in a path counts. -/
  projectRoot : Option String := none
  extensions : List String := [".ts", ".js", ".svelte"]
  excludePatterns : List String := ["\\.test\\.ts$"]
  search : PatternSearch := Pattern.search?
  defaultImpliesOptional : Bool := true

inductive OptionsError where
  | projectNotAbsolute (root : String)
  | noSourcePaths
  | emptyPath (label : String)
  | leadingSlash (label path : String)
  | trailingSlash (label path : String)
  | rootRequired (paths : List String)
  | outsideRoot (path root : String)
  | projectRequired
  | malformedPattern (pattern : String)
  deriving DecidableEq

def OptionsError.message : OptionsError → String
  | projectNotAbsolute root =>
    "project_root must be an absolute path (start with \"/\"): \"" ++ root ++ "\""
  | noSourcePaths => "source_paths must have at least one entry"
  | emptyPath label => label ++ " must not be empty"
  | leadingSlash label path => label ++ " should not start with \"/\": \"" ++ path ++ "\""
  | trailingSlash label path => label ++ " should not end with \"/\": \"" ++ path ++ "\""
  | rootRequired paths =>
    "source_root is required when source_paths has multiple entries. Got source_paths: "
      ++ Text.quotedAll paths
  | outsideRoot path root =>
    "source_paths entry \"" ++ path ++ "\" must start with source_root \"" ++ root ++ "\""
  | projectRequired => "project_root is required to read source files from disk"
  | malformedPattern pattern => "malformed pattern " ++ Text.quoted pattern

namespace SourceOptions

def withProject (o : SourceOptions) (root : Option String) : SourceOptions :=
  { o with projectRoot :=
      root.map fun r => String.ofList (Text.dropRightWhile (· == '/') r.toList) }

def effectiveRoot (o : SourceOptions) : Except OptionsError String :=
  match o.sourceRoot, o.sourcePaths with
  | some root, _ => .ok root
  | none, [path] => .ok path
  | none, paths => .error (.rootRequired paths)

def checkRelative (label path : String) : Except OptionsError Unit :=
  if path.isEmpty then .error (.emptyPath label)
  else if Text.startsWith "/" path then .error (.leadingSlash label path)
  else if Text.endsWith "/" path then .error (.trailingSlash label path)
  else .ok ()

def isWithin (root path : String) : Bool :=
  path == root || Text.startsWith (root ++ "/") path

def checkProject : Option String → Except OptionsError Unit
  | some root => if Text.startsWith "/" root then .ok () else .error (.projectNotAbsolute root)
  | none => .ok ()

def checkRoot (paths : List String) : Option String → Except OptionsError Unit
  | none => if paths.length > 1 then .error (.rootRequired paths) else .ok ()
  | some root => do
    checkRelative "source_root" root
    match paths.find? fun p => !isWithin root p with
    | some path => .error (.outsideRoot path root)
    | none => .ok ()

def validate (o : SourceOptions) : Except OptionsError Unit := do
  checkProject o.projectRoot
  if o.sourcePaths.isEmpty then .error .noSourcePaths
  o.sourcePaths.forM (checkRelative "source_paths entry")
  checkRoot o.sourcePaths o.sourceRoot

end SourceOptions

end ApiCatalog
