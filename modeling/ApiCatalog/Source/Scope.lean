import ApiCatalog.Source.Options
import ApiCatalog.Source.Path
import ApiCatalog.Text.Lines

namespace ApiCatalog

inductive FileKind where
  | code | component
  deriving DecidableEq

namespace FileKind

def name : FileKind → String
  | .code => "typescript"
  | .component => "svelte"

def ofExtension? : String → Option FileKind
  | ".ts" | ".mts" | ".js" | ".mjs" => some .code
  | ".svelte" => some .component
  | _ => none

end FileKind

def isAmbientFile (path : String) : Bool :=
  Text.endsWith ".d.ts" path || Text.endsWith ".d.mts" path

/-- The kind of a file: the first extension that fits decides, even if it has no kind. -/
def fileKind? (extensions : List String) (path : String) : Option FileKind :=
  if isAmbientFile path then none
  else (extensions.find? fun e => Text.endsWith e path).bind FileKind.ofExtension?

def componentName (modulePath : String) : String :=
  let base := (baseName modulePath).toList.reverse
  match Text.cutAt? '.' base with
  | some (_, stem) => String.ofList stem.reverse
  | none => String.ofList base.reverse

namespace SourceOptions

variable (o : SourceOptions)

/-- Whether one of the patterns occurs in a path. Patterns are tried in order, and those after
the first match are not looked at. -/
def excludedBy (path : String) : List String → Except OptionsError Bool
  | [] => .ok false
  | text :: rest =>
    match o.search text with
    | none => .error (.malformedPattern text)
    | some occursIn => if occursIn path then .ok true else excludedBy path rest

def isExcluded (path : String) : Except OptionsError Bool :=
  o.excludedBy path o.excludePatterns

def offsetOf? (needle path : String) : Option Nat :=
  (Text.cutAtText? needle.toList path.toList).map fun (before, _) => before.length

def rootOffset? (path : String) : Except OptionsError (Option Nat) := do
  let root ← o.effectiveRoot
  match o.projectRoot with
  | some project =>
    pure (if Text.startsWith (project ++ "/" ++ root ++ "/") path then some (project.length + 1) else none)
  | none =>
    pure (if Text.startsWith (root ++ "/") path then some 0
      else (offsetOf? ("/" ++ root ++ "/") path).map (· + 1))

def contains (path : String) : Except OptionsError Bool := do
  if ← o.isExcluded path then return false
  match ← o.rootOffset? path with
  | none => return false
  | some offset =>
    let anchored := String.ofList (path.toList.drop offset)
    return o.sourcePaths.any (fun p => Text.startsWith (p ++ "/") anchored)
      && (fileKind? o.extensions path).isSome

/-- The path of a module: what follows the source root. A path outside the root stays as it is. -/
def modulePath (path : String) : Except OptionsError String := do
  match ← o.rootOffset? path with
  | none => return path
  | some offset =>
    let root ← o.effectiveRoot
    return String.ofList (path.toList.drop (offset + root.length + 1))

end SourceOptions

end ApiCatalog
