import ApiCatalog.Catalog.Module
import ApiCatalog.Json.Reader
import ApiCatalog.Report.Failure

namespace ApiCatalog.Package

def text? : Option Json → Option String
  | some (.string s) =>
    match Text.trim s.toList with
    | [] => none
    | t => some (String.ofList t)
  | _ => none

def repository? : Option Json → Option String
  | some (.object fields) => text? ((Json.object fields).field? "url")
  | j => text? j

def ofJson (source : String) (j : Json) : Except PackageError Package :=
  match text? (j.field? "name"), text? (j.field? "version") with
  | none, _ => .error (.missingField source "name")
  | _, none => .error (.missingField source "version")
  | some name, some version => .ok {
      name, version
      description := text? (j.field? "description")
      repository := repository? (j.field? "repository")
      homepage := text? (j.field? "homepage") }

def ofText (source text : String) : Except PackageError Package :=
  match Json.parse? text with
  | none => .error (.malformed source)
  | some (.object fields) => ofJson source (.object fields)
  | some _ => .error (.notObject source)

def load (t : FileTree) (p : Path) : Except PackageError Package :=
  match t.read p with
  | .ok text => ofText p.toString text
  | .error reason => .error (.unreadable p.toString reason)

end ApiCatalog.Package
