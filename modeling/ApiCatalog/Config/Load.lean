import ApiCatalog.Config.Basic
import ApiCatalog.Report.Failure

namespace ApiCatalog.Config

def fileName : String := ".docinfo.yml"

def ofText (root : Path) (name text : String) : Except ConfigError Config :=
  if Text.isAllBlank text.toList then .ok { root }
  else match Yaml.Value.ofText? text with
    | none => .error (.malformed name)
    | some .null => .ok { root }
    | some (.mapping fields) => .ok (.ofFields root fields)
    | some _ => .error .notMapping

/-- The configuration file that a path means, which may be the directory that holds it. -/
def fileAt (t : FileTree) (working p : Path) : Path :=
  let p := working.join p
  if t.isDirectory p then (p.join (Path.ofString fileName)).normalize else p.normalize

def loadFile (t : FileTree) (file : Path) : Except ConfigError Config :=
  if t.holds file then
    match t.read file with
    | .ok text => ofText file.parent file.name text
    | .error reason => .error (.unreadable file reason)
  else .ok { root := file.parent }

def load (t : FileTree) (working p : Path) (homes : Homes := fun _ => none) : Except ConfigError Config :=
  match p.expand? homes with
  | some p => loadFile t (fileAt t working p)
  | none => .error .unknownHome

end ApiCatalog.Config
