import ApiCatalog.Link.Resolve
import ApiCatalog.Report.Noted

namespace ApiCatalog

structure ExportEdge where
  origin : Origin
  exporter : String
  deriving DecidableEq

/-- A re-export whose declaration is not found; the name `*` stands for a whole module. -/
structure Unresolved where
  module : String
  sourceModule : String
  name : String
  deriving DecidableEq

structure Links where
  edges : List ExportEdge := []
  unresolved : List Unresolved := []

def sortedDistinct (ts : List String) : List String :=
  sortTexts ts.eraseDups

namespace Links

def append (a b : Links) : Links where
  edges := a.edges ++ b.edges
  unresolved := a.unresolved ++ b.unresolved

def ofOrigin (o : Origin) (exporter : String) : Links :=
  if o.module == exporter then {} else { edges := [⟨o, exporter⟩] }

def ofReExport (ms : List Module) (m : Module) (e : ReExport) : Links :=
  match Link.origin? ms e.sourceModule e.localName with
  | some o => ofOrigin o m.path
  | none => { unresolved := [⟨m.path, e.sourceModule, e.localName⟩] }

/-- What a star export adds: every name of the target but `default` and those that the module exports
by itself. -/
def ofStar (ms : List Module) (m : Module) (target : String) : Links :=
  if (Link.moduleAt? ms target).isNone then { unresolved := [⟨m.path, target, "*"⟩] }
  else
    let names := (sortedDistinct (Link.exportedNames ms target)).filter fun n =>
      n != "default" && !m.ownNames.contains n
    (names.map fun n =>
      match Link.origin? ms target n with
      | some o => ofOrigin o m.path
      | none => {}).foldl append {}

def ofModule (ms : List Module) (m : Module) : Links :=
  (m.reExports.map (ofReExport ms m) ++ m.starExports.map (ofStar ms m)).foldl append {}

def ofModules (ms : List Module) : Links :=
  (ms.map (ofModule ms)).foldl append {}

def exportersOf (l : Links) (name origin : String) : List String :=
  sortedDistinct
    ((l.edges.filter fun e => e.origin.name == name && e.origin.module == origin).map
      ExportEdge.exporter)

def originsOf (l : Links) (name : String) : List String :=
  sortedDistinct ((l.edges.filter fun e => e.origin.name == name).map fun e => e.origin.module)

def alsoExportedFrom (l : Links) : List (String × List (String × List String)) :=
  (sortedDistinct (l.edges.map fun e => e.origin.name)).map fun name =>
    (name, (l.originsOf name).map fun origin => (origin, l.exportersOf name origin))

end Links

def Unresolved.record (channel : Channel) (u : Unresolved) : Record where
  level := .warning
  channel := channel
  message := "Unresolved re-export of " ++ u.name ++ " from " ++ u.sourceModule ++ " in " ++ u.module

def linkModules (channel : Channel) (ms : List Module) : Noted Links := do
  let links := Links.ofModules ms
  .writeAll (links.unresolved.map (Unresolved.record channel))
  pure links

def Declaration.withExporters (l : Links) (path : String) (d : Declaration) : Declaration :=
  match l.exportersOf d.name path with
  | [] => d
  | exporters => { d with alsoExportedFrom := exporters }

def mergeLinks (l : Links) (ms : List Module) : List Module :=
  ms.map fun m => { m with declarations := m.declarations.map (Declaration.withExporters l m.path) }

end ApiCatalog
