import ApiCatalog.Catalog.Module

/-!
Following exports to where a symbol is declared. Star exports may form cycles, so a search keeps the
pairs of module and name that it has met and does not look at one twice.
-/

namespace ApiCatalog

structure Origin where
  module : String
  name : String
  deriving DecidableEq

namespace Module

def declares (m : Module) (name : String) : Bool :=
  m.declarations.any fun d => d.name == name

def components (m : Module) : List String :=
  (m.declarations.filter fun d => d.kind == .component).map Declaration.name

def ownNames (m : Module) : List String :=
  m.declarations.map Declaration.name ++ m.reExports.map ReExport.exportedName

def reExport? (m : Module) (name : String) : Option ReExport :=
  m.reExports.find? fun e => e.exportedName == name

end Module

namespace Link

/-- The module at a path; of several the last counts. -/
def moduleAt? (ms : List Module) (path : String) : Option Module :=
  ms.reverse.find? fun m => m.path == path

def componentAt? (ms : List Module) (path : String) : Option String :=
  ((ms.filter fun m => m.path == path).flatMap Module.components).getLast?

def declared? (ms : List Module) (m : Module) (path name : String) : Option Origin :=
  if m.declares name then some ⟨path, name⟩
  else if name == "default" then (componentAt? ms path).map fun c => ⟨path, c⟩
  else none

abbrev Visited := List (String × String)

/-- Looks for the origin of a name. An explicit re-export of the name decides alone; else star exports are
tried in order, which pass on every name but `default`. -/
def search (ms : List Module) : Nat → String → String → StateM Visited (Option Origin)
  | 0, _, _ => pure none
  | fuel + 1, path, name =>
    match moduleAt? ms path with
    | none => pure none
    | some m =>
      match declared? ms m path name with
      | some o => pure (some o)
      | none => do
        if (← get).contains (path, name) then return none
        modify fun seen => (path, name) :: seen
        match m.reExport? name with
        | some e => search ms fuel e.sourceModule e.localName
        | none =>
          if name == "default" then pure none
          else m.starExports.findSomeM? fun target => search ms fuel target name

/-- More steps than there are pairs to meet: every name that a search asks for is its first name or the local
name of a re-export. -/
def searchBound (ms : List Module) : Nat :=
  (ms.length + 1) * ((ms.flatMap Module.reExports).length + 1) + 1

def origin? (ms : List Module) (path name : String) : Option Origin :=
  ((search ms (searchBound ms) path name).run []).1

def gather (ms : List Module) : Nat → String → StateM (List String) (List String)
  | 0, _ => pure []
  | fuel + 1, path =>
    match moduleAt? ms path with
    | none => pure []
    | some m => do
      if (← get).contains path then return []
      modify (path :: ·)
      let passed ← m.starExports.mapM (gather ms fuel)
      pure (m.ownNames ++ passed.flatten.filter (· != "default"))

def exportedNames (ms : List Module) (path : String) : List String :=
  ((gather ms (ms.length + 1) path).run []).1

end Link

end ApiCatalog
