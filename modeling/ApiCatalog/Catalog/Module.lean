import ApiCatalog.Catalog.Declaration

namespace ApiCatalog

structure ReExport where
  localName : String
  sourceModule : String
  exportedName : String
  deriving DecidableEq

structure Module where
  path : String
  declarations : List Declaration := []
  moduleComment : Option String := none
  dependencies : List String := []
  dependents : List String := []
  reExports : List ReExport := []
  starExports : List String := []

structure Package where
  name : String
  version : String
  description : Option String := none
  repository : Option String := none
  homepage : Option String := none
  deriving DecidableEq

structure Library extends Package where
  modules : List Module := []

def Library.module? (l : Library) (path : String) : Option Module :=
  l.modules.find? fun m => m.path == path

def textLE (a b : String) : Bool :=
  decide (a ≤ b)

def sortTexts (ts : List String) : List String :=
  ts.mergeSort textLE

def sortModules (ms : List Module) : List Module :=
  ms.mergeSort fun a b => textLE a.path b.path

def Library.assemble (p : Package) (ms : List Module) : Library :=
  { p with modules := sortModules ms }

end ApiCatalog
