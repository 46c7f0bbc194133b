namespace ApiCatalog

inductive DeclarationKind where
  | value | function | classType | typeAlias | interface | enum | component
  deriving DecidableEq

namespace DeclarationKind

def all : List DeclarationKind :=
  [.value, .function, .classType, .typeAlias, .interface, .enum, .component]

def name : DeclarationKind → String
  | .value => "value"
  | .function => "function"
  | .classType => "class"
  | .typeAlias => "type_alias"
  | .interface => "interface"
  | .enum => "enum"
  | .component => "component"

def ofName? (s : String) : Option DeclarationKind :=
  all.find? fun k => k.name == s

theorem ofName?_name (k : DeclarationKind) : ofName? k.name = some k := by
  cases k <;> decide

end DeclarationKind

structure Parameter where
  name : String
  type : String
  optional : Bool := false
  defaultValue : Option String := none
  description : Option String := none
  deriving DecidableEq

structure GenericParam where
  name : String
  constraint : Option String := none
  defaultType : Option String := none
  deriving DecidableEq

structure ComponentProp where
  name : String
  type : String
  optional : Bool := false
  defaultValue : Option String := none
  description : Option String := none
  bindable : Bool := false
  deriving DecidableEq

structure AliasOf where
  module : String
  name : String
  deriving DecidableEq

structure Declaration where
  name : String
  kind : DeclarationKind
  sourceLine : Option Nat := none
  comment : Option String := none
  typeSignature : Option String := none
  returnType : Option String := none
  returnDescription : Option String := none
  parameters : List Parameter := []
  genericParams : List GenericParam := []
  extended : List String := []
  implemented : List String := []
  members : List Declaration := []
  properties : List Declaration := []
  props : List ComponentProp := []
  modifiers : List String := []
  throws : List String := []
  examples : List String := []
  seeAlso : List String := []
  since : Option String := none
  deprecated : Option String := none
  aliasOf : Option AliasOf := none
  alsoExportedFrom : List String := []

end ApiCatalog
