namespace ApiCatalog

inductive Json where
  | null
  | bool (b : Bool)
  | number (spelling : String)
  | string (s : String)
  | array (items : List Json)
  | object (fields : List (String × Json))

namespace Json

def ofNat (n : Nat) : Json :=
  .number (toString n)

def strings (ss : List String) : Json :=
  .array (ss.map .string)

def field? (j : Json) (key : String) : Option Json :=
  match j with
  | .object fields => fields.reverse.lookup key
  | _ => none

/-- Whether a value is left out where fields are optional: nothing, a negation, or an empty collection. -/
def isVoid : Json → Bool
  | .null | .bool false | .array [] | .object [] => true
  | _ => false

def compact (fields : List (String × Json)) : Json :=
  .object (fields.filter fun f => !f.2.isVoid)

def ofOption : Option String → Json
  | some s => .string s
  | none => .null

end Json

end ApiCatalog
