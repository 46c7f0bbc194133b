import ApiCatalog.Syntax.Node

namespace ApiCatalog.Code

open Syntax

mutual

def boundNames : Node → List Node
  | .mk r .identifier t p l cs => [.mk r .identifier t p l cs]
  | .mk r .shorthandPattern t p l cs => [.mk r .shorthandPattern t p l cs]
  | .mk _ .pairPattern _ _ _ cs => boundNamesAs .value cs
  | .mk _ .objectAssignmentPattern _ _ _ cs => boundNamesAs .left cs
  | .mk _ .assignmentPattern _ _ _ cs => boundNamesAs .left cs
  | .mk _ .objectPattern _ _ _ cs => boundNamesIn cs
  | .mk _ .arrayPattern _ _ _ cs => boundNamesIn cs
  | .mk _ .restPattern _ _ _ cs => boundNamesIn cs
  | _ => []

def boundNamesAs (role : Role) : List Node → List Node
  | [] => []
  | c :: cs => if c.role == some role then boundNames c else boundNamesAs role cs

def boundNamesIn : List Node → List Node
  | [] => []
  | c :: cs => boundNames c ++ boundNamesIn cs

end

end ApiCatalog.Code
