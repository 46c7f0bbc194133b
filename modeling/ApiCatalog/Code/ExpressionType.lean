import ApiCatalog.Syntax.Node
import ApiCatalog.Text.Blank

namespace ApiCatalog.Code

open Syntax

def unquoteChars : List Char → List Char
  | q :: c :: cs =>
    if (q = '\'' || q = '"' || q = '`') && (c :: cs).getLast? = some q then (c :: cs).dropLast
    else q :: c :: cs
  | s => s

def unquote (s : String) : String :=
  String.ofList (unquoteChars s.toList)

mutual

/-- An expression without the parentheses around it. A comment in front counts as what the
parentheses hold. -/
def unwrap : Node → Node
  | .mk r .parenthesized t p l cs => unwrapFirst (.mk r .parenthesized t p l cs) cs
  | n => n

def unwrapFirst (default : Node) : List Node → Node
  | [] => default
  | c :: cs => if c.isNamed then unwrap c else unwrapFirst default cs

end

def constantType? (n : Node) : Option String :=
  let value := unwrap n
  match value.kind with
  | .stringLiteral => some ("\"" ++ unquote value.text ++ "\"")
  | .numberLiteral | .trueLiteral | .falseLiteral | .nullLiteral => some value.text
  | _ => none

def castType? (n : Node) : Option String :=
  match n.namedChildren with
  | [] => none
  | first :: others =>
    if n.children.getLast?.any fun c => c.kind == .token "const" then constantType? first
    else (others.getLast?).map fun t => Text.trimmed t.text

def operatorType? (n : Node) : Option String :=
  match n.textOf .operator with
  | "!" => some "boolean"
  | "typeof" => some "string"
  | "void" => some "undefined"
  | "-" | "+" | "~" =>
    if (n.child? .argument).any fun a => (unwrap a).kind == .numberLiteral then some "number" else none
  | _ => none

def constructedType? (n : Node) : Option String :=
  (n.child? .callee).map fun c => c.text ++ n.textOf .typeArguments

/-- The type of arrays of one element type; several element types, or an unknown one, give none. -/
def arrayType? : List (Option String) → Option String
  | some t :: ts => if ts.all (· == some t) then some (t ++ "[]") else none
  | _ => none

def plainType? (n : Node) : Option String :=
  match n.kind with
  | .asExpression | .satisfiesExpression => castType? n
  | .numberLiteral => some "number"
  | .stringLiteral | .templateString => some "string"
  | .trueLiteral | .falseLiteral => some "boolean"
  | .nullLiteral => some "null"
  | .undefinedLiteral => some "undefined"
  | .regexLiteral => some "RegExp"
  | .unary => operatorType? n
  | .newExpression => constructedType? n
  | _ => none

mutual

def expressionType? : Node → Option String
  | .mk _ .parenthesized _ _ _ cs => firstType? cs
  | .mk _ .array _ _ _ cs => arrayType? (elementTypes cs)
  | n => plainType? n

def firstType? : List Node → Option String
  | [] => none
  | c :: cs => if c.isNamed then expressionType? c else firstType? cs

def elementTypes : List Node → List (Option String)
  | [] => []
  | c :: cs => if c.isNamed then expressionType? c :: elementTypes cs else elementTypes cs

end

end ApiCatalog.Code
