import ApiCatalog.Syntax.Type

/-!
The grammar of expressions and of binding patterns. Operators of all ranks are read from left to
right into nested `binary` nodes, since no reader of the tree asks for their ranks; casts, powers,
conditionals and assignments are told apart.
-/

namespace ApiCatalog.Syntax

open ApiCatalog.Syntax.Parser

/-! Patterns -/

def patternWithDefault (g : Grammar) (kind : Kind) (target : Parser Node) : Parser Node := do
  let start ← here
  let first ← target
  extend start kind (first.withRole .left) (do
    child (operator "=")
    childAs .right (g (.expression .enclosed))) <|> pure first

def restPattern (g : Grammar) : Parser Node :=
  node .restPattern do
    mark "..."
    child (g .pattern)

def propertyPattern (g : Grammar) : Parser Node :=
  restPattern g
  <|> node .pairPattern (do
    childAs .key (memberName g)
    mark ":"
    childAs .value (patternWithDefault g .assignmentPattern (g .pattern)))
  <|> patternWithDefault g .objectAssignmentPattern (anyName .shorthandPattern)

def objectPattern (g : Grammar) : Parser Node :=
  node .objectPattern do
    openBrace
    commaSeparated (child (propertyPattern g))
    closeBrace

def elements (item : Parser Node) : Parser Unit := do
  mark "["
  many (mark "," <|> do
    child item
    guard ((← peekAfterGap).any fun c => c = ',' || c = ']'))
  mark "]"

def arrayPattern (g : Grammar) : Parser Node :=
  node .arrayPattern (elements (patternWithDefault g .assignmentPattern (g .pattern)))

/-- A name inside a pattern, where the word `undefined` is no identifier. -/
def nameInPattern : Parser Node := do
  if (← peekWord) == "undefined" then anyName .undefinedLiteral else identifier

def bindingPattern (g : Grammar) : Parser Node :=
  restPattern g <|> objectPattern g <|> arrayPattern g <|> nameInPattern

def bindingTarget (g : Grammar) : Parser Node :=
  identifier <|> g .pattern

/-! Literals and brackets -/

def regexLiteral : Parser Node := do
  match Lexeme.regex? (← rest) with
  | some n => leaf .regexLiteral n
  | none => misfit

def expressions (g : Grammar) (c : Context) : Parser Node := do
  let start ← here
  let first ← g (.expression c)
  iterate
    (fun left => extend start .sequence left do
      gapBefore c.breakable true
      mark ","
      child (g (.expression c))) first

def spread (g : Grammar) : Parser Node :=
  node .spreadElement do
    mark "..."
    child (g (.expression .enclosed))

def element (g : Grammar) : Parser Node :=
  spread g <|> g (.expression .enclosed)

def parenthesized (g : Grammar) : Parser Node :=
  node .parenthesized do
    mark "("
    child (expressions g .enclosed)
    mark ")"

def arrayLiteral (g : Grammar) : Parser Node :=
  node .array (elements (element g))

def callArguments (g : Grammar) : Parser Node :=
  node .arguments do
    mark "("
    commaSeparated (child (element g))
    mark ")"

def methodDefinition (g : Grammar) (acrossLines : Bool) : Parser Node :=
  node .methodDefinition do
    memberModifiers ⟨startsMethodName, acrossLines⟩
    methodMarks acrossLines
    childAs .name (memberName g)
    optional (mark "?")
    callSignature g true
    childAs .body (g .block)

def objectMember (g : Grammar) : Parser Node :=
  spread g
  <|> node .pair (do
    childAs .key (memberName g)
    mark ":"
    childAs .value (g (.expression .enclosed)))
  <|> methodDefinition g true
  <|> do
    let start ← here
    let name ← anyName .shorthandProperty
    extend start .objectAssignmentPattern (name.withRole .left) (do
      child (operator "=")
      childAs .right (g (.expression .enclosed))) <|> pure name

def objectLiteral (g : Grammar) : Parser Node :=
  node .object do
    openBrace
    commaSeparated (child (objectMember g))
    closeBrace

/-! Functions and classes -/

def functionExpression (g : Grammar) (c : Context) : Parser Node :=
  nodeOf do
    optional do
      word "async"
      gapBefore c.breakable true
    word "function"
    let generator ← found (mark "*")
    optional (childAs .name identifier)
    callSignature g false
    childAs .body (g .block)
    pure (if generator then .generatorFunction else .functionExpression)

def arrowFunction (g : Grammar) (c : Context) : Parser Node := do
  let signature : Parser Unit :=
    if c.allowsArrowType then callSignature g false
    else do
      optional (childAs .typeParameters (typeParameters g))
      childAs .parameters (parameters g)
  let head : Parser Unit := do
    if (← rest).head?.any fun x => x = '(' || x = '<' then signature
    else childAs .parameter identifier
  let arrow : Parser Unit := do
    mark "=>"
    gap
    childAs .body (g .block <|> g (.expression c))
  node .arrowFunction (do
    word "async"
    gapBefore c.breakable true
    gap
    head
    arrow)
  <|> node .arrowFunction (do
    head
    arrow)

/-! Operands -/

def grow (c : Context) (start : Cursor) (kind : Kind) (left : Node) (parts : Parser Unit) : Parser Node :=
  extend start kind left do
    gapBefore c.breakable true
    parts

def memberStep (g : Grammar) (c : Context) (start : Cursor) (left : Node) : Parser Node :=
  grow c start .member left (do
    mark "." <|> child (operator "?.")
    child (anyName .propertyName <|> privateName))
  <|> grow c start .subscript left (do
    optional (child (operator "?."))
    mark "["
    child (expressions g .enclosed)
    mark "]")

def newExpression (g : Grammar) (c : Context) (primary : Parser Node) : Nat → Parser Node
  | 0 => misfit
  | n + 1 =>
    node .metaProperty (do
      word "new"
      mark "."
      child (anyName .propertyName))
    <|> node .newExpression (do
      word "new"
      gap
      let start ← here
      let first ← newExpression g c primary n <|> primary
      let callee ← iterate (memberStep g c start) first
      push (callee.withRole .callee)
      optional do
        gapBefore c.breakable true
        childAs .typeArguments (typeArguments g)
      optional do
        gapBefore c.breakable true
        childAs .arguments (callArguments g))

def wordOperand (g : Grammar) (c : Context) (classExpression : Parser Node) : Parser Node := do
  match ← peekWord with
  | "true" => anyName .trueLiteral
  | "false" => anyName .falseLiteral
  | "null" => anyName .nullLiteral
  | "undefined" => anyName .undefinedLiteral
  | "this" => anyName .thisExpression
  | "super" => anyName .superExpression
  | "class" => classExpression
  | "function" => functionExpression g c
  | "async" => functionExpression g c <|> identifier
  | "import" =>
    node .metaProperty (do
      word "import"
      mark "."
      child (anyName .propertyName))
    <|> do
      let n ← keyword "import"
      guard ((← peekAfterGap) == some '(')
      pure n
  | _ => identifier

def primaryExpression (g : Grammar) (c : Context) (classExpression : Parser Node) : Parser Node := do
  match (← rest).head? with
  | some '(' => parenthesized g
  | some '[' => arrayLiteral g
  | some '{' => objectLiteral g
  | some '`' => template .templateString (expressions g .enclosed)
  | some '"' | some '\'' => stringLiteral
  | some '/' => regexLiteral
  | some '@' => classExpression
  | some '#' => privateName
  | some x => if x.isDigit || x = '.' then numberLiteral else wordOperand g c classExpression
  | none => misfit

def endsInstantiation : Option Char → Bool
  | none => true
  | some x => [')', ']', '}', ',', ';', ':', '=', '?', '.', '{'].contains x

def callStep (g : Grammar) (c : Context) (start : Cursor) (left : Node) : Parser Node :=
  grow c start .call (left.withRole .callee) (do
    optional (child (operator "?."))
    optional (childAs .typeArguments (typeArguments g))
    childAs .arguments (callArguments g <|> template .templateString (expressions g .enclosed)))
  <|> grow c start .instantiation left (do
    childAs .typeArguments (typeArguments g)
    guard (endsInstantiation (← peekAfterGap)))

def nonNullStep (c : Context) (start : Cursor) (left : Node) : Parser Node :=
  grow c start .nonNull left (child (operator "!"))

def suffixedOperand (g : Grammar) (c : Context) (classExpression : Parser Node) : Parser Node := do
  let start ← here
  let primary := primaryExpression g c classExpression
  let first ← newExpression g c primary ((← rest).length + 1) <|> primary
  let operand ← iterate
    (fun left => memberStep g c start left <|> callStep g c start left <|> nonNullStep c start left)
    first
  grow c start .update operand (child (operator "++" <|> operator "--")) <|> pure operand

def castStep (g : Grammar) (c : Context) (start : Cursor) (left : Node) : Parser Node :=
  grow c start .asExpression left (do
    word "as"
    child (keyword "const" <|> g (.type c.breakable)))
  <|> grow c start .satisfiesExpression left (do
    word "satisfies"
    child (g (.type c.breakable)))

def castOperand (g : Grammar) (c : Context) : Parser Node := do
  let start ← here
  let first ← g (.operand c)
  iterate (castStep g c start) first

def unaryMarks : List String :=
  ["!", "~", "-", "+"]

def unaryWords : List String :=
  ["typeof", "void", "delete"]

def operandExpression (g : Grammar) (c : Context) (classExpression : Parser Node) : Parser Node := do
  let applied (mark : Parser Node) : Parser Node :=
    node .unary do
      childAs .operator mark
      childAs .argument (g (.operand c))
  let w ← peekWord
  match Lexeme.operator? (← rest) with
  | some m =>
    if unaryMarks.contains m then applied (operator m)
    else if m == "++" || m == "--" then
      node .update do
        child (operator m)
        child (g (.operand c))
    else if m == "<" || m == "<<" then
      node .typeAssertion do
        child (typeArguments g)
        child (g (.operand c))
    else suffixedOperand g c classExpression
  | none =>
    if unaryWords.contains w then applied (keyword w)
    else if w == "await" then
      node .awaitExpression (do
        word "await"
        child (castOperand g c)) <|> suffixedOperand g c classExpression
    else suffixedOperand g c classExpression

/-! Operators -/

def binaryMarks : List String :=
  ["*", "/", "%", "+", "-", "<<", ">>", ">>>", "<", "<=", ">", ">=", "==", "!=", "===", "!==", "&",
    "^", "|", "&&", "||", "??"]

def assignmentMarks : List String :=
  ["=", "+=", "-=", "*=", "/=", "%=", "**=", "<<=", ">>=", ">>>=", "&=", "|=", "^=", "&&=", "||=",
    "??="]

def operatorAmong (marks : List String) : Parser Node := do
  match Lexeme.operator? (← rest) with
  | some m => if marks.contains m then operator m else misfit
  | none => misfit

def powerOperand (g : Grammar) (c : Context) : Nat → Parser Node
  | 0 => misfit
  | n + 1 => do
    let start ← here
    let left ← castOperand g c
    grow c start .binary left (do
      child (operator "**")
      child (powerOperand g c n)) <|> pure left

def binaryStep (g : Grammar) (c : Context) (start : Cursor) (left : Node) : Parser Node :=
  castStep g c start left
  <|> grow c start .binary left (do
    child (operator "**")
    child (powerOperand g c ((← rest).length + 1)))
  <|> grow c start .binary left (do
    child (operatorAmong binaryMarks <|> keyword "instanceof" <|> if c.allowsIn then keyword "in" else misfit)
    child (g (.operand c)))

def binaryExpression (g : Grammar) (c : Context) : Parser Node := do
  let start ← here
  let first ← g (.operand c)
  iterate (binaryStep g c start) first

def isAssignable (k : Kind) : Bool :=
  [.identifier, .member, .subscript, .object, .array, .parenthesized, .nonNull, .undefinedLiteral].contains k

def ternaryMark : Parser Node := do
  match ← rest with
  | '?' :: '.' :: d :: _ => guard d.isDigit
  | '?' :: '?' :: _ => misfit
  | '?' :: _ => pure ()
  | _ => misfit
  leaf (.token "?") 1

def ternaryOrAssignment (g : Grammar) (c : Context) : Parser Node := do
  let start ← here
  let left ← binaryExpression g c
  let branches (inner : Context) : Parser Node :=
    grow c start .ternary left do
      child ternaryMark
      child (g (.expression inner))
      mark ":"
      child (g (.expression c))
  branches .enclosed
    <|> branches { breakable := false, allowsArrowType := false }
    <|> grow c start .assignment left (do
      guard (isAssignable left.kind)
      child (operatorAmong assignmentMarks)
      child (g (.expression c)))
    <|> pure left

def yieldExpression (g : Grammar) (c : Context) : Parser Node :=
  node .yieldExpression do
    word "yield"
    optional (mark "*")
    optional do
      gapBefore c.breakable false
      child (g (.expression c))

def expressionRule (g : Grammar) (c : Context) : Parser Node := do
  let w ← peekWord
  if w == "yield" then yieldExpression g c
  else
    let x := (← rest).head?
    if x == some '(' || x == some '<' || w != "" then
      arrowFunction g c <|> ternaryOrAssignment g c
    else ternaryOrAssignment g c

end ApiCatalog.Syntax
