import ApiCatalog.Syntax.Grammar

namespace ApiCatalog.Syntax

open ApiCatalog.Syntax.Parser

def typeClause (g : Grammar) (breakable : Bool) : Parser Node :=
  node .typeClause do
    mark ":"
    child (g (.type breakable))

def initializer (g : Grammar) (c : Context) : Parser Unit := do
  child (operator "=")
  childAs .value (g (.expression c))

def typeParameter (g : Grammar) : Parser Node :=
  node .typeParameter do
    let m : Modified := ⟨Lexeme.isNameStart, true⟩
    optional (modifier m "const")
    optional (modifier m "in")
    optional (modifier m "out")
    childAs .name typeName
    optional do
      childAs .constraint (node .constraint do
        word "extends"
        child (g (.type false)))
    optional do
      childAs .value (node .defaultType do
        mark "="
        child (g (.type false)))

def typeParameters (g : Grammar) : Parser Node :=
  node .typeParameters do
    mark "<"
    commaSeparated (child (typeParameter g))
    mark ">"

def typeArguments (g : Grammar) : Parser Node :=
  node .typeArguments do
    mark "<"
    commaSeparated (child (g (.type false)))
    mark ">"

def thisName : Parser Node := do
  let n ← keyword "this"
  pure (.mk none .thisExpression n.text n.start n.lastLine [])

def parameter (g : Grammar) : Parser Node :=
  nodeOf do
    let m : Modified := ⟨startsParameter, true⟩
    many (child (decorator g))
    optional (accessibility m)
    optional (overrideMark m)
    optional (modifier m "readonly")
    childAs .pattern (thisName <|> g .pattern)
    let optionalMark ← found (mark "?")
    optional (childAs .type (typeClause g false))
    optional (initializer g .enclosed)
    pure (if optionalMark then .optionalParameter else .requiredParameter)

def parameters (g : Grammar) : Parser Node :=
  node .parameters do
    mark "("
    commaSeparated (child (parameter g))
    mark ")"

def returnedType (g : Grammar) (breakable : Bool) : Parser Node :=
  node .assertsType (do
    word "asserts"
    child (node .typePredicate (do
      child (thisName <|> identifier)
      word "is"
      child (g (.type breakable))) <|> thisName <|> identifier))
  <|> node .typePredicate (do
    child (thisName <|> identifier)
    word "is"
    child (g (.type breakable)))
  <|> g (.type breakable)

def returnClause (g : Grammar) (breakable : Bool) : Parser Node :=
  node .typeClause do
    mark ":"
    child (returnedType g breakable)

def callSignature (g : Grammar) (breakable : Bool) : Parser Unit := do
  optional (childAs .typeParameters (typeParameters g))
  childAs .parameters (parameters g)
  optional (childAs .returns (returnClause g breakable))

def functionType (g : Grammar) (breakable : Bool) : Parser Node := do
  guard ((← rest).head?.any fun c => c = '(' || c = '<')
  node .functionType do
    optional (childAs .typeParameters (typeParameters g))
    childAs .parameters (parameters g)
    mark "=>"
    childAs .returns (returnedType g breakable)

def constructorType (g : Grammar) (breakable : Bool) : Parser Node :=
  node .constructorType do
    optional (modifier ⟨Lexeme.isNameStart, true⟩ "abstract")
    word "new"
    optional (childAs .typeParameters (typeParameters g))
    childAs .parameters (parameters g)
    mark "=>"
    child (g (.type breakable))

def indexSignature (g : Grammar) : Parser Node :=
  node .indexSignature do
    optional (child (symbol "+" <|> symbol "-"))
    optional (modifier ⟨(· == '['), false⟩ "readonly")
    mark "["
    childAs .name (anyName .identifier)
    (childAs .type (typeClause g false)) <|> child (node .mappedTypeClause do
      word "in"
      child (g (.type false))
      optional do
        word "as"
        child (g (.type false)))
    mark "]"
    optional (child (symbol "+" <|> symbol "-"))
    optional (mark "?")
    optional (childAs .type (typeClause g true))

def memberModifiers (m : Modified) : Parser Unit := do
  optional (accessibility m)
  optional (modifier m "static")
  optional (overrideMark m)
  optional (modifier m "readonly")

def methodMarks (acrossLines : Bool) : Parser Unit := do
  let named : Modified := ⟨startsMemberName, acrossLines⟩
  optional (modifier ⟨startsMethodName, acrossLines⟩ "async")
  optional (modifier named "get" <|> modifier named "set" <|> mark "*")

def methodSignature (g : Grammar) : Parser Node :=
  node .methodSignature do
    memberModifiers ⟨startsMethodName, false⟩
    methodMarks false
    childAs .name (memberName g)
    optional (mark "?")
    callSignature g true

def propertySignature (g : Grammar) : Parser Node :=
  node .propertySignature do
    memberModifiers ⟨startsMemberName, false⟩
    childAs .name (memberName g)
    optional (mark "?")
    optional (childAs .type (typeClause g true))

def typeMember (g : Grammar) : Parser Node :=
  node .callSignature (callSignature g true)
  <|> node .constructSignature (do
    word "new"
    optional (childAs .typeParameters (typeParameters g))
    childAs .parameters (parameters g)
    optional (child (typeClause g true)))
  <|> indexSignature g
  <|> methodSignature g
  <|> propertySignature g

def objectType (g : Grammar) (kind : Kind) : Parser Node :=
  node kind do
    openBrace
    many (mark "," <|> mark ";" <|> do
      child (typeMember g)
      lineEnd false false <|> mark ";" <|> mark "," <|> do
        guard ((← peekAfterGap) == some '}'))
    closeBrace

def tupleMember (g : Grammar) : Parser Node :=
  node .tupleMember (do
    optional (mark "...")
    childAs .name identifier
    optional (mark "?")
    childAs .type (typeClause g false))
  <|> node .tupleMember (do
    mark "..."
    child (g (.type false)))
  <|> do
    let start ← here
    let t ← g (.type false)
    extend start .tupleMember t (mark "?") <|> pure t

def predefinedTypes : List String :=
  ["any", "number", "boolean", "string", "symbol", "void", "unknown", "never", "object"]

def literalWords : List String :=
  ["true", "false", "null", "undefined"]

def namedType (g : Grammar) (breakable : Bool) : Parser Node := do
  let start ← here
  let first ← typeName
  let path ← iterate
    (fun left => extend start .nestedTypeName left do
      gapBefore breakable false
      mark "."
      childAs .name (anyName .typeName)) first
  extend start .genericType (path.withRole .name) (do
    gapBefore breakable false
    childAs .typeArguments (typeArguments g)) <|> pure path

def queriedPath (g : Grammar) : Parser Unit := do
  child (node .importType (do
    word "import"
    mark "("
    commaSeparated (child (g (.type false)))
    mark ")") <|> thisName <|> anyName .identifier)
  many do
    mark "."
    child (anyName .propertyName <|> privateName)
  optional (child (typeArguments g))

def wordType (g : Grammar) (breakable : Bool) : Parser Node := do
  let w ← peekWord
  if predefinedTypes.contains w then anyName .predefinedType
  else if literalWords.contains w then anyName .literalType
  else if w == "this" then anyName .thisType
  else if w == "import" then node .importType (queriedPath g)
  else if w == "const" then anyName .typeName
  else namedType g breakable

def primaryType (g : Grammar) (breakable : Bool) : Parser Node := do
  match (← rest).head? with
  | some '(' =>
    node .parenthesizedType do
      mark "("
      child (g (.type false))
      mark ")"
  | some '{' => objectType g .objectType
  | some '[' =>
    node .tupleType do
      mark "["
      commaSeparated (child (tupleMember g))
      mark "]"
  | some '`' => template .templateType (g (.type false))
  | some '"' | some '\'' => node .literalType (child stringLiteral)
  | some '-' =>
    node .literalType do
      mark "-"
      child numberLiteral
  | some '*' => node .predefinedType (mark "*")
  | some c => if c.isDigit || c = '.' then node .literalType (child numberLiteral) else wordType g breakable
  | none => misfit

def suffixedType (g : Grammar) (breakable : Bool) : Parser Node := do
  let start ← here
  let first ← primaryType g breakable
  iterate
    (fun left =>
      extend start .arrayType left (do
        gapBefore breakable false
        mark "["
        mark "]")
      <|> extend start .lookupType left (do
        gapBefore breakable false
        mark "["
        child (g (.type false))
        mark "]")) first

def prefixedType (kind : Kind) (w : String) (operand : Parser Node) : Parser Node :=
  node kind do
    word w
    child operand

def startsType (c : Char) : Bool :=
  Lexeme.isNameStart c || c.isDigit || ['(', '[', '{', '\'', '"', '`', '-'].contains c

def operandTypeWith (g : Grammar) (breakable : Bool) : Nat → Parser Node
  | 0 => misfit
  | n + 1 => do
    let self := operandTypeWith g breakable n
    let applied (w : String) (follows : Char → Bool) : Parser Bool :=
      looksLike do
        let _ ← keyword w
        guard ((← peekAfterGap).any follows)
    if ← applied "keyof" startsType then prefixedType .keyofType "keyof" self
    else if ← applied "readonly" startsType then prefixedType .readonlyType "readonly" self
    else if ← applied "unique" Lexeme.isNameStart then
      node .predefinedType do
        word "unique"
        word "symbol"
    else if ← applied "infer" Lexeme.isNameStart then
      node .inferType do
        word "infer"
        child typeName
        optional do
          word "extends"
          child (g (.unionType breakable))
    else if ← applied "typeof" (fun _ => true) then
      let start ← here
      let first ← node .typeQuery do
        word "typeof"
        queriedPath g
      iterate
        (fun left => extend start .lookupType left do
          gapBefore breakable false
          mark "["
          optional (child (g (.type false)))
          mark "]") first
    else functionType g breakable <|> constructorType g breakable <|> suffixedType g breakable

def operandType (g : Grammar) (breakable : Bool) : Parser Node := do
  operandTypeWith g breakable ((← rest).length + 1)

def joinedType (breakable : Bool) (kind : Kind) (m : Char) (operand : Parser Node) : Parser Node := do
  let single : Parser Unit := child do
    let n ← symbol (String.singleton m)
    guard ((← rest).head? != some m)
    pure n
  let start ← here
  let first ←
    node kind (do
      single
      child operand) <|> operand
  iterate
    (fun left => extend start kind left do
      gapBefore breakable false
      single
      child operand) first

def unionType (g : Grammar) (breakable : Bool) : Parser Node :=
  joinedType breakable .unionType '|' (joinedType breakable .intersectionType '&' (operandType g breakable))

def typeExpression (g : Grammar) (breakable : Bool) : Parser Node := do
  let start ← here
  let left ← g (.unionType breakable)
  extend start .conditionalType left (do
    gapBefore breakable false
    word "extends"
    child (g (.unionType breakable))
    mark "?"
    child (g (.type breakable))
    mark ":"
    child (g (.type breakable))) <|> pure left

end ApiCatalog.Syntax
