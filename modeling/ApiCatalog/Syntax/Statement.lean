import ApiCatalog.Syntax.Class

namespace ApiCatalog.Syntax

open ApiCatalog.Syntax.Parser

/-! Blocks and control flow -/

/-- Statements in braces. A comment after the closing brace belongs to the block when nothing else
stands on the line. -/
def blockRule (g : Grammar) : Parser Node :=
  node .statementBlock do
    openBrace
    many (child (g .statement))
    closeBrace
    optional (lineEnd false false)

def keywordStatement (kind : Kind) (w : String) (argument : Parser Node) : Parser Node :=
  node kind do
    word w
    semicolon false <|> do
      gapBefore true false
      child argument
      semicolon true

def parenthesizedHead (g : Grammar) : Parser Unit :=
  child (parenthesized g)

def ifStatement (g : Grammar) : Parser Node :=
  node .ifStatement do
    word "if"
    parenthesizedHead g
    child (g .statement)
    optional do
      child (node .elseClause do
        word "else"
        child (g .statement))

def switchItem (g : Grammar) : Parser Node :=
  node .switchCase (do
    word "case"
    child (expressions g .enclosed)
    mark ":"
    many (child (g .statement)))
  <|> node .switchDefault (do
    word "default"
    mark ":"
    many (child (g .statement)))

def switchStatement (g : Grammar) : Parser Node :=
  node .switchStatement do
    word "switch"
    parenthesizedHead g
    childAs .body (node .switchBody do
      openBrace
      many (child (switchItem g))
      closeBrace)

def whileStatement (g : Grammar) : Parser Node :=
  node .whileStatement do
    word "while"
    parenthesizedHead g
    child (g .statement)

def doStatement (g : Grammar) : Parser Node :=
  node .doStatement do
    word "do"
    child (g .statement)
    word "while"
    parenthesizedHead g
    optional (semicolon false)

def withStatement (g : Grammar) : Parser Node :=
  node .withStatement do
    word "with"
    parenthesizedHead g
    child (g .statement)

def tryStatement (g : Grammar) : Parser Node :=
  node .tryStatement do
    word "try"
    childAs .body (g .block)
    optional do
      child (node .catchClause do
        word "catch"
        optional do
          mark "("
          childAs .parameter (bindingTarget g)
          optional (childAs .type (typeClause g false))
          mark ")"
        childAs .body (g .block))
    optional do
      child (node .finallyClause do
        word "finally"
        childAs .body (g .block))

/-! Variables and functions -/

def variableDeclarator (g : Grammar) (c : Context) : Parser Node :=
  node .variableDeclarator do
    childAs .name (bindingTarget g)
    optional do
      child (operator "!")
      guard ((← peekAfterGap) == some ':')
    optional (childAs .type (typeClause g c.breakable))
    optional (initializer g c)

def endsWithValue : Parser Bool :=
  fun s => .done (s.pieces.head?.any fun n => (n.child? .value).isSome) s

def variableDeclaration (g : Grammar) (c : Context) : Parser Node :=
  nodeOf do
    gap
    let lexical := (← peekWord) != "var"
    word "const" <|> word "let" <|> word "var"
    child (variableDeclarator g c)
    many do
      mark ","
      child (variableDeclarator g c)
    semicolon (← endsWithValue)
    pure (if lexical then .lexicalDeclaration else .variableDeclaration)

def functionDeclaration (g : Grammar) : Parser Node :=
  nodeOf do
    optional (word "async")
    word "function"
    let generator ← found (mark "*")
    childAs .name identifier
    callSignature g true
    (do
      childAs .body (g .block)
      optional (lineEnd false false)
      pure (if generator then .generatorDeclaration else .functionDeclaration))
    <|> (do
      lineEnd false true <|> mark ";"
      pure .functionSignature)

/-! Loops -/

def forInStatement (g : Grammar) : Parser Node :=
  node .forInStatement do
    word "for"
    optional (word "await")
    mark "("
    (do
      word "const" <|> word "let" <|> word "var"
      childAs .left (bindingTarget g))
      <|> childAs .left (g (.operand .enclosed))
    word "of" <|> word "in"
    childAs .right (expressions g .enclosed)
    mark ")"
    childAs .body (g .statement)

def forStatement (g : Grammar) : Parser Node :=
  let head : Context := { breakable := false, allowsIn := false }
  node .forStatement do
    word "for"
    mark "("
    child (variableDeclaration g head)
      <|> child (node .emptyStatement (mark ";"))
      <|> child (node .expressionStatement do
        child (expressions g head)
        mark ";")
    child (node .emptyStatement (mark ";"))
      <|> child (node .expressionStatement do
        child (expressions g .enclosed)
        mark ";")
    optional (child (expressions g .enclosed))
    mark ")"
    childAs .body (g .statement)

/-! Types -/

def typeAlias (g : Grammar) : Parser Node :=
  node .typeAlias do
    word "type"
    childAs .name typeName
    optional (childAs .typeParameters (typeParameters g))
    mark "="
    childAs .value (g (.type true))
    semicolon false

def interfaceDeclaration (g : Grammar) : Parser Node :=
  node .interfaceDeclaration do
    word "interface"
    childAs .name typeName
    optional (childAs .typeParameters (typeParameters g))
    optional do
      child (node .extendsTypes do
        word "extends"
        child (g (.type false))
        many do
          mark ","
          child (g (.type false)))
    childAs .body (objectType g .interfaceBody)

def enumMember (g : Grammar) : Parser Node := do
  let start ← here
  let name ← memberName g
  extend start .enumAssignment (name.withRole .name) (initializer g .enclosed)
    <|> pure (name.withRole .name)

def enumDeclaration (g : Grammar) : Parser Node :=
  node .enumDeclaration do
    optional (word "const")
    word "enum"
    childAs .name identifier
    childAs .body (node .enumBody do
      openBrace
      commaSeparated (child (enumMember g))
      closeBrace)

def dottedName : Parser Node := do
  let start ← here
  let first ← identifier
  iterate
    (fun left => extend start .member left do
      mark "."
      child (anyName .identifier)) first

def moduleTail (g : Grammar) : Parser Unit := do
  childAs .name (stringLiteral <|> dottedName)
  optional (childAs .body (g .block))

def moduleDeclaration (g : Grammar) : Parser Node :=
  node .namespaceDeclaration (do
    word "namespace"
    moduleTail g)
  <|> node .moduleDeclaration (do
    word "module"
    moduleTail g)

def importAlias : Parser Node :=
  node .importAlias do
    word "import"
    childAs .name identifier
    child (operator "=")
    child dottedName
    semicolon false

def plainDeclaration (g : Grammar) : Parser Node := do
  match ← peekWord with
  | "function" => functionDeclaration g
  | "async" => functionDeclaration g
  | "class" => classDeclaration g
  | "abstract" => abstractClassDeclaration g
  | "const" => enumDeclaration g <|> variableDeclaration g {}
  | "let" | "var" => variableDeclaration g {}
  | "enum" => enumDeclaration g
  | "type" => typeAlias g
  | "interface" => interfaceDeclaration g
  | "namespace" | "module" => moduleDeclaration g
  | "import" => importAlias
  | _ =>
    if (← rest).head? == some '@' then classDeclaration g <|> abstractClassDeclaration g
    else misfit

def ambientDeclaration (g : Grammar) : Parser Node :=
  node .ambientDeclaration do
    word "declare"
    child (plainDeclaration g)
      <|> (do
        word "global"
        child (g .block))
      <|> (do
        word "module"
        mark "."
        child (anyName .propertyName)
        mark ":"
        child (g (.type true))
        semicolon false)

def declaration (g : Grammar) : Parser Node := do
  if (← peekWord) == "declare" then ambientDeclaration g else plainDeclaration g

/-! Imports and exports -/

def exportName : Parser Node :=
  anyName .identifier <|> stringLiteral

def fromClause : Parser Unit := do
  word "from"
  childAs .source stringLiteral

def endsSpecifier (c : Char) : Bool :=
  c = ',' || c = '}'

def specifier (kind : Kind) : Parser Node :=
  let renamed : Parser Unit := do
    childAs .name exportName
    optional do
      word "as"
      childAs .newName exportName
    guard ((← peekAfterGap).any endsSpecifier)
  node kind (do
    word "type" <|> word "typeof"
    renamed)
  <|> node kind renamed

def specifierList (kind item : Kind) : Parser Node :=
  node kind do
    openBrace
    commaSeparated (child (specifier item))
    closeBrace

def namespaceImport : Parser Node :=
  node .namespaceImport do
    mark "*"
    word "as"
    child identifier

def importClause : Parser Node :=
  let group := namespaceImport <|> specifierList .namedImports .importSpecifier
  node .importClause (child group)
  <|> node .importClause (do
    child identifier
    optional do
      mark ","
      child group)

def importAttribute (g : Grammar) : Parser Unit :=
  optional do
    child (node .importAttribute do
      word "with" <|> word "assert"
      child (objectLiteral g))

def importStatement (g : Grammar) : Parser Node :=
  let imported : Parser Unit := do
    (do
      child importClause
      fromClause)
      <|> child (node .importRequire do
        child identifier
        child (operator "=")
        word "require"
        mark "("
        childAs .source stringLiteral
        mark ")")
      <|> childAs .source stringLiteral
    importAttribute g
    semicolon false
  node .importStatement (do
    word "import"
    word "type" <|> word "typeof"
    imported)
  <|> node .importStatement (do
    word "import"
    imported)

def namespaceExport : Parser Node :=
  node .namespaceExport do
    mark "*"
    word "as"
    child exportName

def declarationWords : List String :=
  ["async", "declare", "export", "let", "module", "namespace", "type"]

def endsAfterName : Parser Bool := do
  let w ← peekWord
  if declarationWords.contains w then
    looksLike do
      let _ ← keyword w
      lineEnd true false
  else pure false

def defaultExport (g : Grammar) : Parser Unit := do
  word "default"
  (do
    gap
    if ← endsAfterName then fail
    childAs .declaration (declaration g <|> classExpression g))
    <|> (do
      childAs .value (g (.expression {}))
      semicolon true)

def exportStatement (g : Grammar) : Parser Node :=
  let clause := child (specifierList .exportClause .exportSpecifier)
  let listed : Parser Unit := do
    clause
    optional do
      fromClause
      importAttribute g
    semicolon false
  node .exportStatement do
    many (child (decorator g))
    word "export"
    (do
      child namespaceExport <|> mark "*"
      fromClause
      importAttribute g
      semicolon false)
    <|> listed
    <|> (do
      word "type"
      listed)
    <|> (do
      word "type"
      child namespaceExport <|> mark "*"
      fromClause
      semicolon false)
    <|> defaultExport g
    <|> (do
      child (operator "=")
      child (g (.expression {}))
      semicolon true)
    <|> (do
      word "as"
      word "namespace"
      child identifier
      semicolon false)
    <|> (do
      gap
      childAs .declaration (declaration g))

/-! Statements -/

def labeledStatement (g : Grammar) : Parser Node :=
  node .labeledStatement do
    child identifier
    mark ":"
    child (g .statement)

def expressionStatement (g : Grammar) : Parser Node :=
  node .expressionStatement do
    child (expressions g {})
    semicolon true

def wordStatement (g : Grammar) (w : String) : Parser Node :=
  match w with
  | "if" => ifStatement g
  | "switch" => switchStatement g
  | "for" => forInStatement g <|> forStatement g
  | "while" => whileStatement g
  | "do" => doStatement g
  | "try" => tryStatement g
  | "with" => withStatement g
  | "break" => keywordStatement .breakStatement w identifier
  | "continue" => keywordStatement .continueStatement w identifier
  | "return" => keywordStatement .returnStatement w (expressions g {})
  | "throw" => keywordStatement .throwStatement w (expressions g {})
  | "debugger" => keywordStatement .debuggerStatement w misfit
  | "import" => importStatement g <|> declaration g
  | "export" => exportStatement g
  | _ => declaration g

def statementRule (g : Grammar) : Parser Node := do
  match (← rest).head? with
  | some '{' => g .block
  | some ';' => node .emptyStatement (mark ";")
  | some '@' => exportStatement g <|> declaration g <|> expressionStatement g
  | _ =>
    let w ← peekWord
    if w == "" then expressionStatement g
    else if ← endsAfterName then expressionStatement g
    else wordStatement g w <|> labeledStatement g <|> expressionStatement g

end ApiCatalog.Syntax
