import ApiCatalog.Syntax.Expression

namespace ApiCatalog.Syntax

open ApiCatalog.Syntax.Parser

def extendsClause (g : Grammar) : Parser Node :=
  node .extendsClause do
    word "extends"
    base
    many do
      mark ","
      base
where
  base : Parser Unit := do
    child (g (.operand .enclosed))
    optional (child (typeArguments g))

def implementsClause (g : Grammar) : Parser Node :=
  node .implementsClause do
    word "implements"
    child (g (.type false))
    many do
      mark ","
      child (g (.type false))

def classHeritage (g : Grammar) : Parser Node :=
  node .classHeritage (do
    child (extendsClause g)
    optional (child (implementsClause g)))
  <|> node .classHeritage (child (implementsClause g))

def fieldDefinition (g : Grammar) : Parser Node :=
  node .fieldDefinition do
    let m : Modified := ⟨startsMemberName, false⟩
    many (child (decorator g))
    optional (modifier m "declare")
    optional (accessibility m)
    optional (modifier m "declare")
    optional (modifier m "static")
    optional (overrideMark m)
    optional (modifier { m with acrossLines := true } "abstract")
    optional (modifier m "readonly")
    optional (modifier { m with acrossLines := true } "abstract")
    optional (modifier { m with acrossLines := true } "accessor")
    childAs .name (memberName g)
    optional (child (operator "!") <|> mark "?")
    optional (childAs .type (typeClause g true))
    optional (initializer g {})

def abstractMethod (g : Grammar) : Parser Node :=
  node .abstractMethod do
    let m : Modified := ⟨startsMethodName, false⟩
    optional (accessibility m)
    modifier { m with acrossLines := true } "abstract"
    optional (overrideMark m)
    methodMarks false
    childAs .name (memberName g)
    optional (mark "?")
    callSignature g true

def staticBlock (g : Grammar) : Parser Node :=
  node .staticBlock do
    word "static"
    childAs .body (g .block)

/-- The end of a member without a body. Whether an operator could follow depends on whether the
member ends with a value. -/
def memberEnd (operator signature : Bool) : Parser Unit :=
  lineEnd operator signature <|> mark ";" <|> mark ","

def classMember (g : Grammar) : Parser Unit :=
  mark ";"
  <|> child (staticBlock g)
  <|> (do
    gap
    let field ← fieldDefinition g
    push field
    memberEnd (field.child? .value).isSome false)
  <|> (do
    child (indexSignature g)
    memberEnd false false)
  <|> (do
    many (child (decorator g))
    child (methodDefinition g false))
  <|> (do
    child (abstractMethod g)
    memberEnd false true)
  <|> (do
    child (methodSignature g)
    memberEnd false true)

def classBody (g : Grammar) : Parser Node :=
  node .classBody do
    openBrace
    many (classMember g)
    closeBrace

def classTail (g : Grammar) : Parser Unit := do
  optional (childAs .typeParameters (typeParameters g))
  optional (child (classHeritage g))
  childAs .body (classBody g)

def classExpression (g : Grammar) : Parser Node :=
  node .classExpression do
    many (child (decorator g))
    word "class"
    optional do
      gap
      guard ((← peekWord) != "implements")
      childAs .name typeName
    classTail g

def classDeclaration (g : Grammar) : Parser Node :=
  node .classDeclaration do
    many (child (decorator g))
    word "class"
    childAs .name typeName
    classTail g
    optional (lineEnd false false)

def abstractClassDeclaration (g : Grammar) : Parser Node :=
  node .abstractClassDeclaration do
    many (child (decorator g))
    word "abstract"
    word "class"
    childAs .name typeName
    classTail g

end ApiCatalog.Syntax
