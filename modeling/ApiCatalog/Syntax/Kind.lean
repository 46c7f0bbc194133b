namespace ApiCatalog.Syntax

inductive Kind where
  | program | hashBang | comment | markupComment | error
  | exportStatement | exportClause | exportSpecifier | namespaceExport
  | importStatement | importClause | namedImports | importSpecifier | namespaceImport
  | importRequire | importAttribute | importAlias
  | expressionStatement | emptyStatement | statementBlock | ifStatement | elseClause
  | switchStatement | switchBody | switchCase | switchDefault | forStatement | forInStatement
  | whileStatement | doStatement | tryStatement | catchClause | finallyClause | withStatement
  | breakStatement | continueStatement | returnStatement | throwStatement | debuggerStatement
  | labeledStatement
  | functionDeclaration | generatorDeclaration | functionSignature | classDeclaration
  | abstractClassDeclaration | moduleDeclaration | namespaceDeclaration | typeAlias
  | enumDeclaration | enumBody | enumAssignment | interfaceDeclaration | ambientDeclaration
  | lexicalDeclaration | variableDeclaration | variableDeclarator
  | classBody | classHeritage | extendsClause | implementsClause | methodDefinition
  | methodSignature | abstractMethod | fieldDefinition | staticBlock | indexSignature
  | accessibility | overrideMark | decorator
  | parameters | requiredParameter | optionalParameter
  | objectPattern | arrayPattern | restPattern | assignmentPattern | objectAssignmentPattern
  | pairPattern | shorthandPattern
  | identifier | undefinedLiteral | numberLiteral | stringLiteral | templateString
  | templateSubstitution | regexLiteral | trueLiteral | falseLiteral | nullLiteral
  | thisExpression | superExpression | array | object | pair | shorthandProperty
  | spreadElement | parenthesized | sequence | unary | update | binary | awaitExpression
  | yieldExpression | ternary | assignment | asExpression | satisfiesExpression | nonNull
  | typeAssertion | instantiation | call | arguments | member | subscript | newExpression
  | metaProperty | arrowFunction
  | functionExpression | generatorFunction | classExpression | computedName | propertyName
  | privateName
  | typeClause | typeParameters | typeParameter | constraint | defaultType | typeArguments
  | typeName | nestedTypeName | genericType | predefinedType | literalType | templateType
  | parenthesizedType | objectType | interfaceBody | propertySignature | callSignature
  | constructSignature | tupleType | tupleMember | arrayType | lookupType | unionType
  | intersectionType | conditionalType | functionType | constructorType | typeQuery
  | keyofType | readonlyType | inferType | thisType | importType | typePredicate
  | assertsType | extendsTypes | mappedTypeClause
  | token (text : String)
  deriving DecidableEq

inductive Role where
  | name | value | type | parameters | parameter | returns | body | typeParameters
  | typeArguments | constraint | pattern | callee | arguments | operator | argument | left | right
  | key | source | declaration | newName
  deriving DecidableEq

def Kind.label : Kind → String
  | .namespaceDeclaration => "internal_module"
  | .moduleDeclaration => "module"
  | .importAlias => "import_alias"
  | .statementBlock => "statement_block"
  | .propertyName => "property_identifier"
  | .ambientDeclaration => "ambient_declaration"
  | .token text => text
  | .error => "ERROR"
  | _ => "identifier"

end ApiCatalog.Syntax
