import ApiCatalog.Catalog.Declaration
import ApiCatalog.Code.Comments
import ApiCatalog.Code.ExpressionType
import ApiCatalog.Report.Noted

namespace ApiCatalog.Code

open Syntax

structure Reader where
  file : String
  start : Position
  moduleComment : Option Position

def Reader.ofRoot (file : String) (root : Node) : Reader where
  file := file
  start := root.start
  moduleComment := (moduleComment? root).map (·.start)

/-! Kinds of nodes -/

def isFunctionDeclaration (k : Kind) : Bool :=
  [.functionDeclaration, .generatorDeclaration, .functionSignature].contains k

def isFunctionValue (k : Kind) : Bool :=
  [.arrowFunction, .functionExpression, .generatorFunction].contains k

def isClass (k : Kind) : Bool :=
  [.classDeclaration, .abstractClassDeclaration, .classExpression].contains k

def isVariableStatement (k : Kind) : Bool :=
  [.lexicalDeclaration, .variableDeclaration].contains k

def isNamedDeclaration (k : Kind) : Bool :=
  isFunctionDeclaration k || isClass k || [.typeAlias, .interfaceDeclaration, .enumDeclaration].contains k

/-- Whether a return statement inside belongs to something other than the function around it. -/
def isScope (k : Kind) : Bool :=
  isFunctionValue k || isFunctionDeclaration k || isClass k || k == .methodDefinition

/-! Texts -/

def nonempty? (s : String) : Option String :=
  if s.isEmpty then none else some s

def clauseType? (clause : Option Node) : Option String :=
  clause.bind fun n =>
    match Text.trim n.text.toList with
    | ':' :: t => nonempty? (String.ofList (Text.trim t))
    | t => nonempty? (String.ofList t)

def stripWord (w : String) (s : String) : String :=
  let t := Text.trim s.toList
  String.ofList (Text.trim ((Text.dropPrefix? w.toList t).getD t))

/-- The text of a signature. A rest parameter is never marked as optional. -/
def signatureText (typeParameters : String) (ps : List Parameter) (returnType : String) : String :=
  let rendered := ps.map fun p =>
    let isRest := "...".toList.isPrefixOf p.name.toList
    p.name ++ (if p.optional && !isRest then "?" else "") ++ ": " ++ p.type
  typeParameters ++ "(" ++ ", ".intercalate rendered ++ ") => " ++ returnType

/-! Return statements -/

mutual

def returnsValue : Node → Bool
  | .mk _ _ _ _ _ cs => anyReturnsValue cs

def anyReturnsValue : List Node → Bool
  | [] => false
  | c :: cs =>
    (c.isNamed && !isScope c.kind
      && ((c.kind == .returnStatement && !c.namedChildren.isEmpty) || returnsValue c))
      || anyReturnsValue cs

end

namespace Reader

variable (r : Reader)

def warn (k : Finding) (place : Position) (message : String) (symbol : Option String) : Noted Unit :=
  .note { kind := k, file := r.file, line := some place.line, column := some place.column, message, symbol }

/-- The doc comment just before a node, unless it documents the module. -/
def docBefore? (before : Option Node) : Option DocComment :=
  before.bind fun n =>
    if isDocNode n && r.moduleComment != some n.start then parseDoc? n else none

def genericParams (clause : Option Node) : List GenericParam :=
  ((clause.map Node.namedChildren).getD []).filterMap fun n =>
    if n.kind == .typeParameter then
      some {
        name := n.textOf .name
        constraint := (n.child? .constraint).map fun c => stripWord "extends" c.text
        defaultType := (n.child? .value).map fun c => stripWord "=" c.text }
    else none

/-! Functions -/

def description? (doc : Option DocComment) (name : String) : Option String :=
  doc.bind fun d => d.params.lookup name

def parameter (doc : Option DocComment) (owner : String) (n : Node) : Noted (Option Parameter) := do
  match n.child? .pattern, n.hasError with
  | some pattern, false =>
    if pattern.kind == .thisExpression then pure none
    else
      let value := n.child? .value
      let type := (clauseType? (n.child? .type)).or (value.bind expressionType?)
      pure (some {
        name := pattern.text
        type := type.getD "any"
        optional := n.kind == .optionalParameter || value.isSome
        defaultValue := value.map Node.text
        description := description? doc
          (String.ofList (pattern.text.toList.dropWhile (· == '.'))) })
  | _, _ =>
    r.warn .signatureAnalysis n.start
      ("Failed to analyze parameter \"" ++ Text.trimmed n.text ++ "\" of \"" ++ owner ++ "\"") owner
    pure none

def parameters (n : Node) (doc : Option DocComment) (owner : String) : Noted (List Parameter) :=
  match n.child? .parameter with
  | some single =>
    pure [{ name := single.text, type := "any", description := description? doc single.text }]
  | none => do
    let ps := (((n.child? .parameters).map Node.namedChildren).getD []).filter fun c =>
      c.kind == .requiredParameter || c.kind == .optionalParameter
    let read ← ps.mapM (r.parameter doc owner)
    pure (read.filterMap id)

/-- The type that the body of a function shows it to return: of an expression, its type, and of a
block, nothing unless it returns a value. -/
def bodyType? (body : Node) : Option String :=
  if body.kind != .statementBlock then expressionType? body
  else if returnsValue body then none
  else some "void"

def returnType (n : Node) (owner : String) : Noted String :=
  match clauseType? (n.child? .returns), n.child? .body with
  | some t, _ => pure t
  | none, none => pure "any"
  | none, some body => do
    let inferred ←
      match bodyType? body with
      | some t => pure t
      | none =>
        r.warn .typeExtraction n.start
          ("Failed to infer return type of \"" ++ owner ++ "\"; add a return type annotation") owner
        pure "unknown"
    pure (if n.hasToken "async" then "Promise<" ++ inferred ++ ">" else inferred)

def asFunction (d : Declaration) (n : Node) (doc : Option DocComment) : Noted Declaration := do
  let ps ← r.parameters n doc d.name
  let returned ← r.returnType n d.name
  pure { d with
    kind := .function
    genericParams := genericParams (n.child? .typeParameters)
    parameters := ps
    returnType := some returned
    returnDescription := doc.bind (·.returns)
    typeSignature := some (signatureText (n.textOf .typeParameters) ps returned) }

/-! Values -/

def asValue (d : Declaration) (value : Option Node) : Noted Declaration := do
  let type ←
    match value.bind expressionType? with
    | some t => pure t
    | none =>
      r.warn .typeExtraction ((value.map Node.start).getD r.start)
        ("Failed to extract type for \"" ++ d.name ++ "\"; add a type annotation") d.name
      pure "unknown"
  pure { d with kind := .value, typeSignature := some type }

/-! Classes -/

def modifiers (n : Node) : List String :=
  n.children.filterMap fun c =>
    match c.kind with
    | .accessibility => some c.text
    | .token "static" => some "static"
    | .token "readonly" => some "readonly"
    | .token "abstract" => some "abstract"
    | _ => none

def documented (d : Declaration) : Option DocComment → Declaration
  | none => d
  | some doc =>
    { d with
      comment := doc.text
      since := doc.since
      deprecated := doc.deprecated
      throws := doc.throws
      examples := doc.examples
      seeAlso := doc.seeAlso }

def isClassMember (k : Kind) : Bool :=
  [.methodDefinition, .fieldDefinition, .abstractMethod, .methodSignature].contains k

def fieldMember (d : Declaration) (n : Node) (doc : Option DocComment) (symbol : String) :
    Noted Declaration := do
  let value := (n.child? .value).map unwrap
  match clauseType? (n.child? .type), value with
  | some t, _ => pure { d with typeSignature := some t }
  | none, some v =>
    if isFunctionValue v.kind then r.asFunction d v doc
    else typed (expressionType? v)
  | none, none => typed none
where
  typed : Option String → Noted Declaration
    | some t => pure { d with typeSignature := some t }
    | none => do
      r.warn .typeExtraction n.start ("Failed to extract type for \"" ++ symbol ++ "\"") symbol
      pure { d with typeSignature := some "unknown" }

/-- What a member adds to the members before it. A setter adds nothing after a member of the same
name. -/
def classMember (owner : String) (members : List Declaration) (p : Placed) :
    Noted (List Declaration) := do
  let n := p.node
  match n.child? .name with
  | none => pure members
  | some nameNode =>
    let name := nameNode.text
    let symbol := owner ++ "." ++ name
    let doc := r.docBefore? p.before
    if !isClassMember n.kind || nameNode.kind == .privateName || doc.any (·.hidden) then pure members
    else if n.hasError then
      r.warn .classMember n.start ("Failed to analyze class member \"" ++ symbol ++ "\"") symbol
      pure members
    else
      let d := { documented { name, kind := .value, sourceLine := some n.start.line } doc with
        modifiers := modifiers n }
      if n.kind == .fieldDefinition then
        pure (members ++ [← r.fieldMember d n doc symbol])
      else if n.hasToken "get" then
        let type ← r.returnType n symbol
        pure (members ++ [{ d with typeSignature := some type }])
      else if n.hasToken "set" then
        if members.any (·.name == name) then pure members
        else
          let ps ← r.parameters n doc symbol
          let type := (ps.head?.map (·.type)).getD "unknown"
          pure (members ++ [{ d with typeSignature := some type }])
      else pure (members ++ [← r.asFunction d n doc])

def asClass (d : Declaration) (n : Node) : Noted Declaration := do
  let clauses := ((n.childOfKind? .classHeritage).map Node.namedChildren).getD []
  let members ← (((n.child? .body).map Node.placedChildren).getD []).foldlM
    (fun ms p => if p.node.isNamed then r.classMember d.name ms p else pure ms) []
  pure { d with
    kind := .classType
    modifiers := if n.kind == .abstractClassDeclaration then ["abstract"] else d.modifiers
    genericParams := genericParams (n.child? .typeParameters)
    extended := clauses.filterMap fun c =>
      if c.kind == .extendsClause then some (stripWord "extends" c.text) else none
    implemented := clauses.flatMap fun c =>
      if c.kind == .implementsClause then c.namedChildren.map Node.text else []
    members }

/-! Interfaces and enums -/

def typeMember (p : Placed) : Noted (Option Declaration) := do
  let n := p.node
  match n.child? .name with
  | none => pure none
  | some nameNode =>
    let doc := r.docBefore? p.before
    if !(n.kind == .propertySignature || n.kind == .methodSignature) || doc.any (·.hidden) then
      pure none
    else
      let d := documented
        { name := unquote nameNode.text, kind := .value, sourceLine := some n.start.line } doc
      if n.kind == .methodSignature then
        pure (some (← r.asFunction d n doc))
      else
        pure (some { d with
          modifiers := if n.hasToken "readonly" then ["readonly"] else []
          typeSignature := clauseType? (n.child? .type) })

def typeMembers (body : Node) : Noted (List Declaration) := do
  let read ← body.placedChildren.mapM r.typeMember
  pure (read.filterMap id)

def asInterface (d : Declaration) (n : Node) : Noted Declaration := do
  let properties ←
    match n.child? .body with
    | some body => r.typeMembers body
    | none => pure []
  pure { d with
    kind := .interface
    genericParams := genericParams (n.child? .typeParameters)
    extended := ((n.childOfKind? .extendsTypes).map fun c => c.namedChildren.map Node.text).getD []
    properties }

def enumMember? (p : Placed) : Option Declaration :=
  let n := p.node
  let member (name : String) (value : Option Node) : Declaration :=
    { documented { name := unquote name, kind := .value, sourceLine := some n.start.line }
        (r.docBefore? p.before) with
      typeSignature := value.map Node.text }
  match n.kind with
  | .propertyName | .stringLiteral => some (member n.text none)
  | .enumAssignment => some (member (n.textOf .name) (n.child? .value))
  | _ => none

def asEnum (d : Declaration) (n : Node) : Declaration :=
  { d with
    kind := .enum
    members := (((n.child? .body).map Node.placedChildren).getD []).filterMap r.enumMember? }

/-! Declarations -/

def asVariable (d : Declaration) (n : Node) (doc : Option DocComment) : Noted Declaration :=
  let value := (n.child? .value).map unwrap
  let type := clauseType? (n.child? .type)
  if value.any fun v => isFunctionValue v.kind then
    match value with
    | some v => do
      let f ← r.asFunction d v doc
      pure { f with typeSignature := type.or f.typeSignature }
    | none => pure d
  else
    match value, type with
    | some v, t =>
      if isClass v.kind then r.asClass d v
      else
        match t with
        | some t => pure { d with kind := .value, typeSignature := some t }
        | none => r.asValue d v
    | none, some t => pure { d with kind := .value, typeSignature := some t }
    | none, none => r.asValue d none

def read (name : String) (n : Node) (before : Option Node) : Noted (Option Declaration) :=
  let doc := r.docBefore? before
  if doc.any (·.hidden) then pure none
  else do
    let d := documented { name, kind := .value, sourceLine := some n.start.line } doc
    if isFunctionDeclaration n.kind || isFunctionValue n.kind then
      pure (some (← r.asFunction d n doc))
    else if isClass n.kind then pure (some (← r.asClass d n))
    else
      match n.kind with
      | .typeAlias =>
        pure (some { d with
          kind := .typeAlias
          typeSignature := nonempty? (Text.trimmed (n.textOf .value))
          genericParams := genericParams (n.child? .typeParameters) })
      | .interfaceDeclaration => pure (some (← r.asInterface d n))
      | .enumDeclaration => pure (some (r.asEnum d n))
      | .variableDeclarator => pure (some (← r.asVariable d n doc))
      | _ => pure (some (← r.asValue d (some n)))

end Reader

end ApiCatalog.Code
