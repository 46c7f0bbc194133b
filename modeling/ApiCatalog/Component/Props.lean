import ApiCatalog.Code.Exports
import ApiCatalog.Component.Union

namespace ApiCatalog.Component

open Syntax Code

structure PropReader where
  reader : Reader
  component : String
  defaultImpliesOptional : Bool
  statements : List Placed
  types : List (String × Node)

structure TypedProp where
  name : String
  type : String
  optional : Bool
  description : Option String
  defaultValue : Option String

structure Default where
  value : Option String := none
  bindable : Bool := false

def declaredType? (n : Node) : Option (String × Node) :=
  let d := if n.kind == .exportStatement then (n.child? .declaration).getD n else n
  if d.kind == .interfaceDeclaration || d.kind == .typeAlias then
    (d.child? .name).map fun name => (name.text, d)
  else none

def PropReader.ofRoot (file component : String) (defaultImpliesOptional : Bool) (root : Node) :
    PropReader :=
  let body := Code.statements root
  { reader := .ofRoot file root
    component
    defaultImpliesOptional
    statements := body
    types := (body.filterMap fun p => declaredType? p.node).reverse }

/-! The parts of a type -/

inductive TypePart where
  | members (body : Node)
  | reference (n : Node) (name : String)
  | unsupported (n : Node)

mutual

def typeParts : Node → List TypePart
  | .mk _ .typeClause _ _ _ cs => firstTypeParts cs
  | .mk _ .typeArguments _ _ _ cs => firstTypeParts cs
  | .mk _ .parenthesizedType _ _ _ cs => firstTypeParts cs
  | .mk _ .intersectionType _ _ _ cs => allTypeParts cs
  | n =>
    match n.kind with
    | .objectType | .interfaceBody => [.members n]
    | .typeName => [.reference n n.text]
    | .genericType => [.reference n (((n.child? .name).getD n).text)]
    | _ => [.unsupported n]

def firstTypeParts : List Node → List TypePart
  | [] => []
  | c :: cs => if c.isNamed then typeParts c else firstTypeParts cs

def allTypeParts : List Node → List TypePart
  | [] => []
  | c :: cs => (if c.isNamed then typeParts c else []) ++ allTypeParts cs

end

/-- The parts of a declared type; an interface has those of the types it extends first. -/
def declarationParts (d : Node) : List TypePart :=
  if d.kind == .typeAlias then ((d.child? .value).map typeParts).getD []
  else
    (((d.childOfKind? .extendsTypes).map Node.namedChildren).getD []).flatMap typeParts
      ++ ((d.child? .body).map typeParts).getD []

namespace PropReader

variable (r : PropReader)

/-- A warning about a name that is empty is about the component. -/
def warn (n : Node) (message : String) (symbol : String) : Noted Unit :=
  r.reader.warn .componentProp n.start message (some (if symbol = "" then r.component else symbol))

def member (p : Placed) : Noted (Option TypedProp) := do
  let n := p.node
  match n.child? .name with
  | none => pure none
  | some nameNode =>
    let doc := r.reader.docBefore? p.before
    if !(n.kind == .propertySignature || n.kind == .methodSignature) || doc.any (·.hidden) then
      pure none
    else
      let name := Code.unquote nameNode.text
      let type ←
        if n.kind == .methodSignature then do
          let f ← r.reader.asFunction { name, kind := .function } n doc
          pure (f.typeSignature.getD "any")
        else
          match Code.clauseType? (n.child? .type) with
          | some t => pure t
          | none => do
            r.warn n ("Prop \"" ++ name ++ "\" of " ++ r.component ++ " has no type; using \"any\"") name
            pure "any"
      pure (some {
        name, type
        optional := n.hasToken "?"
        description := doc.bind (·.text)
        defaultValue := doc.bind (·.defaultValue) })

/-- The properties that parts of a type declare. A type that is being looked into is not looked
into again, so that there are no more rounds than types. -/
def typedProps : Nat → List String → List TypePart → Noted (List TypedProp)
  | 0, _, _ => pure []
  | fuel + 1, seen, parts => do
    let found ← parts.mapM fun
      | .members body => do
        let read ← body.placedChildren.mapM r.member
        pure (read.filterMap id)
      | .unsupported n => do
        r.warn n ("Unsupported props type \"" ++ n.text ++ "\" in " ++ r.component) r.component
        pure []
      | .reference n name =>
        match r.types.lookup name with
        | none => do
          r.warn n ("Cannot resolve props type \"" ++ name ++ "\" in " ++ r.component) r.component
          pure []
        | some d =>
          if seen.contains name then pure []
          else typedProps fuel (name :: seen) (declarationParts d)
    pure found.flatten

/-! Defaults -/

def default (n : Option Node) : Default :=
  match n.map unwrap with
  | none => {}
  | some v =>
    if v.kind == .call && v.textOf .callee == "$bindable" then
      { value := ((v.child? .arguments).bind fun a => a.namedChildren.head?).map Node.text
        bindable := true }
    else { value := some v.text }

def addDefault (entries : List (String × Default)) (n : Node) : List (String × Default) :=
  match n.kind with
  | .shorthandPattern => Text.setValue n.text {} entries
  | .objectAssignmentPattern =>
    match n.child? .left with
    | some left => Text.setValue left.text (default (n.child? .right)) entries
    | none => entries
  | .pairPattern =>
    match n.child? .key with
    | some key =>
      let right := (n.child? .value).bind fun v =>
        if v.kind == .assignmentPattern then v.child? .right else none
      Text.setValue (Code.unquote key.text) (default right) entries
    | none => entries
  | _ => entries

def defaults (n : Option Node) : List (String × Default) :=
  match n with
  | some p => if p.kind == .objectPattern then p.namedChildren.foldl addDefault [] else []
  | none => []

/-- A property is optional if it is marked so, if its type allows it to be undefined, or if it has
a default and defaults count. -/
def prop (p : TypedProp) (d : Default) : ComponentProp where
  name := p.name
  type := p.type
  optional := p.optional || includesUndefined p.type
    || ((d.value.or p.defaultValue).isSome && r.defaultImpliesOptional)
  defaultValue := d.value.or p.defaultValue
  description := p.description
  bindable := d.bindable

/-! Properties from the call -/

structure PropsCall where
  statement : Placed
  declarator : Node
  call : Node

def callIn? (declarator : Node) : Option Node :=
  if declarator.kind == .variableDeclarator then
    ((declarator.child? .value).map unwrap).filter fun v =>
      v.kind == .call && v.textOf .callee == "$props"
  else none

def propsCall? : Option PropsCall :=
  r.statements.findSome? fun p =>
    if isVariableStatement p.node.kind then
      p.node.namedChildren.findSome? fun d => (callIn? d).map fun call => ⟨p, d, call⟩
    else none

def firstOfEachName (ps : List TypedProp) : List TypedProp :=
  ps.foldl (fun kept p => if kept.any (·.name == p.name) then kept else kept ++ [p]) []

def calledProps (c : PropsCall) : Noted (List ComponentProp) := do
  let typeNode := (c.declarator.child? .type).or (c.call.child? .typeArguments)
  let typed ← r.typedProps (r.types.length + 1) [] ((typeNode.map typeParts).getD [])
  let declared := firstOfEachName typed
  let entries := defaults (c.declarator.child? .name)
  let others ← (entries.filter fun e => !declared.any (·.name == e.1)).mapM fun (name, d) => do
    r.warn c.declarator
      ("Prop \"" ++ name ++ "\" of " ++ r.component ++ " has no declared type; using \"any\"") name
    pure (r.prop ⟨name, "any", false, none, none⟩ d)
  pure (declared.map (fun p => r.prop p ((entries.lookup p.name).getD {})) ++ others)

/-! Properties from exported variables -/

def variableProp (doc : Option DocComment) (n : Node) : Noted (Option ComponentProp) := do
  match n.child? .name with
  | none => pure none
  | some nameNode =>
    if n.kind != .variableDeclarator || nameNode.kind != .identifier then pure none
    else
      let name := nameNode.text
      let value := n.child? .value
      let type ←
        match (Code.clauseType? (n.child? .type)).or (value.bind expressionType?) with
        | some t => pure t
        | none => do
          r.warn n ("Prop \"" ++ name ++ "\" of " ++ r.component ++ " has no type; using \"any\"") name
          pure "any"
      pure (some (r.prop
        ⟨name, type, false, doc.bind (·.text), doc.bind (·.defaultValue)⟩
        { value := value.map Node.text }))

def exportedProps (p : Placed) : Noted (List ComponentProp) := do
  match p.node.kind, p.node.child? .declaration with
  | .exportStatement, some d =>
    let doc := r.reader.docBefore? p.before
    if !isVariableStatement d.kind || d.hasToken "const" || doc.any (·.hidden) then pure []
    else
      let read ← d.namedChildren.mapM (r.variableProp doc)
      pure (read.filterMap id)
  | _, _ => pure []

def variableProps : Noted (List ComponentProp) := do
  pure (← r.statements.mapM r.exportedProps).flatten

end PropReader

end ApiCatalog.Component
