import ApiCatalog.Catalog.Module
import ApiCatalog.Code.Pattern
import ApiCatalog.Code.Reader
import ApiCatalog.Text.Quoted

namespace ApiCatalog.Code

open Syntax

structure Binding where
  node : Node
  before : Option Node

structure Import where
  specifier : String
  name : String

structure Names where
  locals : List (String × Binding) := []
  imports : List (String × Import) := []

/-- Later entries come first, so that a look-up finds the latest. -/
def Names.bind (ns : Names) (name : String) (b : Binding) : Names :=
  { ns with locals := (name, b) :: ns.locals }

def Names.local? (ns : Names) (name : String) : Option Binding :=
  ns.locals.lookup name

def Names.import? (ns : Names) (name : String) : Option Import :=
  ns.imports.lookup name

/-! Indexing -/

def ambientInner? (n : Node) : Option Node :=
  n.namedChildren.find? fun c => c.kind != .comment

def declared? (n : Node) : Option Node :=
  if n.kind == .ambientDeclaration then ambientInner? n else some n

def declarators (n : Node) : List Node :=
  n.namedChildren.filter fun c => c.kind == .variableDeclarator

/-- Binds the names that a declaration declares. A variable replaces an earlier binding of its name;
anything else replaces only a function signature. -/
def indexDeclaration (ns : Names) (n : Node) (before : Option Node) : Names :=
  match declared? n with
  | none => ns
  | some d =>
    if isVariableStatement d.kind then
      (declarators d).foldl
        (fun ns v =>
          match v.child? .name with
          | some name => if name.kind == .identifier then ns.bind name.text ⟨v, before⟩ else ns
          | none => ns) ns
    else if isNamedDeclaration d.kind then
      match d.child? .name with
      | some name =>
        if (ns.local? name.text).all fun b => b.node.kind == .functionSignature then
          ns.bind name.text ⟨d, before⟩
        else ns
      | none => ns
    else ns

def importedNames (specifier : String) (clause : Node) : List (String × Import) :=
  clause.namedChildren.flatMap fun c =>
    match c.kind with
    | .identifier => [(c.text, ⟨specifier, "default"⟩)]
    | .namedImports =>
      c.namedChildren.filterMap fun item =>
        if item.kind == .importSpecifier then
          let name := unquote (item.textOf .name)
          some (((item.child? .newName).map Node.text).getD name, ⟨specifier, name⟩)
        else none
    | _ => []

def indexImport (ns : Names) (n : Node) : Names :=
  match n.child? .source, n.childOfKind? .importClause with
  | some source, some clause =>
    { ns with imports := (importedNames (unquote source.text) clause).reverse ++ ns.imports }
  | _, _ => ns

def indexStatement (ns : Names) (p : Placed) : Names :=
  match p.node.kind with
  | .importStatement => indexImport ns p.node
  | .exportStatement =>
    match p.node.child? .declaration with
    | some d => indexDeclaration ns d p.before
    | none => ns
  | _ => indexDeclaration ns p.node p.before

/-! Offers -/

inductive Entry where
  | declaration (d : Declaration)
  | reExport (e : ReExport)
  | star (target : String)

structure Offer where
  entry : Entry
  place : Position

structure Surroundings where
  reader : Reader
  modulePath : String
  names : Names
  resolve : String → Option String

namespace Surroundings

variable (s : Surroundings)

def debug (message : String) : Noted Unit :=
  .write .debug .code (message ++ " in " ++ s.reader.file)

def offerDeclaration (place : Position) (d : Noted (Option Declaration)) : Noted (Option Offer) := do
  pure ((← d).map fun d => ⟨.declaration d, place⟩)

def offerDeclarator (statement : Placed) (n : Node) : List (Noted (Option Offer)) :=
  let place := statement.node.start
  match n.child? .name with
  | none => []
  | some name =>
    if name.kind == .identifier then
      [offerDeclaration place (s.reader.read name.text n statement.before)]
    else
      (boundNames name).map fun i => offerDeclaration place do
        let d ← s.reader.asValue
          { name := i.text, kind := .value, sourceLine := some i.start.line } none
        pure (some d)

def offersOfDeclaration (n : Node) (statement : Placed) : List (Noted (Option Offer)) :=
  match declared? n with
  | none => []
  | some d =>
    if isVariableStatement d.kind then (declarators d).flatMap (s.offerDeclarator statement)
    else if !isNamedDeclaration d.kind then
      [do
        s.debug ("Skipping unsupported export " ++ d.kind.label)
        pure none]
    else
      let name := ((d.child? .name).map Node.text).getD "default"
      [offerDeclaration statement.node.start (s.reader.read name d statement.before)]

def specifiers (clause : Node) : List (String × String) :=
  clause.namedChildren.filterMap fun item =>
    if item.kind == .exportSpecifier then
      let name := unquote (item.textOf .name)
      some (name, ((item.child? .newName).map fun a => unquote a.text).getD name)
    else none

def offersFrom (n : Node) (specifier : String) : List (Noted (Option Offer)) :=
  match s.resolve specifier with
  | none =>
    [do
      s.debug ("Dropping re-export of external module " ++ Text.quoted specifier)
      pure none]
  | some target =>
    match n.childOfKind? .exportClause, n.childOfKind? .namespaceExport with
    | some clause, _ =>
      (specifiers clause).map fun (name, exported) =>
        pure (some ⟨.reExport ⟨name, target, exported⟩, n.start⟩)
    | none, some namespaceNode =>
      match namespaceNode.namedChildren with
      | [] => []
      | bound :: _ =>
        [pure (some ⟨.declaration {
            name := unquote bound.text
            kind := .value
            sourceLine := some n.start.line
            typeSignature := some ("typeof import(\"" ++ specifier ++ "\")") }, n.start⟩)]
    | none, none => [pure (some ⟨.star target, n.start⟩)]

def offerImported (localName exported : String) (i : Import) (place : Position) : Noted (Option Offer) :=
  match s.resolve i.specifier with
  | none => do
    s.debug ("Dropping re-export of external binding " ++ Text.quoted localName)
    pure none
  | some target => pure (some ⟨.reExport ⟨i.name, target, exported⟩, place⟩)

def offerLocal (name exported : String) (b : Binding) (place : Position) (renamed : Bool) :
    Noted (Option Offer) :=
  offerDeclaration place do
    pure ((← s.reader.read exported b.node b.before).map fun d =>
      if renamed then { d with aliasOf := some ⟨s.modulePath, name⟩ } else d)

def offersOfClause (clause : Node) : List (Noted (Option Offer)) :=
  (specifiers clause).map fun (name, exported) =>
    match s.names.import? name, s.names.local? name with
    | some i, _ => s.offerImported name exported i clause.start
    | none, some b => s.offerLocal name exported b clause.start (exported != name)
    | none, none => do
      s.debug ("Export of unknown binding " ++ Text.quoted name)
      pure none

def offerDefault (value : Node) (statement : Placed) : Noted (Option Offer) :=
  let place := statement.node.start
  let v := unwrap value
  let plain := offerDeclaration place (s.reader.read "default" v statement.before)
  if v.kind == .identifier then
    match s.names.import? v.text, s.names.local? v.text with
    | some i, _ => s.offerImported v.text "default" i place
    | none, some b => s.offerLocal v.text "default" b place true
    | none, none => plain
  else plain

def offersOfStatement (statement : Placed) : List (Noted (Option Offer)) :=
  let n := statement.node
  if n.kind != .exportStatement then []
  else
    match n.child? .declaration, n.child? .source with
    | some d, _ => s.offersOfDeclaration d statement
    | none, some source => s.offersFrom n (unquote source.text)
    | none, none =>
      if n.hasToken "default" then
        match n.child? .value with
        | some v => [s.offerDefault v statement]
        | none => []
      else
        match n.childOfKind? .exportClause with
        | some clause => s.offersOfClause clause
        | none => []

end Surroundings

/-! Keeping the first entry of each name -/

structure Extracted where
  declarations : List Declaration := []
  moduleComment : Option String := none
  reExports : List ReExport := []
  starExports : List String := []

structure Kept where
  extracted : Extracted
  taken : List (String × Option DeclarationKind) := []

namespace Kept

def addStar (k : Kept) (target : String) : Kept :=
  if k.extracted.starExports.contains target then k
  else { k with extracted.starExports := k.extracted.starExports ++ [target] }

def addDeclaration (k : Kept) (d : Declaration) : Kept where
  extracted := { k.extracted with declarations := k.extracted.declarations ++ [d] }
  taken := (d.name, some d.kind) :: k.taken

def addReExport (k : Kept) (e : ReExport) : Kept where
  extracted := { k.extracted with reExports := k.extracted.reExports ++ [e] }
  taken := (e.exportedName, none) :: k.taken

def clash (file name : String) (place : Position) : Noted Unit :=
  .note {
    kind := .duplicateBinding, file, line := some place.line, column := some place.column
    message := "Duplicate export \"" ++ name ++ "\"; keeping the first binding"
    symbol := some name }

/-- Overloads share a name, and the first is kept without a report. -/
def isOverload (earlier later : Option DeclarationKind) : Bool :=
  later == some .function && earlier == some .function

def claim (k : Kept) (file name : String) (kind : Option DeclarationKind) (place : Position)
    (accepted : Kept) : Noted Kept :=
  match k.taken.lookup name with
  | none => pure accepted
  | some earlier =>
    if isOverload earlier kind then pure k
    else do
      clash file name place
      pure k

def add (k : Kept) (file : String) (o : Offer) : Noted Kept :=
  match o.entry with
  | .star target => pure (k.addStar target)
  | .declaration d => k.claim file d.name (some d.kind) o.place (k.addDeclaration d)
  | .reExport e => k.claim file e.exportedName none o.place (k.addReExport e)

end Kept

def keepOffer (file : String) (k : Kept) (offer : Noted (Option Offer)) : Noted Kept := do
  match ← offer with
  | some o => k.add file o
  | none => pure k

def statements (root : Node) : List Placed :=
  root.placedChildren.filter fun p => p.node.isNamed && p.node.kind != .comment

def extractExports (file modulePath : String) (resolve : String → Option String) (root : Node) :
    Noted Extracted := do
  let body := statements root
  let surroundings : Surroundings :=
    { reader := .ofRoot file root, modulePath, resolve, names := body.foldl indexStatement {} }
  let kept ← (body.flatMap surroundings.offersOfStatement).foldlM (keepOffer file)
    { extracted := { moduleComment := moduleCommentText? root } }
  pure kept.extracted

def analyzeCode (file modulePath : String) (resolve : String → Option String) (root : Node) :
    Noted Extracted := do
  match root.firstError? with
  | some e =>
    .write .warning .code ("Syntax error in " ++ file ++ " at " ++ toString e.start.line ++ ":"
      ++ toString e.start.column ++ "; metadata may be incomplete")
  | none => pure ()
  extractExports file modulePath resolve root

end ApiCatalog.Code
