import ApiCatalog.Yaml.Layout
import ApiCatalog.Yaml.Tag

namespace ApiCatalog.Yaml

inductive Node where
  | scalar (tag : Tag) (text : String)
  | sequence (tag : Tag) (items : List Node)
  | mapping (tag : Tag) (pairs : List (Node × Node))
  | enclosing

namespace Node

/-- What is left of the tokens, and the nodes that have names; a collection that is still open has none yet. -/
structure Progress where
  tokens : List Token
  anchors : List (String × Option Node) := []
  handles : Handles

abbrev Reader := StateT Progress Option

def peek? : Reader (Option Token) := do
  pure (← get).tokens.head?

def skip : Reader Unit :=
  modify fun p => { p with tokens := p.tokens.drop 1 }

def atAny (ts : List Token) : Reader Bool := do
  match ← peek? with
  | some t => pure (ts.contains t)
  | none => pure false

def accept (t : Token) : Reader Bool := do
  if ← atAny [t] then
    skip
    pure true
  else pure false

def expect (t : Token) : Reader Unit := do
  if ← accept t then pure () else failure

def empty : Node :=
  .scalar .null ""

structure Properties where
  anchor : Option String := none
  tag : Option Tag := none

def anchor? : Reader (Option String) := do
  match ← peek? with
  | some (.anchor name) =>
    skip
    pure (some name)
  | _ => pure none

def tag? : Reader (Option Tag) := do
  match ← peek? with
  | some (.tag t) =>
    skip
    let resolved ← (t.resolve? (← get).handles : Option Tag)
    pure (some resolved)
  | _ => pure none

def properties : Reader Properties := do
  match ← anchor? with
  | some name => pure { anchor := some name, tag := ← tag? }
  | none =>
    let tag ← tag?
    match tag with
    | none => pure {}
    | some t => pure { anchor := ← anchor?, tag := some t }

def declare : Option String → Reader Unit
  | none => pure ()
  | some name => do
    if ((← get).anchors.lookup name).isSome then failure
    else modify fun p => { p with anchors := (name, none) :: p.anchors }

def define (anchor : Option String) (n : Node) : Reader Node := do
  match anchor with
  | none => pure n
  | some name =>
    modify fun p => { p with anchors := (name, some n) :: p.anchors }
    pure n

def aliased (name : String) : Reader Node := do
  match (← get).anchors.lookup name with
  | some (some n) => pure n
  | some none => pure .enclosing
  | none => failure

/-- The tag of a scalar. Only plain ones, and those that say so, are judged by their text. -/
def scalarTag (tag : Option Tag) (text : String) (plain : Bool) : Tag :=
  match tag with
  | some .nonspecific => Tag.ofPlain text.toList
  | some t => t
  | none => if plain then Tag.ofPlain text.toList else .str

def collectionTag (tag : Option Tag) (default : Tag) : Tag :=
  match tag with
  | none | some .nonspecific => default
  | some t => t

/-! ### Collections

A node in brackets is read by `flow`, one in a block by `block`; a block that is the value of a mapping may have
entries at the indentation of the mapping, which `entries` allows. -/

def unlessAt (ts : List Token) (node : Reader Node) : Reader Node := do
  if ← atAny ts then pure empty else node

def collect {α : Type} (step : Reader (Option α)) : Nat → Reader (List α)
  | 0 => failure
  | fuel + 1 => do
    match ← step with
    | none => pure []
    | some a =>
      let rest ← collect step fuel
      pure (a :: rest)

def blockEntry (block : Reader Node) : Reader (Option Node) := do
  if ← accept .entry then
    let n ← unlessAt [.entry, .blockEnd] block
    pure (some n)
  else
    expect .blockEnd
    pure none

def bareEntry (block : Reader Node) : Reader (Option Node) := do
  if ← accept .entry then
    let n ← unlessAt [.entry, .key, .value, .blockEnd] block
    pure (some n)
  else pure none

def blockPair (entries : Reader Node) : Reader (Option (Node × Node)) := do
  if ← accept .key then
    let key ← unlessAt [.key, .value, .blockEnd] entries
    let value ← if ← accept .value then unlessAt [.key, .value, .blockEnd] entries else pure empty
    pure (some (key, value))
  else
    expect .blockEnd
    pure none

def nextItem (close : Token) (first : Bool) : Reader Bool := do
  if ← atAny [close] then pure false
  else
    if !first then expect .comma
    pure !(← atAny [close])

def flowPair (close : Token) (flow : Reader Node) : Reader (Node × Node) := do
  let key ← unlessAt [.value, .comma, close] flow
  let value ← if ← accept .value then unlessAt [.comma, close] flow else pure empty
  pure (key, value)

def flowItem (flow : Reader Node) : Reader Node := do
  if ← accept .key then
    let pair ← flowPair .closeBracket flow
    pure (.mapping .map [pair])
  else flow

def flowMember (flow : Reader Node) : Reader (Node × Node) := do
  if ← accept .key then flowPair .closeBrace flow
  else
    let key ← flow
    pure (key, empty)

def flowItems {α : Type} (close : Token) (item : Reader α) (fuel : Nat) : Reader (List α) := do
  if ← nextItem close true then
    let first ← item
    let rest ← collect
      (do if ← nextItem close false then some <$> item else pure none) fuel
    skip
    pure (first :: rest)
  else
    skip
    pure []

inductive Position where
  | flow | block | mappingValue
  deriving DecidableEq

def content (fuel : Nat) (node : Position → Reader Node) (position : Position) (ps : Properties) :
    Reader Node := do
  let inBlock := position != .flow
  match ← peek? with
  | some (.scalar text plain) =>
    skip
    pure (.scalar (scalarTag ps.tag text plain) text)
  | some .openBracket =>
    skip
    let items ← flowItems .closeBracket (flowItem (node .flow)) fuel
    pure (.sequence (collectionTag ps.tag .seq) items)
  | some .openBrace =>
    skip
    let pairs ← flowItems .closeBrace (flowMember (node .flow)) fuel
    pure (.mapping (collectionTag ps.tag .map) pairs)
  | t =>
    if t = some .entry && position = .mappingValue then
      let items ← collect (bareEntry (node .block)) fuel
      pure (.sequence (collectionTag ps.tag .seq) items)
    else if t = some .blockSequence && inBlock then
      skip
      let items ← collect (blockEntry (node .block)) fuel
      pure (.sequence (collectionTag ps.tag .seq) items)
    else if t = some .blockMapping && inBlock then
      skip
      let pairs ← collect (blockPair (node .mappingValue)) fuel
      pure (.mapping (collectionTag ps.tag .map) pairs)
    else if ps.anchor.isSome || ps.tag.isSome then
      pure (.scalar (scalarTag ps.tag "" true) "")
    else failure

def read : Nat → Position → Reader Node
  | 0, _ => failure
  | fuel + 1, position => do
    match ← peek? with
    | some (.reference name) =>
      skip
      aliased name
    | _ =>
      let ps ← properties
      declare ps.anchor
      let n ← content fuel (read fuel) position ps
      define ps.anchor n

/-! ### Documents -/

structure Prologue where
  version : Bool := false
  handles : Handles := []

def Prologue.add (p : Prologue) : Directive → Option Prologue
  | .version major => if p.version || major != 1 then none else some { p with version := true }
  | .tag handle expansion =>
    if (p.handles.lookup handle).isSome then none
    else some { p with handles := p.handles ++ [(handle, expansion)] }
  | .unknown => some p

def directives : List Token → List Directive × List Token
  | .directive d :: ts =>
    let (ds, rest) := directives ts
    (d :: ds, rest)
  | ts => ([], ts)

def isFinished (ts : List Token) : Bool :=
  ts.all (· == .documentEnd)

def ofContent? (handles : Handles) (ts : List Token) : Option Node := do
  let (n, p) ← (read (ts.length + 1) .block).run { tokens := ts, handles }
  if isFinished p.tokens then pure n else none

def ofMarked? (handles : Handles) (ts : List Token) : Option Node :=
  if isFinished ts then some empty else ofContent? handles ts

/-- The node of the only document, if there is a document: `none` stands for a text without any. -/
def ofTokens? (ts : List Token) : Option (Option Node) :=
  match directives ts with
  | ([], []) => some none
  | ([], .documentStart :: rest) => some <$> ofMarked? Handles.standard rest
  | ([], rest) => some <$> ofContent? Handles.standard rest
  | (ds, .documentStart :: rest) => do
    let p ← ds.foldlM Prologue.add {}
    some <$> ofMarked? (p.handles ++ Handles.standard) rest
  | _ => none

end Node

end ApiCatalog.Yaml
