import ApiCatalog.Yaml.Token

/-!
From a YAML text to its tokens. Indentation opens and closes blocks, and a key is known for one only at the
colon behind it: wherever a key may start the place is remembered, and the colon puts its tokens there.
-/

namespace ApiCatalog.Yaml

structure PossibleKey where
  place : Nat
  index : Nat
  line : Nat
  column : Nat
  /-- At the indentation of a block there can be nothing but a key. -/
  required : Bool

structure Layout where
  cursor : Cursor
  tokens : List Token := []
  indents : List Nat := []
  keyAllowed : Bool := true
  key : Option PossibleKey := none
  outerKeys : List (Option PossibleKey) := []

namespace Layout

variable (l : Layout)

def inFlow : Bool :=
  !l.outerKeys.isEmpty

def column : Nat :=
  l.cursor.column

def least : Nat :=
  match l.indents with
  | [] => 0
  | column :: _ => column + 1

def push (t : Token) (c : Cursor) : Layout :=
  { l with tokens := t :: l.tokens, cursor := c }

def insert (t : Token) (place : Nat) : Layout :=
  let after := l.tokens.length - place
  { l with tokens := l.tokens.take after ++ t :: l.tokens.drop after }

/-- A key is on one line and has at most 1024 characters before its colon. -/
def keepsKey (k : PossibleKey) : Bool :=
  k.line == l.cursor.line && l.cursor.index - k.index ≤ 1024

def freshKey? : Option PossibleKey → Option (Option PossibleKey)
  | none => some none
  | some k => if l.keepsKey k then some (some k) else if k.required then none else some none

def dropStaleKeys : Option Layout := do
  let key ← l.freshKey? l.key
  let outerKeys ← l.outerKeys.mapM l.freshKey?
  pure { l with key, outerKeys }

def forgetKey : Option Layout :=
  match l.key with
  | some k => if k.required then none else some { l with key := none }
  | none => some l

def saveKey : Option Layout :=
  if l.keyAllowed then do
    let l ← l.forgetKey
    pure { l with key := some {
      place := l.tokens.length
      index := l.cursor.index
      line := l.cursor.line
      column := l.column
      required := !l.inFlow && l.indents.head? == some l.column } }
  else some l

def closeBlocks (column : Nat) : Layout :=
  let closed := l.indents.takeWhile (column < ·)
  { l with
    tokens := closed.map (fun _ => Token.blockEnd) ++ l.tokens
    indents := l.indents.drop closed.length }

def closeAllBlocks : Layout :=
  if l.inFlow then l
  else { l with tokens := l.indents.map (fun _ => Token.blockEnd) ++ l.tokens, indents := [] }

def openBlock (t : Token) (column place : Nat) : Layout :=
  if l.indents.all (· < column) then
    { l.insert t place with indents := column :: l.indents }
  else l

def openBlockHere (t : Token) : Option Layout :=
  if l.inFlow then some l
  else if l.keyAllowed then some (l.openBlock t l.column l.tokens.length)
  else none

def skipToToken : Nat → Layout → Layout
  | 0, l => l
  | fuel + 1, l =>
    let c := l.cursor.skipComment
    match c.lineBreak? with
    | some (_, c) => skipToToken fuel { l with cursor := c, keyAllowed := l.keyAllowed || !l.inFlow }
    | none => { l with cursor := c }

def skipByteOrderMark : Layout :=
  if l.cursor.index == 0 && l.cursor.peek? = some '\ufeff' then { l with cursor := l.cursor.next } else l

/-! ### Tokens -/

def outermost (t : Token) (c : Cursor) : Option Layout := do
  let l ← l.closeAllBlocks.forgetKey
  pure { l.push t c with keyAllowed := false }

def openFlow (t : Token) : Option Layout := do
  let l ← l.saveKey
  pure { l.push t l.cursor.next with keyAllowed := true, key := none, outerKeys := l.key :: l.outerKeys }

def closeFlow (t : Token) : Option Layout :=
  match l.outerKeys with
  | [] => none
  | key :: outerKeys => some { l.push t l.cursor.next with keyAllowed := false, key, outerKeys }

def comma : Option Layout := do
  let l ← l.forgetKey
  pure { l.push .comma l.cursor.next with keyAllowed := true }

def entry : Option Layout := do
  let l ← l.openBlockHere .blockSequence
  let l ← l.forgetKey
  pure { l.push .entry l.cursor.next with keyAllowed := true }

def explicitKey : Option Layout := do
  let l ← l.openBlockHere .blockMapping
  let l ← l.forgetKey
  pure { l.push .key l.cursor.next with keyAllowed := !l.inFlow }

def value : Option Layout :=
  match l.key with
  | some k =>
    let l := l.insert .key k.place
    let l := if l.inFlow then l else l.openBlock .blockMapping k.column k.place
    some { l.push .value l.cursor.next with keyAllowed := false, key := none }
  | none => do
    let l ← l.openBlockHere .blockMapping
    pure { l.push .value l.cursor.next with keyAllowed := !l.inFlow }

def starting (read : Option (Token × Cursor)) : Option Layout := do
  let l ← l.saveKey
  let (t, c) ← read
  pure { l.push t c with keyAllowed := false }

def block (folded : Bool) : Option Layout := do
  let l ← l.forgetKey
  let (text, c) ← blockScalar folded l.least l.cursor
  pure { l.push (.scalar (String.ofList text) false) c with keyAllowed := true }

def quoted (quote : Char) : Option Layout :=
  l.starting do
    let (text, c) ← quotedScalar quote l.cursor
    pure (.scalar (String.ofList text) false, c)

def plain : Option Layout := do
  let l ← l.saveKey
  let gap := plainScalar l.inFlow l.least l.cursor
  pure { l.push (.scalar (String.ofList gap.text) true) gap.after with keyAllowed := gap.crossed }

def named (token : String → Token) : Option Layout :=
  l.starting do
    let (name, c) ← anchorName l.cursor
    pure (token name, c)

def isIndicator (c : Char) : Bool :=
  "-?:,[]\x7b\x7d#&*!|>'\"%@`".toList.contains c

def startsPlain (inFlow : Bool) (c : Char) (rest : List Char) : Bool :=
  !(isBlank c || isIndicator c)
    || (!startsWithOrEnds isBlank rest && (c == '-' || (!inFlow && (c == '?' || c == ':'))))

def token (x : Char) (rest : List Char) : Option Layout :=
  let c := l.cursor
  let atLineStart := l.column == 0
  let blankNext := startsWithOrEnds isBlank rest
  if atLineStart && x == '%' then do
    let l ← l.closeAllBlocks.forgetKey
    let (d, c) ← directive c
    pure { l.push (.directive d) c with keyAllowed := false }
  else if atLineStart && isDocumentMark '-' c.rest then l.outermost .documentStart (c.advance 3)
  else if atLineStart && isDocumentMark '.' c.rest then l.outermost .documentEnd (c.advance 3)
  else match x with
    | '[' => l.openFlow .openBracket
    | '\x7b' => l.openFlow .openBrace
    | ']' => l.closeFlow .closeBracket
    | '\x7d' => l.closeFlow .closeBrace
    | ',' => l.comma
    | '*' => l.named .reference
    | '&' => l.named .anchor
    | '!' => l.starting do
        let (t, c) ← tagText c
        pure (.tag t, c)
    | '\'' => l.quoted x
    | '"' => l.quoted x
    | _ =>
      if x == '-' && blankNext then l.entry
      else if x == '?' && (l.inFlow || blankNext) then l.explicitKey
      else if x == ':' && (l.inFlow || blankNext) then l.value
      else if x == '|' && !l.inFlow then l.block false
      else if x == '>' && !l.inFlow then l.block true
      else if startsPlain l.inFlow x rest then l.plain
      else none

def toToken : Option Layout := do
  let l ← (skipToToken (l.cursor.rest.length + 1) l.skipByteOrderMark).dropStaleKeys
  pure (if l.inFlow then l else l.closeBlocks l.column)

def run : Nat → Layout → Option Layout
  | 0, _ => none
  | fuel + 1, l => do
    let l ← l.toToken
    match l.cursor.rest with
    | [] => l.closeAllBlocks.forgetKey
    | x :: rest => run fuel (← l.token x rest)

end Layout

def Token.ofText? (text : List Char) : Option (List Token) :=
  if text.all isAllowed then
    (Layout.run (text.length + 1) { cursor := { rest := text } }).map fun l => l.tokens.reverse
  else none

end ApiCatalog.Yaml
