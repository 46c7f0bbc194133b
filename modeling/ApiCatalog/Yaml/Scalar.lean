import ApiCatalog.Text.Digit
import ApiCatalog.Yaml.Cursor

namespace ApiCatalog.Yaml

/-- A line end between two lines of a scalar, and those of the empty lines after it: a single line feed becomes
a space, and the first of several is dropped. -/
def foldBreaks (first : Char) (more : List Char) : List Char :=
  if first != '\n' then first :: more
  else if more.isEmpty then [' ']
  else more

/-! ### Plain scalars -/

def endsPlain (inFlow : Bool) (c : Char) (rest : List Char) : Bool :=
  isBlank c
    || (c == ':' && startsWithOrEnds (fun x => isBlank x || (inFlow && ",[]\x7b\x7d".toList.contains x)) rest)
    || (inFlow && ",?[]\x7b\x7d".toList.contains c)

def plainRun (inFlow : Bool) : List Char → List Char
  | [] => []
  | c :: rest => if endsPlain inFlow c rest then [] else c :: plainRun inFlow rest

structure Gap where
  text : List Char
  crossed : Bool
  after : Cursor

def emptyLines : Nat → Cursor → List Char → Option (List Char) × Cursor
  | 0, c, breaks => (some breaks, c)
  | fuel + 1, c, breaks =>
    if c.peek? = some ' ' then emptyLines fuel c.next breaks
    else match c.lineBreak? with
      | none => (some breaks, c)
      | some (b, c) =>
        if isAnyDocumentMark c.rest then (none, c) else emptyLines fuel c (breaks ++ [b])

def plainGap (c : Cursor) : Gap :=
  let (spaces, c) := c.span (· == ' ')
  match c.lineBreak? with
  | none => ⟨spaces, false, c⟩
  | some (first, c) =>
    if isAnyDocumentMark c.rest then ⟨[], true, c⟩
    else match emptyLines c.rest.length c [] with
      | (none, c) => ⟨[], true, c⟩
      | (some more, c) => ⟨foldBreaks first more, true, c⟩

/-- The text of a plain scalar whose lines are indented to a column at least, and whether the last gap went
over a line end. -/
def plainFrom (inFlow : Bool) (column : Nat) : Nat → Cursor → List Char → Gap
  | 0, c, text => ⟨text, false, c⟩
  | fuel + 1, c, text =>
    let run := plainRun inFlow c.rest
    let gap := plainGap (c.advance run.length)
    let text := text ++ run
    if gap.text.isEmpty || gap.after.peek? = some '#' || (!inFlow && gap.after.column < column)
      || (plainRun inFlow gap.after.rest).isEmpty
    then { gap with text }
    else plainFrom inFlow column fuel gap.after (text ++ gap.text)

def plainScalar (inFlow : Bool) (column : Nat) (c : Cursor) : Gap :=
  plainFrom inFlow column c.rest.length c []

/-! ### Quoted scalars -/

def escaped? : Char → Option Char
  | '0' => some '\x00'
  | 'a' => some '\x07'
  | 'b' => some '\x08'
  | 't' => some '\t'
  | '\t' => some '\t'
  | 'n' => some '\n'
  | 'v' => some '\x0b'
  | 'f' => some '\x0c'
  | 'r' => some '\r'
  | 'e' => some '\x1b'
  | ' ' => some ' '
  | '"' => some '"'
  | '\\' => some '\\'
  | '/' => some '/'
  | 'N' => some '\u0085'
  | '_' => some '\u00a0'
  | 'L' => some '\u2028'
  | 'P' => some '\u2029'
  | _ => none

def codeLength? : Char → Option Nat
  | 'x' => some 2
  | 'u' => some 4
  | 'U' => some 8
  | _ => none

def hexNumber? (cs : List Char) : Option Nat :=
  if cs.all (Text.isDigitIn 16) then some (Text.numberIn 16 cs) else none

def charOfCode? (n : Nat) : Option Char :=
  if n.isValidChar then some (Char.ofNat n) else none

def quotedBreaks : Nat → Cursor → List Char → Option (List Char × Cursor)
  | 0, _, _ => none
  | fuel + 1, c, breaks =>
    if isAnyDocumentMark c.rest then none
    else
      let c := c.skip isSpaceOrTab
      match c.lineBreak? with
      | some (b, c) => quotedBreaks fuel c (breaks ++ [b])
      | none => some (breaks, c)

def quotedBlanks (c : Cursor) : Option (List Char × Cursor) :=
  let (spaces, c) := c.span isSpaceOrTab
  match c.lineBreak? with
  | none => some (spaces, c)
  | some (first, c) => do
    let (more, c) ← quotedBreaks (c.rest.length + 1) c []
    pure (foldBreaks first more, c)

def escapeSequence (c : Cursor) : Option (List Char × Cursor) := do
  let x ← c.peek?
  match escaped? x, codeLength? x with
  | some y, _ => pure ([y], c.next)
  | none, some n =>
    let digits := c.next.rest.take n
    if digits.length < n then none
    else
      let y ← charOfCode? (← hexNumber? digits)
      pure ([y], c.next.advance n)
  | none, none =>
    let (_, c) ← c.lineBreak?
    quotedBreaks (c.rest.length + 1) c []

def quotedFrom (quote : Char) : Nat → Cursor → List Char → Option (List Char × Cursor)
  | 0, _, _ => none
  | fuel + 1, c, text => do
    let x ← c.peek?
    if isBlank x then
      let (more, c) ← quotedBlanks c
      quotedFrom quote fuel c (text ++ more)
    else if x == quote then
      if quote == '\'' && c.next.peek? = some quote then quotedFrom quote fuel (c.advance 2) (text ++ [quote])
      else pure (text, c.next)
    else if quote == '"' && x == '\\' then
      let (more, c) ← escapeSequence c.next
      quotedFrom quote fuel c (text ++ more)
    else quotedFrom quote fuel c.next (text ++ [x])

def quotedScalar (quote : Char) (c : Cursor) : Option (List Char × Cursor) :=
  quotedFrom quote (c.rest.length + 1) c.next []

/-! ### Block scalars -/

/-- What becomes of the line ends at the end of a block: all go, one stays, all stay. -/
inductive Chomping where
  | strip | clip | keep
  deriving DecidableEq

structure BlockHeader where
  chomping : Chomping := .clip
  indent : Option Nat := none

def chomping? (c : Cursor) : Option Chomping :=
  match c.peek? with
  | some '+' => some .keep
  | some '-' => some .strip
  | _ => none

def indentDigit? (c : Cursor) : Option Nat :=
  (c.peek?).bind fun x => if x.isDigit then some (x.toNat - '0'.toNat) else none

def blockSigns (c : Cursor) : BlockHeader × Cursor :=
  match chomping? c, indentDigit? c with
  | some chomping, _ =>
    match indentDigit? c.next with
    | some n => ({ chomping, indent := some n }, c.advance 2)
    | none => ({ chomping }, c.next)
  | none, some n =>
    match chomping? c.next with
    | some chomping => ({ chomping, indent := some n }, c.advance 2)
    | none => ({ indent := some n }, c.next)
  | none, none => ({}, c)

def blockHeader (c : Cursor) : Option (BlockHeader × Cursor) := do
  let (header, c) := blockSigns c
  if header.indent = some 0 then none
  else if startsWithOrEnds (fun x => x == ' ' || isBreak x) c.rest then
    let c ← c.endLine?
    pure (header, c)
  else none

def blockIndentation : Nat → Cursor → List Char → Nat → List Char × Nat × Cursor
  | 0, c, breaks, column => (breaks, column, c)
  | fuel + 1, c, breaks, column =>
    if c.peek? = some ' ' then
      let c := c.next
      blockIndentation fuel c breaks (max column c.column)
    else match c.lineBreak? with
      | some (b, c) => blockIndentation fuel c (breaks ++ [b]) column
      | none => (breaks, column, c)

def blockBreaks (column : Nat) : Nat → Cursor → List Char → List Char × Cursor
  | 0, c, breaks => (breaks, c)
  | fuel + 1, c, breaks =>
    let c := c.skipSpacesTo column
    match c.lineBreak? with
    | some (b, c) => blockBreaks column fuel c (breaks ++ [b])
    | none => (breaks, c)

def atBlockLine (column : Nat) (c : Cursor) : Bool :=
  c.column == column && !c.rest.isEmpty

def startsIndented (c : Cursor) : Bool :=
  match c.peek? with
  | some x => isSpaceOrTab x
  | none => false

def blockLines (folded : Bool) (column : Nat) :
    Nat → Cursor → List Char → List Char → List Char × List Char × List Char × Cursor
  | 0, c, text, breaks => (text, [], breaks, c)
  | fuel + 1, c, text, breaks =>
    let (line, afterLine) := c.span fun x => !isBreak x
    let (ending, afterBreak) := match afterLine.lineBreak? with
      | some (b, c) => ([b], c)
      | none => ([], afterLine)
    let (more, after) := blockBreaks column (afterBreak.rest.length + 1) afterBreak []
    let text := text ++ breaks ++ line
    if atBlockLine column after then
      let joins := folded && ending == ['\n'] && !startsIndented c && !startsIndented after
      let joint := if !joins then ending else if more.isEmpty then [' '] else []
      blockLines folded column fuel after (text ++ joint) more
    else (text, ending, more, after)

def blockScalar (folded : Bool) (least : Nat) (c : Cursor) : Option (List Char × Cursor) := do
  let (header, c) ← blockHeader c.next
  let least := max 1 least
  let fuel := c.rest.length + 1
  let (breaks, column, c) := match header.indent with
    | none =>
      let (breaks, farthest, c) := blockIndentation fuel c [] 0
      (breaks, max least farthest, c)
    | some n =>
      let column := least + n - 1
      let (breaks, c) := blockBreaks column fuel c []
      (breaks, column, c)
  let (text, ending, more, c) :=
    if atBlockLine column c then blockLines folded column fuel c [] breaks else ([], [], breaks, c)
  pure (match header.chomping with
    | .strip => (text, c)
    | .clip => (text ++ ending, c)
    | .keep => (text ++ ending ++ more, c))

end ApiCatalog.Yaml
