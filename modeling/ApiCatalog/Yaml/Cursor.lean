namespace ApiCatalog.Yaml

def isBreak (c : Char) : Bool :=
  c == '\n' || c == '\u0085' || c == '\u2028' || c == '\u2029'

def isSpaceOrTab (c : Char) : Bool :=
  c == ' ' || c == '\t'

def isBlank (c : Char) : Bool :=
  isSpaceOrTab c || isBreak c

def isNameChar (c : Char) : Bool :=
  c.isAlphanum || c == '-' || c == '_'

def isAllowed (c : Char) : Bool :=
  c == '\t' || c == '\n' || c == '\r' || (' ' ≤ c && c ≤ '~') || c == '\u0085'
    || ('\u00a0' ≤ c && c.toNat != 0xFFFE && c.toNat != 0xFFFF)

def startsWithOrEnds (p : Char → Bool) : List Char → Bool
  | [] => true
  | c :: _ => p c

def isDocumentMark (sign : Char) : List Char → Bool
  | a :: b :: c :: rest => a == sign && b == sign && c == sign && startsWithOrEnds isBlank rest
  | _ => false

def isAnyDocumentMark (cs : List Char) : Bool :=
  isDocumentMark '-' cs || isDocumentMark '.' cs

structure Cursor where
  rest : List Char
  index : Nat := 0
  line : Nat := 0
  column : Nat := 0

namespace Cursor

def peek? (c : Cursor) : Option Char :=
  c.rest.head?

/-- Passes a character. A byte order mark takes no column. -/
def next (c : Cursor) : Cursor :=
  match c.rest with
  | [] => c
  | x :: rest =>
    let index := c.index + 1
    if isBreak x then { rest, index, line := c.line + 1, column := 0 }
    else { rest, index, line := c.line, column := if x == '\ufeff' then c.column else c.column + 1 }

def advance : Nat → Cursor → Cursor
  | 0, c => c
  | n + 1, c => advance n c.next

def span (p : Char → Bool) (c : Cursor) : List Char × Cursor :=
  let run := c.rest.takeWhile p
  (run, c.advance run.length)

def skip (p : Char → Bool) (c : Cursor) : Cursor :=
  (c.span p).2

def skipSpaces (c : Cursor) : Cursor :=
  c.skip (· == ' ')

def skipSpacesTo (column : Nat) (c : Cursor) : Cursor :=
  c.advance (min (column - c.column) (c.rest.takeWhile (· == ' ')).length)

def skipLine (c : Cursor) : Cursor :=
  c.skip fun x => !isBreak x

def skipComment (c : Cursor) : Cursor :=
  let c := c.skipSpaces
  if c.peek? = some '#' then c.skipLine else c

/-- Passes the end of a line. The separators stand for themselves, the others for a line feed. -/
def lineBreak? (c : Cursor) : Option (Char × Cursor) :=
  match c.rest with
  | x :: _ =>
    if x == '\n' || x == '\u0085' then some ('\n', c.next)
    else if isBreak x then some (x, c.next)
    else none
  | [] => none

def skipBreak (c : Cursor) : Cursor :=
  match c.lineBreak? with
  | some (_, c) => c
  | none => c

def endLine? (c : Cursor) : Option Cursor :=
  let c := c.skipComment
  if startsWithOrEnds isBreak c.rest then some c.skipBreak else none

end Cursor

end ApiCatalog.Yaml
