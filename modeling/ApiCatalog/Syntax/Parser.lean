import ApiCatalog.Syntax.Cursor
import ApiCatalog.Syntax.Lexeme

/-!
Parsers that build syntax trees. A parser reads from a cursor and collects the children of the node
under construction; what stands between two tokens (comments, and tokens known to be
misplaced) becomes a child of the innermost node that goes on after it. A failed parser reports the
furthest place at which a token did not fit.
-/

namespace ApiCatalog.Syntax

structure State where
  cursor : Cursor
  pieces : List Node := []
  furthest : Nat := 0
  strays : List Nat := []

inductive Outcome (α : Type) where
  | done (value : α) (state : State)
  | stuck (furthest : Nat)

def Parser (α : Type) : Type :=
  State → Outcome α

namespace Parser

variable {α β : Type}

instance : Monad Parser where
  pure a := fun s => .done a s
  bind p f := fun s =>
    match p s with
    | .done a t => f a t
    | .stuck n => .stuck n

def fail : Parser α :=
  fun s => .stuck s.furthest

def misfit : Parser α :=
  fun s => .stuck (max s.furthest s.cursor.offset)

def orElse (p : Parser α) (q : Unit → Parser α) : Parser α :=
  fun s =>
    match p s with
    | .done a t => .done a t
    | .stuck n => q () { s with furthest := max s.furthest n }

instance : OrElse (Parser α) where
  orElse := orElse

def guard (b : Bool) : Parser Unit :=
  if b then pure () else misfit

def here : Parser Cursor :=
  fun s => .done s.cursor s

def rest : Parser (List Char) :=
  fun s => .done s.cursor.rest s

def looksLike (p : Parser α) : Parser Bool :=
  fun s =>
    match p s with
    | .done _ _ => .done true s
    | .stuck _ => .done false s

def optional (p : Parser α) : Parser Unit :=
  (do let _ ← p; pure ()) <|> pure ()

def found (p : Parser α) : Parser Bool :=
  (do let _ ← p; pure true) <|> pure false

def iterateFrom (step : α → Parser α) : Nat → α → Parser α
  | 0, a => pure a
  | n + 1, a => fun s =>
    match step a s with
    | .done b t =>
      if s.cursor.offset < t.cursor.offset then iterateFrom step n b t else .done b t
    | .stuck m => .done a { s with furthest := max s.furthest m }

/-- Repeats a step on its own result until it fails or reads nothing. -/
def iterate (step : α → Parser α) (a : α) : Parser α :=
  fun s => iterateFrom step (s.cursor.rest.length + 1) a s

def many (p : Parser Unit) : Parser Unit :=
  iterate (fun _ => p) ()

def advance (n : Nat) : Parser Unit :=
  fun s => .done () { s with cursor := s.cursor.skip n }

def push (n : Node) : Parser Unit :=
  fun s => .done () { s with pieces := n :: s.pieces }

def leaf (kind : Kind) (n : Nat) : Parser Node :=
  fun s =>
    let stop := s.cursor.skip n
    .done (.mk none kind (s.cursor.textUpTo stop) s.cursor.position stop.line [])
      { s with cursor := stop }

def nodeFrom (start : Cursor) (first : List Node) (parts : Parser Kind) : Parser Node :=
  fun s =>
    match parts { s with pieces := first } with
    | .done kind t =>
      .done
        (.mk none kind (start.textUpTo t.cursor) start.position t.cursor.line t.pieces.reverse)
        { t with pieces := s.pieces }
    | .stuck n => .stuck n

def nodeOf (parts : Parser Kind) : Parser Node :=
  fun s => nodeFrom s.cursor [] parts s

def node (kind : Kind) (parts : Parser Unit) : Parser Node :=
  nodeOf do
    parts
    pure kind

def extend (start : Cursor) (kind : Kind) (first : Node) (parts : Parser Unit) : Parser Node :=
  nodeFrom start [first] do
    parts
    pure kind

def skipSpace : Parser Unit :=
  fun s => .done () { s with cursor := s.cursor.skip (s.cursor.rest.takeWhile Lexeme.isSpace).length }

def aside (markup : Bool) : Parser Unit :=
  fun s =>
    let text := s.cursor.rest
    if s.strays.contains s.cursor.offset then
      (do push (← leaf .error (max 1 (Lexeme.number text)))) s
    else
      match Lexeme.comment? text, if markup then Lexeme.markupComment? text else none with
      | some n, _ => (do push (← leaf .comment n)) s
      | none, some n => (do push (← leaf .markupComment n)) s
      | none, none => .stuck s.furthest

/-- Skips white space and collects what stands between two tokens. -/
def gapWith (markup : Bool) : Parser Unit := do
  skipSpace
  many do
    aside markup
    skipSpace

def gap : Parser Unit :=
  gapWith true

def child (p : Parser Node) : Parser Unit := do
  gap
  push (← p)

def childAs (r : Role) (p : Parser Node) : Parser Unit := do
  gap
  push ((← p).withRole r)

def keyword (w : String) : Parser Node := do
  let text ← rest
  let n := w.toList.length
  guard (w.toList.isPrefixOf text && Lexeme.name text == n)
  leaf (.token w) n

def symbol (m : String) : Parser Node := do
  guard (m.toList.isPrefixOf (← rest))
  leaf (.token m) m.toList.length

def operator (m : String) : Parser Node := do
  guard (Lexeme.operator? (← rest) == some m)
  leaf (.token m) m.toList.length

def word (w : String) : Parser Unit :=
  child (keyword w)

def mark (m : String) : Parser Unit :=
  child (symbol m)

def openBrace : Parser Unit :=
  mark "\x7b"

def closeBrace : Parser Unit :=
  mark "\x7d"

def peekWord : Parser String := do
  let text ← rest
  pure (String.ofList (text.take (Lexeme.name text)))

def peekAfterGap : Parser (Option Char) :=
  fun s =>
    match gap s with
    | .done _ t => .done t.cursor.rest.head? s
    | .stuck _ => .done none s

def commaSeparated (item : Parser Unit) : Parser Unit := do
  optional do
    item
    many do
      mark ","
      item
    optional (mark ",")

end Parser

end ApiCatalog.Syntax
