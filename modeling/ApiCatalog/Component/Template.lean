import ApiCatalog.Component.Markup

namespace ApiCatalog.Component

def templateText (content : List Char) : List Char :=
  blankOut scriptElement? (blankOut styleElement? (blankOut comment? content))

structure OpenExpression where
  start : Nat
  inner : Nat := 0
  quote : Option Char := none
  escaped : Bool := false

def isQuote (c : Char) : Bool :=
  c = '\'' || c = '"' || c = '`'

def OpenExpression.step (e : OpenExpression) (c : Char) : Option OpenExpression :=
  if e.escaped then some { e with escaped := false }
  else
    match e.quote with
    | some q =>
      if c = '\\' then some { e with escaped := true }
      else if c = q then some { e with quote := none }
      else some e
    | none =>
      if isQuote c then some { e with quote := some c }
      else if c = '{' then some { e with inner := e.inner + 1 }
      else if c = '}' then
        match e.inner with
        | 0 => none
        | n + 1 => some { e with inner := n }
      else some e

def openAtEnd : Option OpenExpression → Nat → List Char → Option Nat
  | e, _, [] => e.map OpenExpression.start
  | some e, offset, c :: cs => openAtEnd (e.step c) (offset + 1) cs
  | none, offset, c :: cs =>
    openAtEnd (if c = '{' then some { start := offset } else none) (offset + 1) cs

def unclosedExpression? (content : List Char) : Option Nat :=
  openAtEnd none 0 (templateText content)

end ApiCatalog.Component
