import ApiCatalog.Syntax.LineEnd

/-!
The rules through which the grammar is recursive, and the parts that all of its layers share. A
layer is written against a `Grammar`, which parses smaller texts by rule.
-/

namespace ApiCatalog.Syntax

open ApiCatalog.Syntax.Parser

structure Context where
  breakable : Bool := true
  allowsIn : Bool := true
  /-- An arrow function may have a return type, as everywhere but between `?` and `:`. -/
  allowsArrowType : Bool := true

def Context.enclosed : Context where
  breakable := false

inductive Rule where
  | expression (c : Context)
  | operand (c : Context)
  | type (breakable : Bool)
  | unionType (breakable : Bool)
  | statement
  | block
  | pattern

abbrev Grammar := Rule → Parser Node

def reservedWords : List String :=
  ["break", "case", "catch", "class", "const", "continue", "debugger", "default", "delete", "do",
    "else", "enum", "extends", "finally", "for", "function", "if", "import", "in",
    "instanceof", "new", "null", "return", "super", "switch", "this", "throw", "true", "try",
    "typeof", "var", "void", "while", "with"]

def anyName (kind : Kind) : Parser Node := do
  let n := Lexeme.name (← rest)
  guard (n != 0)
  leaf kind n

def identifier : Parser Node := do
  guard (!reservedWords.contains (← peekWord))
  anyName .identifier

def typeName : Parser Node := do
  guard (!reservedWords.contains (← peekWord))
  anyName .typeName

def stringLiteral : Parser Node := do
  match Lexeme.string? (← rest) with
  | some n => leaf .stringLiteral n
  | none => misfit

def numberLiteral : Parser Node := do
  match Lexeme.number (← rest) with
  | 0 => misfit
  | n => leaf .numberLiteral n

def privateName : Parser Node := do
  match ← rest with
  | '#' :: cs =>
    match Lexeme.name cs with
    | 0 => misfit
    | n => leaf .privateName (n + 1)
  | _ => misfit

def computedName (g : Grammar) : Parser Node :=
  node .computedName do
    mark "["
    child (g (.expression .enclosed))
    mark "]"

def memberName (g : Grammar) : Parser Node :=
  anyName .propertyName <|> privateName <|> stringLiteral <|> numberLiteral <|> computedName g

def startsMemberName (c : Char) : Bool :=
  Lexeme.isNameStart c || c.isDigit || c = '"' || c = '\'' || c = '[' || c = '#' || c = '\\'

def startsMethodName (c : Char) : Bool :=
  startsMemberName c || c = '*'

def startsParameter (c : Char) : Bool :=
  startsMemberName c || c = '{' || c = '.'

/-- What can be modified: how it starts, and whether a line end may stand before it. In a list of members a
word before a line end is the name of a member. -/
structure Modified where
  starts : Char → Bool
  acrossLines : Bool

def modifierOf (m : Modified) (kind : Kind) (w : String) : Parser Unit :=
  child do
    let n ← keyword w
    if !m.acrossLines then
      if ← looksLike (lineEnd false false) then fail
    guard ((← peekAfterGap).any m.starts)
    pure (.mk none kind n.text n.start n.lastLine [])

def modifier (m : Modified) (w : String) : Parser Unit :=
  modifierOf m (.token w) w

def accessibility (m : Modified) : Parser Unit :=
  modifierOf m .accessibility "public"
    <|> modifierOf m .accessibility "private"
    <|> modifierOf m .accessibility "protected"

def overrideMark (m : Modified) : Parser Unit :=
  modifierOf m .overrideMark "override"

def templateChunk : List Char → Nat
  | [] => 0
  | '\\' :: _ :: cs => templateChunk cs + 2
  | '`' :: _ => 0
  | '$' :: '{' :: _ => 0
  | _ :: cs => templateChunk cs + 1

def template (kind : Kind) (hole : Parser Node) : Parser Node :=
  node kind do
    push (← symbol "`")
    many do
      let n := templateChunk (← rest)
      advance n
      optional do
        push (← node .templateSubstitution do
          push (← symbol "$\x7b")
          child hole
          closeBrace)
    push (← symbol "`")

def decorator (g : Grammar) : Parser Node :=
  node .decorator do
    mark "@"
    let start ← here
    let first ←
      node .parenthesized (do
        mark "("
        child (g (.expression .enclosed))
        mark ")") <|> identifier
    let path ← iterate
      (fun left => extend start .member left do
        mark "."
        child (anyName .propertyName <|> privateName)) first
    push path
    optional do
      child (node .arguments do
        mark "("
        commaSeparated (child (g (.expression .enclosed)))
        mark ")")

end ApiCatalog.Syntax
