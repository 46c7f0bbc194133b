import ApiCatalog.Syntax.Statement

/-!
Whole scripts. A text that does not parse is read again with the token at which it failed set aside, as long
as that token is a number or closes a bracket; if that does not help, all of it is one error.
-/

namespace ApiCatalog.Syntax

open ApiCatalog.Syntax.Parser

def ruleBody (g : Grammar) : Rule → Parser Node
  | .expression c => expressionRule g c
  | .operand c => operandExpression g c (classExpression g)
  | .type breakable => typeExpression g breakable
  | .unionType breakable => unionType g breakable
  | .statement => statementRule g
  | .block => blockRule g
  | .pattern => bindingPattern g

def grammar : Nat → Grammar
  | 0, _ => fail
  | depth + 1, r => ruleBody (grammar depth) r

def hashBang : Parser Node := do
  match ← rest with
  | '#' :: '!' :: cs => leaf .hashBang ((cs.takeWhile fun c => !Lexeme.isLineEnd c).length + 2)
  | _ => misfit

def programRule (g : Grammar) : Parser Node := do
  skipSpace
  node .program do
    optional (child hashBang)
    many (child (g .statement))
    gap
    guard (← rest).isEmpty

/-- No rule is entered more than eight times at one character. -/
def depthFor (text : List Char) : Nat :=
  8 * (text.length + 2)

def unreadable (text : List Char) : Node :=
  let start : Cursor := { rest := text }
  .mk none .program (String.ofList text) start.position 1
    [.mk none .error (String.ofList text) start.position 1 []]

def mayBeStray (c : Char) : Bool :=
  c = ')' || c = ']' || c = '}' || c.isDigit

/-- Reads a script with some tokens set aside, and then with one more as often as that leads further. -/
def parseWithout (text : List Char) : Nat → List Nat → Node
  | 0, _ => unreadable text
  | fuel + 1, strays =>
    match programRule (grammar (depthFor text)) { cursor := { rest := text }, strays } with
    | .done n _ => n
    | .stuck furthest =>
      if strays.all (· < furthest) && (text[furthest]?).any mayBeStray then
        parseWithout text fuel (furthest :: strays)
      else unreadable text

def parseScript (source : String) : Node :=
  parseWithout source.toList (source.length + 1) []

abbrev ScriptParser := String → Node

end ApiCatalog.Syntax
