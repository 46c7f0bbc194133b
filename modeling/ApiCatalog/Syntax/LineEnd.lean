import ApiCatalog.Syntax.Parser

/-!
Ends of statements without a semicolon. Whether a statement may end at a place depends only on the
text that follows: the end of the text or a closing brace, or a line end after which the next
line does not go on with what stands before it.
-/

namespace ApiCatalog.Syntax

open ApiCatalog.Syntax.Parser

/-- Skips white space and comments; `none` at a slash that starts no comment. -/
def skipAsides : Nat → List Char → Option (List Char)
  | 0, text => some text
  | fuel + 1, text =>
    let after := text.dropWhile Lexeme.isSpace
    match after with
    | '/' :: _ =>
      match Lexeme.comment? after with
      | some n => skipAsides fuel (after.drop n)
      | none => none
    | _ => some after

def startsWithRelation : List Char → Bool
  | 'i' :: 'n' :: cs =>
    match cs with
    | [] => true
    | c :: _ =>
      if !isLetter c then true
      else "stanceof".toList.isPrefixOf cs && !((cs.drop 8).head?.any isLetter)
  | _ => false
where
  isLetter (c : Char) : Bool :=
    c.isAlpha || (0x80 ≤ c.toNat && Lexeme.isNamePart c)

/-- Whether a line that starts with this text is a statement of its own, after text to which
`operator` tells whether an operator could be applied. -/
def startsAnew (operator signature : Bool) (text : List Char) : Bool :=
  match text with
  | '{' :: _ => !signature
  | '(' :: _ | '[' :: _ => !operator
  | '+' :: cs => cs.head? == some '+'
  | '-' :: cs => cs.head? == some '-'
  | '!' :: cs => cs.head? != some '='
  | c :: _ => !"`,.;*%><=?^|&/:".toList.contains c && !startsWithRelation text
  | [] => true

/-- Whether a statement may end here. `operator` tells whether an operator could follow, and
`signature` whether a body could. -/
def mayEnd (operator signature : Bool) : List Char → Bool
  | [] => true
  | c :: cs =>
    if c = '}' then
      if (cs.dropWhile Lexeme.isSpace).head? == some ':' then operator else true
    else if c = '\n' || c = '\u2028' || c = '\u2029' then
      match skipAsides (cs.length + 1) cs with
      | some text => startsAnew operator signature text
      | none => false
    else if Lexeme.isSpace c then mayEnd operator signature cs
    else false

def lineEnd (operator signature : Bool) : Parser Unit := do
  many do
    if mayEnd operator signature (← rest) then fail
    skipSpace
    aside false
  if !mayEnd operator signature (← rest) then fail

def semicolon (operator : Bool) : Parser Unit :=
  lineEnd operator false <|> mark ";"

def gapBefore (breakable operator : Bool) : Parser Unit := do
  if breakable then
    if ← looksLike (lineEnd operator false) then fail
  gapWith false

end ApiCatalog.Syntax
