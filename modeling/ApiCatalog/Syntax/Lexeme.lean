/-!
The words of a script: which characters make up names, numbers, strings, regular expressions and
comments. Each reader takes the unread text and gives the length of the lexeme it starts with.
-/

namespace ApiCatalog.Syntax.Lexeme

/-- White space between tokens, line ends included: the Unicode white space, the zero width space,
the word joiner and the byte order mark. -/
def isSpace (c : Char) : Bool :=
  let n := c.toNat
  (9 ≤ n && n ≤ 13) || n = 0x20 || n = 0x85 || n = 0xa0 || n = 0x1680 || (0x2000 ≤ n && n ≤ 0x200b)
    || n = 0x2028 || n = 0x2029 || n = 0x202f || n = 0x205f || n = 0x2060 || n = 0x3000 || n = 0xfeff

def isLineEnd (c : Char) : Bool :=
  c = '\n' || c = '\r' || c = '\u2028' || c = '\u2029'

/-- Every character may stand in a name unless it is a control character, white space, or one of
the ASCII marks that the grammar uses. -/
def isNamePart (c : Char) : Bool :=
  c.isAlphanum || c = '_' || c = '$' || (0x7f ≤ c.toNat && !isSpace c)

def isNameStart (c : Char) : Bool :=
  isNamePart c && !c.isDigit

def isHexDigit (c : Char) : Bool :=
  c.isDigit || ('a' ≤ c && c ≤ 'f') || ('A' ≤ c && c ≤ 'F')

def nameEscape : List Char → Nat
  | '\\' :: 'u' :: '{' :: rest =>
    let digits := rest.takeWhile isHexDigit
    match digits, rest.drop digits.length with
    | _ :: _, '}' :: _ => digits.length + 4
    | _, _ => 0
  | '\\' :: 'u' :: a :: b :: c :: d :: _ =>
    if isHexDigit a && isHexDigit b && isHexDigit c && isHexDigit d then 6 else 0
  | _ => 0

def nameTail : Nat → List Char → Nat
  | 0, _ => 0
  | _ + 1, [] => 0
  | fuel + 1, c :: cs =>
    if isNamePart c then nameTail fuel cs + 1
    else
      match nameEscape (c :: cs) with
      | 0 => 0
      | n => nameTail fuel (cs.drop (n - 1)) + n

def name : List Char → Nat
  | [] => 0
  | c :: cs => if c.isDigit then 0 else nameTail (cs.length + 1) (c :: cs)

def blockCommentTail : List Char → Option Nat
  | [] => none
  | '*' :: '/' :: _ => some 2
  | _ :: cs => (blockCommentTail cs).map (· + 1)

def comment? : List Char → Option Nat
  | '/' :: '/' :: cs => some ((cs.takeWhile fun c => !isLineEnd c).length + 2)
  | '/' :: '*' :: cs => (blockCommentTail cs).map (· + 2)
  | _ => none

def markupComment? : List Char → Option Nat
  | '<' :: '!' :: '-' :: '-' :: cs => some ((cs.takeWhile (· != '\n')).length + 4)
  | '-' :: '-' :: '>' :: cs => some ((cs.takeWhile (· != '\n')).length + 3)
  | _ => none

def stringTail (quote : Char) : List Char → Option Nat
  | [] => none
  | '\\' :: _ :: cs => (stringTail quote cs).map (· + 2)
  | c :: cs =>
    if c = quote then some 1
    else if c = '\n' || c = '\r' then none
    else (stringTail quote cs).map (· + 1)

def string? : List Char → Option Nat
  | c :: cs => if c = '"' || c = '\'' then (stringTail c cs).map (· + 1) else none
  | [] => none

def regexTail (inClass : Bool) : List Char → Option Nat
  | [] => none
  | '\\' :: c :: cs => if isLineEnd c then none else (regexTail inClass cs).map (· + 2)
  | c :: cs =>
    if isLineEnd c then none
    else if c = '/' && !inClass then some (1 + (cs.takeWhile Char.isLower).length)
    else
      let inside := if c = '[' then true else if c = ']' then false else inClass
      (regexTail inside cs).map (· + 1)

def regex? : List Char → Option Nat
  | '/' :: '*' :: _ => none
  | '/' :: '/' :: _ => none
  | '/' :: cs => (regexTail false cs).map (· + 1)
  | _ => none

def digitRun (isOne : Char → Bool) (text : List Char) : Nat :=
  (text.takeWhile fun c => isOne c || c = '_').length

def exponent : List Char → Nat
  | e :: cs =>
    if e = 'e' || e = 'E' then
      match cs with
      | s :: ds =>
        if s = '+' || s = '-' then
          match digitRun Char.isDigit ds with
          | 0 => 0
          | n => n + 2
        else
          match digitRun Char.isDigit cs with
          | 0 => 0
          | n => n + 1
      | [] => 0
    else 0
  | [] => 0

def fraction : List Char → Nat
  | '.' :: cs => digitRun Char.isDigit cs + 1
  | _ => 0

def bigMark (text : List Char) : Nat :=
  match text with
  | 'n' :: _ => 1
  | _ => 0

def radix? : Char → Option (Char → Bool)
  | 'x' | 'X' => some isHexDigit
  | 'o' | 'O' => some fun c => '0' ≤ c && c ≤ '7'
  | 'b' | 'B' => some fun c => c = '0' || c = '1'
  | _ => none

def decimal (text : List Char) : Nat :=
  let whole := digitRun Char.isDigit text
  let big := bigMark (text.drop whole)
  if big = 1 then whole + 1
  else
    let withFraction := whole + fraction (text.drop whole)
    withFraction + exponent (text.drop withFraction)

def number : List Char → Nat
  | '0' :: r :: cs =>
    match radix? r with
    | some isOne =>
      let n := digitRun isOne cs
      if n = 0 then 1 else n + 2 + bigMark (cs.drop n)
    | none => decimal ('0' :: r :: cs)
  | '.' :: d :: cs => if d.isDigit then decimal ('.' :: d :: cs) else 0
  | c :: cs => if c.isDigit then decimal (c :: cs) else 0
  | [] => 0

def operators : List String :=
  [">>>=", "...", "===", "!==", "**=", "<<=", ">>=", ">>>", "&&=", "||=", "??=", "=>", "==", "!=",
    "<=", ">=", "&&", "||", "??", "?.", "**", "<<", ">>", "++", "--", "+=", "-=", "*=", "/=", "%=",
    "&=", "|=", "^=", "+", "-", "*", "/", "%", "<", ">", "=", "&", "|", "^", "!", "~", "?"]

def operator? (text : List Char) : Option String :=
  operators.find? fun o => o.toList.isPrefixOf text

end ApiCatalog.Syntax.Lexeme
