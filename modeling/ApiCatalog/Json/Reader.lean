import ApiCatalog.Json.Basic
import ApiCatalog.Text.Digit
import ApiCatalog.Text.Lines

namespace ApiCatalog.Json

open Text

inductive Token where
  | openBrace | closeBrace | openBracket | closeBracket | colon | comma
  | string (s : String)
  | atom (j : Json)

def isSpace (c : Char) : Bool :=
  c = ' ' || c = '\t' || c = '\n' || c = '\r'

def wordLiterals : List (String × Json) :=
  [("null", .null), ("true", .bool true), ("false", .bool false), ("NaN", .number "NaN"),
    ("Infinity", .number "Infinity"), ("-Infinity", .number "-Infinity")]

def wordLiteral? (s : List Char) : Option (Json × List Char) :=
  wordLiterals.findSome? fun (w, j) => (dropPrefix? w.toList s).map (j, ·)

/-! Numbers -/

def wholeLength : List Char → Nat
  | '0' :: _ => 1
  | s => (s.takeWhile Char.isDigit).length

def fractionLength : List Char → Nat
  | '.' :: s =>
    match (s.takeWhile Char.isDigit).length with
    | 0 => 0
    | n => n + 1
  | _ => 0

def exponentLength : List Char → Nat
  | e :: s =>
    if e = 'e' || e = 'E' then
      let sign := match s with
        | c :: _ => if c = '+' || c = '-' then 1 else 0
        | [] => 0
      match ((s.drop sign).takeWhile Char.isDigit).length with
      | 0 => 0
      | n => n + sign + 1
    else 0
  | [] => 0

def numberLength (s : List Char) : Nat :=
  let sign := if s.head? = some '-' then 1 else 0
  match wholeLength (s.drop sign) with
  | 0 => 0
  | whole =>
    let n := sign + whole
    let n := n + fractionLength (s.drop n)
    n + exponentLength (s.drop n)

def number? (s : List Char) : Option (Json × List Char) :=
  match numberLength s with
  | 0 => none
  | n => some (.number (String.ofList (s.take n)), s.drop n)

/-! Strings -/

def simpleEscape? : Char → Option Char
  | '"' => some '"'
  | '\\' => some '\\'
  | '/' => some '/'
  | 'b' => some (Char.ofNat 8)
  | 'f' => some (Char.ofNat 12)
  | 'n' => some '\n'
  | 'r' => some '\r'
  | 't' => some '\t'
  | _ => none

def codeUnit? : List Char → Option (Nat × List Char)
  | a :: b :: c :: d :: rest =>
    if [a, b, c, d].all (isDigitIn 16) then some (numberIn 16 [a, b, c, d], rest) else none
  | _ => none

def isHighSurrogate (n : Nat) : Bool :=
  0xd800 ≤ n && n < 0xdc00

def isLowSurrogate (n : Nat) : Bool :=
  0xdc00 ≤ n && n < 0xe000

/-- The character of a code unit; half of a pair alone stands for no character. -/
def ofCodeUnit (n : Nat) : Char :=
  if isHighSurrogate n || isLowSurrogate n then '�' else Char.ofNat n

def unicodeEscape? (s : List Char) : Option (Char × List Char) := do
  let (high, rest) ← codeUnit? s
  match rest with
  | '\\' :: 'u' :: more =>
    match codeUnit? more with
    | some (low, after) =>
      if isHighSurrogate high && isLowSurrogate low then
        some (Char.ofNat (0x10000 + (high - 0xd800) * 0x400 + (low - 0xdc00)), after)
      else some (ofCodeUnit high, rest)
    | none => some (ofCodeUnit high, rest)
  | _ => some (ofCodeUnit high, rest)

def stringTail? : Nat → List Char → Option (List Char × List Char)
  | 0, _ => none
  | fuel + 1, s =>
    match s with
    | [] => none
    | '"' :: rest => some ([], rest)
    | '\\' :: 'u' :: rest => do
      let (c, rest) ← unicodeEscape? rest
      let (cs, after) ← stringTail? fuel rest
      pure (c :: cs, after)
    | '\\' :: e :: rest => do
      let c ← simpleEscape? e
      let (cs, after) ← stringTail? fuel rest
      pure (c :: cs, after)
    | c :: rest =>
      if c = '\\' || c.toNat < 0x20 then none
      else do
        let (cs, after) ← stringTail? fuel rest
        pure (c :: cs, after)

/-! Tokens -/

def token? (c : Char) (s : List Char) : Option (Token × List Char) :=
  match c with
  | '{' => some (.openBrace, s)
  | '}' => some (.closeBrace, s)
  | '[' => some (.openBracket, s)
  | ']' => some (.closeBracket, s)
  | ':' => some (.colon, s)
  | ',' => some (.comma, s)
  | '"' => (stringTail? (s.length + 1) s).map fun (t, rest) => (.string (String.ofList t), rest)
  | _ =>
    ((wordLiteral? (c :: s)).or (number? (c :: s))).map fun (j, rest) => (.atom j, rest)

def tokens? : Nat → List Char → Option (List Token)
  | 0, _ => none
  | fuel + 1, s =>
    match s.dropWhile isSpace with
    | [] => some []
    | c :: cs => do
      let (t, rest) ← token? c cs
      pure (t :: (← tokens? fuel rest))

/-! Values -/

mutual

def value? : Nat → List Token → Option (Json × List Token)
  | 0, _ => none
  | fuel + 1, ts =>
    match ts with
    | .atom j :: rest => some (j, rest)
    | .string s :: rest => some (.string s, rest)
    | .openBracket :: .closeBracket :: rest => some (.array [], rest)
    | .openBracket :: rest => (items? fuel rest).map fun (js, rest) => (.array js, rest)
    | .openBrace :: .closeBrace :: rest => some (.object [], rest)
    | .openBrace :: rest => (fields? fuel rest).map fun (fs, rest) => (.object fs, rest)
    | _ => none

def items? : Nat → List Token → Option (List Json × List Token)
  | 0, _ => none
  | fuel + 1, ts => do
    let (j, rest) ← value? fuel ts
    match rest with
    | .closeBracket :: rest => some ([j], rest)
    | .comma :: rest => do
      let (js, rest) ← items? fuel rest
      pure (j :: js, rest)
    | _ => none

def fields? : Nat → List Token → Option (List (String × Json) × List Token)
  | 0, _ => none
  | fuel + 1, ts =>
    match ts with
    | .string key :: .colon :: rest => do
      let (j, rest) ← value? fuel rest
      match rest with
      | .closeBrace :: rest => some ([(key, j)], rest)
      | .comma :: rest => do
        let (fs, rest) ← fields? fuel rest
        pure ((key, j) :: fs, rest)
      | _ => none
    | _ => none

end

def parse? (text : String) : Option Json := do
  let ts ← tokens? (text.length + 1) text.toList
  match ← value? (2 * ts.length + 1) ts with
  | (j, []) => some j
  | _ => none

end ApiCatalog.Json
