import ApiCatalog.Decimal.Shortest
import ApiCatalog.Text.Digit

namespace ApiCatalog.Decimal

inductive Floating where
  | number (negative : Bool) (magnitude : Double)
  | nan
  deriving DecidableEq

def Floating.text : Floating → String
  | .nan => "nan"
  | .number negative magnitude => (if negative then "-" else "") ++ magnitude.text

def Digits.nearest (x : Digits) : Double :=
  let place : Int := (digitText x.coefficient).length + x.exponent
  if x.coefficient = 0 || place < -330 then .finite 0 Double.minExponent
  else if 330 < place then .infinite
  else x.toDouble

def exponent? : List Char → Option Int
  | [] => some 0
  | c :: rest =>
    let (negative, digits) := match rest with
      | '-' :: digits => (true, digits)
      | '+' :: digits => (false, digits)
      | digits => (false, digits)
    if (c == 'e' || c == 'E') && !digits.isEmpty && digits.all Char.isDigit then
      let n : Int := Text.numberIn 10 digits
      some (if negative then -n else n)
    else none

def Digits.ofText? (cs : List Char) : Option Digits := do
  let (whole, rest) := cs.span Char.isDigit
  let (fraction, rest) := match rest with
    | '.' :: more => more.span Char.isDigit
    | _ => ([], rest)
  if whole.isEmpty && fraction.isEmpty then none
  else pure ⟨Text.numberIn 10 (whole ++ fraction), (← exponent? rest) - fraction.length⟩

namespace Double

def quotient? : Double → Option (Nat × Nat)
  | .finite m e => some (scaled m 1 e)
  | .infinite => none

def add (x y : Double) : Double :=
  match x.quotient?, y.quotient? with
  | some (a, b), some (c, d) => .ofQuotient (a * d + c * b) (b * d)
  | _, _ => .infinite

def scale (x : Double) (n : Nat) : Double :=
  match x.quotient? with
  | some (a, b) => .ofQuotient (a * n) b
  | none => .infinite

end Double

end ApiCatalog.Decimal
