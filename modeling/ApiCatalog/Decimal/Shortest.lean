import ApiCatalog.Decimal.Double

/-!
The shortest decimal digits that are read back as the same number. Digits are tried on finer and finer grids
of powers of ten; of the two neighbours of the number on a grid, the nearer one that reads back is taken,
and the even one if both are equally near.
-/

namespace ApiCatalog.Decimal

structure Digits where
  coefficient : Nat
  exponent : Int
  deriving DecidableEq

namespace Digits

def quotient (x : Digits) : Nat × Nat :=
  match x.exponent with
  | .ofNat k => (x.coefficient * Nat.pow 10 k, 1)
  | .negSucc k => (x.coefficient, Nat.pow 10 (k + 1))

def toDouble (x : Digits) : Double :=
  let (n, d) := x.quotient
  .ofQuotient n d

end Digits

/-- How many digits a quotient has before the point; below one tenth the count is negative. -/
def pointPlace (n d : Nat) : Int :=
  if n / d = 0 then below 400 n d 0 else (Nat.toDigits 10 (n / d)).length
where
  below : Nat → Nat → Nat → Int → Int
    | 0, _, _, place => place
    | fuel + 1, n, d, place => if 10 * n < d then below fuel (10 * n) d (place - 1) else place

def floorAt (n d : Nat) : Int → Nat
  | .ofNat k => n / (d * Nat.pow 10 k)
  | .negSucc k => n * Nat.pow 10 (k + 1) / d

def distances (n d : Nat) (low : Nat) (e : Int) : Nat × Nat :=
  match e with
  | .ofNat k => (n - low * Nat.pow 10 k * d, (low + 1) * Nat.pow 10 k * d - n)
  | .negSucc k => (n * Nat.pow 10 (k + 1) - low * d, (low + 1) * d - n * Nat.pow 10 (k + 1))

def onGrid? (m : Nat) (e : Int) (grid : Int) : Option Digits :=
  let (n, d) := scaled m 1 e
  let low : Digits := ⟨floorAt n d grid, grid⟩
  let high : Digits := ⟨low.coefficient + 1, grid⟩
  let hits (x : Digits) : Bool := x.coefficient != 0 && x.toDouble = .finite m e
  let (below, above) := distances n d low.coefficient grid
  let prefersLow := below < above || (below = above && low.coefficient % 2 = 0)
  if hits low && (prefersLow || !hits high) then some low
  else if hits high then some high
  else none

/-- The first grid that has such digits. Seventeen digits always do. -/
def shortest (m : Nat) (e : Int) : Digits :=
  let (n, d) := scaled m 1 e
  let place := pointPlace n d
  ((List.range 17).findSome? fun (i : Nat) => onGrid? m e (place - i - 1)).getD ⟨m, 0⟩

def trimZeros : Nat → Digits → Digits
  | 0, x => x
  | fuel + 1, x =>
    if x.coefficient != 0 && x.coefficient % 10 = 0 then
      trimZeros fuel ⟨x.coefficient / 10, x.exponent + 1⟩
    else x

structure Format where
  minPlace : Int
  maxPlace : Int

def standard : Format where
  minPlace := -3
  maxPlace := 16

def digitText (n : Nat) : String :=
  String.ofList (Nat.toDigits 10 n)

def zeroText (n : Int) : String :=
  String.ofList (List.replicate n.toNat '0')

def exponentText (e : Int) : String :=
  let digits := digitText e.natAbs
  (if e < 0 then "e-" else "e+") ++ (if digits.length < 2 then "0" ++ digits else digits)

def Format.write (f : Format) (x : Digits) : String :=
  let digits := digitText x.coefficient
  let place : Int := digits.length + x.exponent
  if x.coefficient = 0 then "0.0"
  else if place < f.minPlace || f.maxPlace < place then
    let cs := digits.toList
    String.ofList (cs.take 1) ++ (if cs.length > 1 then "." ++ String.ofList (cs.drop 1) else "")
      ++ exponentText (place - 1)
  else if place ≤ 0 then "0." ++ zeroText (-place) ++ digits
  else if x.exponent < 0 then
    let cs := digits.toList
    String.ofList (cs.take place.toNat) ++ "." ++ String.ofList (cs.drop place.toNat)
  else digits ++ zeroText x.exponent ++ ".0"

def Double.text : Double → String
  | .infinite => "inf"
  | .finite 0 _ => "0.0"
  | .finite m e => standard.write (trimZeros 400 (shortest m e))

end ApiCatalog.Decimal
