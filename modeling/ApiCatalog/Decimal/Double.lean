/-!
Numbers of double precision. A positive one is a mantissa below `2 ^ 53` times a power of two from
`2 ^ -1074` on; a quotient is rounded to the nearest, and to the even of two that are equally near.
-/

namespace ApiCatalog.Decimal

def roundDiv (n d : Nat) : Nat :=
  let q := n / d
  let twice := 2 * (n % d)
  if twice < d then q
  else if d < twice then q + 1
  else if q % 2 = 0 then q
  else q + 1

def scaled (n d : Nat) (e : Int) : Nat × Nat :=
  match e with
  | .ofNat k => (n * Nat.pow 2 k, d)
  | .negSucc k => (n, d * Nat.pow 2 (k + 1))

inductive Double where
  | finite (mantissa : Nat) (exponent : Int)
  | infinite
  deriving DecidableEq

namespace Double

def minExponent : Int := -1074

/-- The exponent with which a positive quotient has a mantissa of fifty-three bits, or the least one. -/
def exponentFor (n d : Nat) : Int :=
  let guess := max minExponent ((Nat.log2 n : Int) - Nat.log2 d - 53)
  let (a, b) := scaled n d (-guess)
  if a / b < Nat.pow 2 53 then guess else guess + 1

/-- A mantissa that rounding has carried to `2 ^ 53` is halved; beyond the range there is infinity. -/
def normalized (m : Nat) (e : Int) : Double :=
  let (m, e) := if m = Nat.pow 2 53 then (Nat.pow 2 52, e + 1) else (m, e)
  if e > 971 then .infinite else .finite m e

def ofQuotient (n d : Nat) : Double :=
  if n = 0 then .finite 0 minExponent
  else
    let e := exponentFor n d
    let (a, b) := scaled n d (-e)
    normalized (roundDiv a b) e

end Double

end ApiCatalog.Decimal
