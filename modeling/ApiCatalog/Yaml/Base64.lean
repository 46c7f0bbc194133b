namespace ApiCatalog.Yaml

def sextet? (c : Char) : Option Nat :=
  if 'A' ≤ c && c ≤ 'Z' then some (c.toNat - 'A'.toNat)
  else if 'a' ≤ c && c ≤ 'z' then some (c.toNat - 'a'.toNat + 26)
  else if c.isDigit then some (c.toNat - '0'.toNat + 52)
  else if c == '+' then some 62
  else if c == '/' then some 63
  else none

structure Group where
  sextets : List Nat := []
  pads : Nat := 0

def Group.bytes (g : Group) : List Nat :=
  match g.sextets with
  | [a, b] => [(4 * a + b / 16) % 256]
  | [a, b, c] => [(4 * a + b / 16) % 256, (16 * b + c / 4) % 256]
  | [a, b, c, d] => [(4 * a + b / 16) % 256, (16 * b + c / 4) % 256, (64 * c + d) % 256]
  | _ => []

def base64? (g : Group) : List Char → Option (List Nat)
  | [] => if g.sextets.isEmpty then some [] else none
  | c :: rest =>
    if c == '=' then
      let pads := if g.sextets.length ≥ 2 then g.pads + 1 else g.pads
      if g.sextets.length ≥ 2 && g.sextets.length + pads ≥ 4 then some g.bytes
      else base64? { g with pads } rest
    else match sextet? c with
      | none => base64? g rest
      | some s =>
        let g : Group := { sextets := g.sextets ++ [s] }
        if g.sextets.length == 4 then (base64? {} rest).map (g.bytes ++ ·) else base64? g rest

end ApiCatalog.Yaml
