import ApiCatalog.Text.Printable

namespace ApiCatalog.Text

def hexDigits (n value : Nat) : List Char :=
  (List.range n).reverse.map fun i => Nat.digitChar (value / Nat.pow 16 i % 16)

def quotedChar (quote c : Char) : List Char :=
  if c = quote || c = '\\' then ['\\', c]
  else if c = '\n' then ['\\', 'n']
  else if c = '\r' then ['\\', 'r']
  else if c = '\t' then ['\\', 't']
  else if isPrintable c then [c]
  else if c.toNat < 0x100 then '\\' :: 'x' :: hexDigits 2 c.toNat
  else if c.toNat < 0x10000 then '\\' :: 'u' :: hexDigits 4 c.toNat
  else '\\' :: 'U' :: hexDigits 8 c.toNat

def quotedList (s : List Char) : List Char :=
  let quote := if s.contains '\'' && !s.contains '"' then '"' else '\''
  quote :: (s.flatMap (quotedChar quote) ++ [quote])

def quoted (s : String) : String :=
  String.ofList (quotedList s.toList)

def quotedAll (ss : List String) : String :=
  "[" ++ ", ".intercalate (ss.map quoted) ++ "]"

end ApiCatalog.Text
