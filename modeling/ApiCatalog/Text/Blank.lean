namespace ApiCatalog.Text

def isBlank (c : Char) : Bool :=
  let n := c.toNat
  (9 ≤ n && n ≤ 13) || (0x1c ≤ n && n ≤ 0x20) || n = 0x85 || n = 0xa0 || n = 0x1680
    || (0x2000 ≤ n && n ≤ 0x200a) || n = 0x2028 || n = 0x2029 || n = 0x202f || n = 0x205f
    || n = 0x3000

def trimLeft (s : List Char) : List Char :=
  s.dropWhile isBlank

def dropRightWhile (p : Char → Bool) (s : List Char) : List Char :=
  (s.reverse.dropWhile p).reverse

def trimRight (s : List Char) : List Char :=
  dropRightWhile isBlank s

def trim (s : List Char) : List Char :=
  trimRight (trimLeft s)

def trimOf (p : Char → Bool) (s : List Char) : List Char :=
  dropRightWhile p (s.dropWhile p)

def isAllBlank (s : List Char) : Bool :=
  s.all isBlank

def trimmed (s : String) : String :=
  String.ofList (trim s.toList)

end ApiCatalog.Text
