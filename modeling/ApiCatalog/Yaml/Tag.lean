import ApiCatalog.Decimal.Floating
import ApiCatalog.Text.Lines
import ApiCatalog.Yaml.Token

namespace ApiCatalog.Yaml

inductive Tag where
  | null | bool | int | float | binary | timestamp | omap | pairs | set | str | seq | map
  | merge
  | value
  | nonspecific
  | unknown
  deriving DecidableEq

def commonTags : String := "tag:yaml.org,2002:"

namespace Tag

def common : List (String × Tag) :=
  [("null", null), ("bool", bool), ("int", int), ("float", float), ("binary", binary),
    ("timestamp", timestamp), ("omap", omap), ("pairs", pairs), ("set", set), ("str", str), ("seq", seq),
    ("map", map), ("merge", merge), ("value", value)]

def ofAddress (address : String) : Tag :=
  if address == "!" then nonspecific
  else match Text.dropPrefix? commonTags.toList address.toList with
    | some name => (common.lookup (String.ofList name)).getD unknown
    | none => unknown

end Tag

abbrev Handles := List (String × String)

def Handles.standard : Handles :=
  [("!", "!"), ("!!", commonTags)]

def TagText.resolve? (t : TagText) (handles : Handles) : Option Tag :=
  match t.handle with
  | none => some (Tag.ofAddress t.suffix)
  | some h => (handles.lookup h).map fun start => Tag.ofAddress (start ++ t.suffix)

/-! ### Texts that look like something else than text -/

def isDigitOrUnderscore (c : Char) : Bool :=
  c.isDigit || c == '_'

def unsigned : List Char → List Char
  | '-' :: cs => cs
  | '+' :: cs => cs
  | cs => cs

def isNullText (cs : List Char) : Bool :=
  ["", "~", "null", "Null", "NULL"].contains (String.ofList cs)

def trueWords : List String :=
  ["yes", "Yes", "YES", "true", "True", "TRUE", "on", "On", "ON"]

def falseWords : List String :=
  ["no", "No", "NO", "false", "False", "FALSE", "off", "Off", "OFF"]

def isBoolText (cs : List Char) : Bool :=
  (trueWords ++ falseWords).contains (String.ofList cs)

def isSixtieth : List Char → Bool
  | [a] => a.isDigit
  | [a, b] => '0' ≤ a && a ≤ '5' && b.isDigit
  | _ => false

def isSexagesimal (isFirst : Char → Bool) (cs : List Char) : Bool :=
  match Text.splitOn ':' cs with
  | (d :: ds) :: part :: parts =>
    isFirst d && ds.all isDigitOrUnderscore && (part :: parts).all isSixtieth
  | _ => false

def isNonzeroDigit (c : Char) : Bool :=
  c.isDigit && c != '0'

def isHexOrUnderscore (c : Char) : Bool :=
  Text.isDigitIn 16 c || c == '_'

def isIntText (cs : List Char) : Bool :=
  let digits := unsigned cs
  isSexagesimal isNonzeroDigit digits
    || match digits with
      | ['0'] => true
      | '0' :: 'b' :: c :: rest => (c :: rest).all fun x => x == '0' || x == '1' || x == '_'
      | '0' :: 'x' :: c :: rest => (c :: rest).all isHexOrUnderscore
      | '0' :: rest => rest.all fun x => ('0' ≤ x && x ≤ '7') || x == '_'
      | c :: rest => c.isDigit && rest.all isDigitOrUnderscore
      | [] => false

def isExponentText : List Char → Bool
  | [] => true
  | e :: sign :: d :: ds =>
    (e == 'e' || e == 'E') && (sign == '-' || sign == '+') && (d :: ds).all Char.isDigit
  | _ => false

def isFractionText (cs : List Char) : Bool :=
  isExponentText (cs.dropWhile isDigitOrUnderscore)

def isFloatText (cs : List Char) : Bool :=
  let text := String.ofList cs
  let (whole, rest) := (unsigned cs).span (· != '.')
  [".nan", ".NaN", ".NAN"].contains text
    || [".inf", ".Inf", ".INF"].contains (String.ofList (unsigned cs))
    || match whole, rest with
      | [], '.' :: d :: ds => cs.head? == some '.' && d.isDigit && isFractionText ds
      | d :: ds, '.' :: fraction =>
        (d.isDigit && ds.all isDigitOrUnderscore && isFractionText fraction)
          || (isSexagesimal Char.isDigit whole && fraction.all isDigitOrUnderscore)
      | _, _ => false

def oneOrTwoDigits (cs : List Char) : Bool :=
  (cs.length == 1 || cs.length == 2) && cs.all Char.isDigit

def exactDigits (n : Nat) (cs : List Char) : Bool :=
  cs.length == n && cs.all Char.isDigit

def isZoneText : List Char → Bool
  | [] => true
  | ['Z'] => true
  | sign :: rest =>
    (sign == '-' || sign == '+')
      && match Text.splitOn ':' rest with
        | [hours] => oneOrTwoDigits hours
        | [hours, minutes] => oneOrTwoDigits hours && exactDigits 2 minutes
        | _ => false

def isSecondsText (cs : List Char) : Bool :=
  let (seconds, rest) := cs.span Char.isDigit
  let rest := match rest with
    | '.' :: more => more.dropWhile Char.isDigit
    | _ => rest
  let zone := rest.dropWhile isSpaceOrTab
  exactDigits 2 seconds && isZoneText zone && (zone.length == rest.length || !zone.isEmpty)

def isTimeText (cs : List Char) : Bool :=
  match cs with
  | hour :: rest =>
    let (a, more) := (hour :: rest).span (· != ':')
    let (b, seconds) := (more.drop 1).span (· != ':')
    oneOrTwoDigits a && exactDigits 2 b && !seconds.isEmpty && isSecondsText (seconds.drop 1)
  | [] => false

def isTimePart : List Char → Bool
  | c :: rest =>
    if c == 'T' || c == 't' then isTimeText rest
    else isSpaceOrTab c && isTimeText (rest.dropWhile isSpaceOrTab)
  | [] => false

def isTimestampText (cs : List Char) : Bool :=
  let (year, rest) := cs.span (· != '-')
  let (month, rest) := (rest.drop 1).span (· != '-')
  let (day, time) := (rest.drop 1).span Char.isDigit
  exactDigits 4 year
    && ((exactDigits 2 month && exactDigits 2 day && time.isEmpty)
      || (oneOrTwoDigits month && oneOrTwoDigits day && isTimePart time))

def Tag.ofPlain (cs : List Char) : Tag :=
  if isBoolText cs then .bool
  else if isFloatText cs then .float
  else if isIntText cs then .int
  else if cs == ['<', '<'] then .merge
  else if isNullText cs then .null
  else if isTimestampText cs then .timestamp
  else if cs == ['='] then .value
  else .str

end ApiCatalog.Yaml
