import ApiCatalog.Yaml.Base64
import ApiCatalog.Yaml.Node

namespace ApiCatalog.Yaml

inductive Value where
  | null
  | bool (b : Bool)
  | int (n : Int)
  | float (x : Decimal.Floating)
  | text (s : String)
  | bytes (bs : List Nat)
  | moment (text : String)
  | sequence (items : List Value)
  | mapping (pairs : List (Value × Value))
  | set (members : List Value)
  | pair (key value : Value)
  | recursive

namespace Value

def isKey : Value → Bool
  | sequence _ | mapping _ | set _ | recursive => false
  | _ => true

def isText (key : String) : Value → Bool
  | text s => s == key
  | _ => false

def get? (key : String) (pairs : List (Value × Value)) : Option Value :=
  (pairs.reverse.find? fun p => p.1.isText key).map Prod.snd

end Value

/-! ### Numbers -/

def natIn? (base : Nat) (cs : List Char) : Option Nat :=
  if !cs.isEmpty && cs.all (Text.isDigitIn base) then some (Text.numberIn base cs) else none

def sexagesimal (parts : List Nat) : Nat :=
  parts.foldl (fun n part => 60 * n + part) 0

def natOfText? (digits : List Char) : Option Nat :=
  match digits with
  | ['0'] => some 0
  | '0' :: 'b' :: rest => natIn? 2 rest
  | '0' :: 'x' :: rest => natIn? 16 rest
  | '0' :: rest => natIn? 8 rest
  | _ => (Text.splitOn ':' digits).mapM (natIn? 10) |>.map sexagesimal

def isNegative (cs : List Char) : Bool :=
  cs.head? == some '-'

def intOfText? (text : List Char) : Option Int :=
  let cs := text.filter (· != '_')
  (natOfText? (unsigned cs)).map fun (n : Nat) => if isNegative cs then -(n : Int) else n

def magnitude? (cs : List Char) : Option Decimal.Double :=
  (Decimal.Digits.ofText? cs).map Decimal.Digits.nearest

/-- The sum of parts in base sixty, from the last one on; every step is rounded. -/
def sexagesimalSum (parts : List Decimal.Double) : Decimal.Double :=
  (parts.reverse.foldl
    (fun (sum, base) part => (Decimal.Double.add sum (part.scale base), 60 * base))
    (Decimal.Double.finite 0 Decimal.Double.minExponent, 1)).1

def floatOfText? (text : List Char) : Option Decimal.Floating :=
  let cs := (text.filter (· != '_')).map Char.toLower
  let digits := unsigned cs
  let number (x : Decimal.Double) : Decimal.Floating := .number (isNegative cs) x
  match String.ofList digits with
  | ".inf" | "inf" | "infinity" => some (number .infinite)
  | ".nan" | "nan" => some .nan
  | _ => (Text.splitOn ':' digits).mapM magnitude? |>.map fun parts => number (sexagesimalSum parts)

def boolOfText? (text : List Char) : Option Bool :=
  let word := String.ofList (text.map Char.toLower)
  if trueWords.contains word then some true
  else if falseWords.contains word then some false
  else none

/-! ### Values of nodes -/

namespace Node

def tag : Node → Tag
  | scalar t _ => t
  | sequence t _ => t
  | mapping t _ => t
  | enclosing => .unknown

def text? : Node → Option String
  | scalar _ text => some text
  | mapping _ pairs => ofPairs pairs
  | _ => none
where
  ofPairs : List (Node × Node) → Option String
    | [] => none
    | (key, value) :: rest => if key.tag = .value then text? value else ofPairs rest

/-- The pairs of a mapping with those that it merges: the merged ones first, so that its own count, and of several
mappings in a sequence the first one last. -/
def pairs? : Node → Option (List (Node × Node))
  | mapping _ ps => do
    let merged ← mergedPairs ps
    pure (merged ++ ps.filter fun p => p.1.tag ≠ .merge)
  | _ => none
where
  mergedPairs : List (Node × Node) → Option (List (Node × Node))
    | [] => some []
    | (key, value) :: rest => do
      let here ← if key.tag = .merge then merged value else some []
      pure (here ++ (← mergedPairs rest))
  merged : Node → Option (List (Node × Node))
    | sequence _ items => ofItems items
    | n => pairs? n
  ofItems : List Node → Option (List (Node × Node))
    | [] => some []
    | n :: rest => do
      let here ← pairs? n
      pure ((← ofItems rest) ++ here)

def scalarValue? (t : Tag) (text : String) : Option Value :=
  let cs := text.toList
  match t with
  | .null => some .null
  | .bool => (boolOfText? cs).map .bool
  | .int => (intOfText? cs).map .int
  | .float => (floatOfText? cs).map .float
  | .str => some (.text text)
  | .timestamp => some (.moment text)
  | .binary => if cs.all (·.toNat < 128) then (base64? {} cs).map .bytes else none
  | _ => none

def keyNode : Node → Node
  | scalar .value text => .scalar .str text
  | n => n

def onlyPair? : Node → Option (Node × Node)
  | mapping _ [p] => some p
  | _ => none

def value? : Nat → Node → Option Value
  | 0, _ => none
  | _ + 1, enclosing => some .recursive
  | fuel + 1, n =>
    let fields : Option (List (Value × Value)) := do
      let pairs ← n.pairs?
      pairs.mapM fun (key, value) => do
        let k ← value? fuel (keyNode key)
        if k.isKey then pure (k, ← value? fuel value) else none
    let entries : Option Value :=
      match n with
      | sequence _ items => do
        let ps ← items.mapM fun item => do
          let (key, value) ← onlyPair? item
          pure (Value.pair (← value? fuel key) (← value? fuel value))
        pure (.sequence ps)
      | _ => none
    match n.tag, n with
    | .seq, sequence _ items => (items.mapM (value? fuel)).map .sequence
    | .map, _ => fields.map .mapping
    | .set, _ => fields.map fun ps => .set (ps.map Prod.fst)
    | .omap, _ => entries
    | .pairs, _ => entries
    | t, _ => n.text?.bind (scalarValue? t)

def depth : Node → Nat
  | sequence _ items => depths items + 1
  | mapping _ pairs => pairDepths pairs + 1
  | _ => 1
where
  depths : List Node → Nat
    | [] => 0
    | n :: rest => max (depth n) (depths rest)
  pairDepths : List (Node × Node) → Nat
    | [] => 0
    | (key, value) :: rest => max (max (depth key) (depth value)) (pairDepths rest)

end Node

def Value.ofText? (text : String) : Option Value := do
  let tokens ← Token.ofText? text.toList
  match ← Node.ofTokens? tokens with
  | none => pure .null
  | some n => n.value? (n.depth + 1)

end ApiCatalog.Yaml
