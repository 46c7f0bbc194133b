import ApiCatalog.Pattern.Basic

/-!
Reading a regular expression. The text is cut into signs, and the signs are put together with the
groups that are still open kept on a stack. Flags, references to groups, possessive repetitions and
what looks behind are refused.
-/

namespace ApiCatalog.Pattern

open Text

inductive GroupKind where
  | plain
  | ahead (expected : Bool)

inductive Sign where
  | atom (p : Pattern)
  | bar
  | openGroup (k : GroupKind)
  | closeGroup
  | repetition (least : Nat) (most : Option Nat)
  | nothing

def controlEscape? : Char → Option Nat
  | 'a' => some 7
  | 'f' => some 12
  | 'n' => some 10
  | 'r' => some 13
  | 't' => some 9
  | 'v' => some 11
  | _ => none

def classEscape? : Char → Option CharTest
  | 'd' => some (.digit true)
  | 'D' => some (.digit false)
  | 's' => some (.blank true)
  | 'S' => some (.blank false)
  | 'w' => some (.word true)
  | 'W' => some (.word false)
  | _ => none

def anchorEscape? : Char → Option Anchor
  | 'A' => some .start
  | 'Z' => some .finish
  | 'b' => some (.wordEdge true)
  | 'B' => some (.wordEdge false)
  | _ => none

def hexCode? (n : Nat) (s : List Char) : Option (Nat × List Char) :=
  let digits := s.take n
  if digits.length = n && digits.all (isDigitIn 16) then some (numberIn 16 digits, s.drop n) else none

def octalCode (n : Nat) (s : List Char) : Nat × List Char :=
  let digits := (s.take n).takeWhile (isDigitIn 8)
  (numberIn 8 digits, s.drop digits.length)

def charEscape? (c : Char) (rest : List Char) : Option (Nat × List Char) :=
  if let some code := controlEscape? c then some (code, rest)
  else if c = 'x' then hexCode? 2 rest
  else if c = 'u' then hexCode? 4 rest
  else if c = 'U' then (hexCode? 8 rest).filter fun (code, _) => code ≤ 0x10ffff
  else if c.isAlphanum then none
  else some (c.toNat, rest)

def escape? : List Char → Option (Pattern × List Char)
  | [] => none
  | c :: rest =>
    let one : Nat × List Char → Pattern × List Char := fun (code, rest) => (.char (.single code), rest)
    if let some t := classEscape? c then some (.char { tests := [t] }, rest)
    else if let some a := anchorEscape? c then some (.anchor a, rest)
    else if c = '0' then some (one (octalCode 3 (c :: rest)))
    else if c.isDigit then
      let (code, after) := octalCode 3 (c :: rest)
      if after.length + 2 = rest.length && code ≤ 0o377 then some (one (code, after)) else none
    else (charEscape? c rest).map one

def classMember? : List Char → Option ((CharTest ⊕ Nat) × List Char)
  | [] => none
  | '\\' :: [] => none
  | '\\' :: c :: rest =>
    if let some t := classEscape? c then some (.inl t, rest)
    else if c = 'b' then some (.inr 8, rest)
    else if isDigitIn 8 c then
      let (code, after) := octalCode 3 (c :: rest)
      if code ≤ 0o377 then some (.inr code, after) else none
    else (charEscape? c rest).map fun (code, rest) => (.inr code, rest)
  | c :: rest => some (.inr c.toNat, rest)

def classMembers? : Nat → Bool → List Char → Option (List CharTest × List Char)
  | 0, _, _ => none
  | fuel + 1, first, s =>
    match s with
    | ']' :: rest =>
      if first then step? fuel s else some ([], rest)
    | _ => step? fuel s
where
  step? (fuel : Nat) (s : List Char) : Option (List CharTest × List Char) := do
    let (low, rest) ← classMember? s
    let single : CharTest := match low with
      | .inl t => t
      | .inr code => .range code code
    match rest with
    | '-' :: ']' :: after => some ([single, .range '-'.toNat '-'.toNat], after)
    | '-' :: after =>
      let (high, after) ← classMember? after
      match low, high with
      | .inr l, .inr h =>
        if l ≤ h then
          let (more, after) ← classMembers? fuel false after
          some (.range l h :: more, after)
        else none
      | _, _ => none
    | _ =>
      let (more, after) ← classMembers? fuel false rest
      some (single :: more, after)

def charClass? (s : List Char) : Option (CharClass × List Char) :=
  match s with
  | '^' :: rest =>
    (classMembers? s.length true rest).map fun (tests, rest) => ({ tests, negated := true }, rest)
  | _ => (classMembers? (s.length + 1) true s).map fun (tests, rest) => ({ tests }, rest)

/-- A reluctant repetition finds another match than a greedy one, and finds one where that does. -/
def dropReluctant : List Char → List Char
  | '?' :: s => s
  | s => s

def bounds? (s : List Char) : Option ((Nat × Option Nat) × List Char) :=
  let low := s.takeWhile Char.isDigit
  let afterLow := s.drop low.length
  match afterLow with
  | '}' :: rest =>
    if low.isEmpty then none else some ((numberIn 10 low, some (numberIn 10 low)), rest)
  | ',' :: rest =>
    let high := rest.takeWhile Char.isDigit
    match rest.drop high.length with
    | '}' :: after =>
      some ((numberIn 10 low, if high.isEmpty then none else some (numberIn 10 high)), after)
    | _ => none
  | _ => none

def groupName? (s : List Char) : Option (List Char) := do
  let name := s.takeWhile isWordChar
  match name, s.drop name.length with
  | c :: _, '>' :: rest => if isDecimalDigit c then none else some rest
  | _, _ => none

def groupSign? : List Char → Option (Sign × List Char)
  | '?' :: ':' :: s => some (.openGroup .plain, s)
  | '?' :: '=' :: s => some (.openGroup (.ahead true), s)
  | '?' :: '!' :: s => some (.openGroup (.ahead false), s)
  | '?' :: '#' :: s =>
    match s.dropWhile (· != ')') with
    | _ :: s => some (.nothing, s)
    | [] => none
  | '?' :: 'P' :: '<' :: s => (groupName? s).map fun s => (.openGroup .plain, s)
  | '?' :: _ => none
  | s => some (.openGroup .plain, s)

def sign? (c : Char) (s : List Char) : Option (Sign × List Char) :=
  match c with
  | '.' => some (.atom (.char .any), s)
  | '^' => some (.atom (.anchor .start), s)
  | '$' => some (.atom (.anchor .lastLineEnd), s)
  | '|' => some (.bar, s)
  | '(' => groupSign? s
  | ')' => some (.closeGroup, s)
  | '*' => some (.repetition 0 none, dropReluctant s)
  | '+' => some (.repetition 1 none, dropReluctant s)
  | '?' => some (.repetition 0 (some 1), dropReluctant s)
  | '{' =>
    match bounds? s with
    | some ((low, high), s) =>
      if high.any (· < low) then none else some (.repetition low high, dropReluctant s)
    | none => some (.atom (.char (.single c.toNat)), s)
  | '[' => (charClass? s).map fun (k, s) => (.atom (.char k), s)
  | '\\' => (escape? s).map fun (p, s) => (.atom p, s)
  | _ => some (.atom (.char (.single c.toNat)), s)

structure OpenGroup where
  kind : GroupKind := .plain
  alternatives : List Pattern := []
  parts : List Pattern := []

namespace OpenGroup

def lastAlternative (g : OpenGroup) : Pattern :=
  g.parts.foldl (fun after p => .sequence p after) .empty

def body (g : OpenGroup) : Pattern :=
  g.alternatives.foldl (fun after p => .choice p after) g.lastAlternative

def closed (g : OpenGroup) : Pattern :=
  match g.kind with
  | .plain => .group g.body
  | .ahead e => .ahead g.body e

def push (g : OpenGroup) (p : Pattern) : OpenGroup :=
  { g with parts := p :: g.parts }

def repeatLast? (g : OpenGroup) (least : Nat) (most : Option Nat) : Option OpenGroup :=
  match g.parts with
  | [] | .anchor _ :: _ | .repeated .. :: _ => none
  | p :: ps => some { g with parts := .repeated p least most :: ps }

end OpenGroup

def addSign? (g : OpenGroup) (outer : List OpenGroup) : Sign → Option (OpenGroup × List OpenGroup)
  | .nothing => some (g, outer)
  | .atom p => some (g.push p, outer)
  | .bar => some ({ g with alternatives := g.lastAlternative :: g.alternatives, parts := [] }, outer)
  | .openGroup k => some ({ kind := k }, g :: outer)
  | .closeGroup =>
    match outer with
    | [] => none
    | o :: outer => some (o.push g.closed, outer)
  | .repetition least most => (g.repeatLast? least most).map (·, outer)

def readSigns? : Nat → OpenGroup → List OpenGroup → List Char → Option Pattern
  | _, g, [], [] => some g.body
  | _, _, _ :: _, [] => none
  | 0, _, _, _ :: _ => none
  | fuel + 1, g, outer, c :: s => do
    let (sign, rest) ← sign? c s
    let (g, outer) ← addSign? g outer sign
    readSigns? fuel g outer rest

def ofString? (s : String) : Option Pattern :=
  readSigns? s.length {} [] s.toList

def search? (text : String) : Option (String → Bool) :=
  (ofString? text).map fun p s => p.occursIn s.toList

end ApiCatalog.Pattern
