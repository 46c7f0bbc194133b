import ApiCatalog.Text.Blank
import ApiCatalog.Text.Lines

/-!
The pieces of component markup that matter to an analysis: comments, and the elements for scripts
and styles. Each reader answers for the start of a text, with the length that it takes.
-/

namespace ApiCatalog.Component

open Text

/-- Letters are compared without regard to case; some letters beyond ASCII count as
the `i` or the `s` that they fold to. -/
def foldCase (c : Char) : Char :=
  if c.toNat = 0x17f then 's'
  else if c.toNat = 0x130 || c.toNat = 0x131 then 'i'
  else c.toLower

def dropFolded? : List Char → List Char → Option (List Char)
  | [], s => some s
  | _ :: _, [] => none
  | p :: ps, c :: cs => if p = foldCase c then dropFolded? ps cs else none

def tagEnd? (s : List Char) : Option (List Char) :=
  match trimLeft s with
  | '>' :: rest => some rest
  | _ => none

def closingTag? (name : String) (s : List Char) : Option Nat := do
  let rest ← dropFolded? ('<' :: '/' :: name.toList) s
  let after ← tagEnd? rest
  pure (s.length - after.length)

/-! Attributes -/

def isAttributeChar (c : Char) : Bool :=
  !isBlank c && c != '=' && c != '>'

def isBareValueChar (c : Char) : Bool :=
  !isBlank c && c != '>'

def quotedValue? : List Char → Option (List Char)
  | q :: s => if q = '"' || q = '\'' then (cutAt? q s).map (·.2) else none
  | [] => none

def bareValue? (s : List Char) : Option (List Char) :=
  let rest := s.dropWhile isBareValueChar
  if rest.length < s.length then some rest else none

/-- The texts that may follow an attribute after its name, in order of preference. A quote at the start
of a value that does not work out as one is part of a bare value. -/
def afterValue (s : List Char) : List (List Char) :=
  match trimLeft s with
  | '=' :: rest =>
    let value := trimLeft rest
    (quotedValue? value).toList ++ (bareValue? value).toList ++ [s]
  | _ => [s]

structure OpeningTag where
  attributes : List Char
  length : Nat

/-- The first way to read attributes up to the end of a tag that is accepted, as many attributes as
there can be. What is judged is the text after the attributes and the text after the tag. Every
attribute takes a blank and a character at least. -/
def readAttributes {α : Type} (accept : List Char → List Char → Option α) :
    Nat → List Char → Option α
  | 0, _ => none
  | fuel + 1, s =>
    let here := (tagEnd? s).bind (accept s)
    let name := trimLeft s
    let afterName := name.dropWhile isAttributeChar
    if name.length < s.length && afterName.length < name.length then
      ((afterValue afterName).findSome? (readAttributes accept fuel)).or here
    else here

def readScriptTag {α : Type} (accept : OpeningTag → Option α) (s : List Char) : Option α := do
  let rest ← dropFolded? "<script".toList s
  readAttributes
    (fun tail after => accept
      { attributes := rest.take (rest.length - tail.length), length := s.length - after.length })
    (rest.length + 1) rest

def scriptTag? (s : List Char) : Option OpeningTag :=
  readScriptTag some s

/-! Search -/

def findFrom {α : Type} (reader : List Char → Option α) : Nat → List Char → Option (Nat × α)
  | offset, [] => (reader []).map (offset, ·)
  | offset, c :: cs =>
    match reader (c :: cs) with
    | some a => some (offset, a)
    | none => findFrom reader (offset + 1) cs

def findClosing? (name : String) (s : List Char) : Option (Nat × Nat) :=
  (findFrom (closingTag? name) 0 s).map fun (start, length) => (start, start + length)

/-! Whole elements -/

def comment? (s : List Char) : Option Nat := do
  let rest ← dropPrefix? "<!--".toList s
  let (_, after) ← cutAtText? "-->".toList rest
  pure (s.length - after.length)

/-- A script element, read so that it is closed if there is a way to. -/
def scriptElement? (s : List Char) : Option Nat :=
  readScriptTag
    (fun tag => (findClosing? "script" (s.drop tag.length)).map fun (_, finish) => tag.length + finish) s

def styleTag? (s : List Char) : Option (List Char) := do
  let rest ← dropFolded? "<style".toList s
  match rest with
  | '>' :: after => pure after
  | c :: more => if isBlank c then (cutAt? '>' more).map (·.2) else none
  | [] => none

def styleElement? (s : List Char) : Option Nat := do
  let rest ← styleTag? s
  let (_, finish) ← findClosing? "style" rest
  pure (s.length - rest.length + finish)

/-! Blanking -/

def blankChar (c : Char) : Char :=
  if c = '\n' then c else ' '

/-- A text whose next `n` characters, and all elements after them that a reader finds, are blank. -/
def blankAfter (element? : List Char → Option Nat) : Nat → List Char → List Char
  | _, [] => []
  | n + 1, c :: cs => blankChar c :: blankAfter element? n cs
  | 0, c :: cs =>
    match element? (c :: cs) with
    | some (n + 1) => blankChar c :: blankAfter element? n cs
    | _ => c :: blankAfter element? 0 cs

def blankOut (element? : List Char → Option Nat) (s : List Char) : List Char :=
  blankAfter element? 0 s

theorem length_blankAfter (element? : List Char → Option Nat) (n : Nat) (s : List Char) :
    (blankAfter element? n s).length = s.length := by
  fun_induction blankAfter element? n s <;> simp_all

end ApiCatalog.Component
