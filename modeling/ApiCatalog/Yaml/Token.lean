import ApiCatalog.Yaml.Scalar

namespace ApiCatalog.Yaml

structure TagText where
  handle : Option String
  suffix : String
  deriving DecidableEq

inductive Directive where
  | version (major : Nat)
  | tag (handle expansion : String)
  | unknown
  deriving DecidableEq

/-- Blocks are delimited by tokens of their own, which indentation gives rise to. -/
inductive Token where
  | directive (d : Directive)
  | documentStart | documentEnd
  | blockSequence | blockMapping | blockEnd
  | openBracket | closeBracket | openBrace | closeBrace | comma
  | entry | key | value
  | reference (name : String)
  | anchor (name : String)
  | tag (t : TagText)
  | scalar (text : String) (plain : Bool)
  deriving DecidableEq

def atSpaceOrBreak (c : Cursor) : Bool :=
  startsWithOrEnds (fun x => x == ' ' || isBreak x) c.rest

/-! ### Anchors -/

def anchorName (c : Cursor) : Option (String × Cursor) :=
  let (name, c) := c.next.span isNameChar
  let ends := startsWithOrEnds (fun x => isBlank x || "?:,]\x7d%@`".toList.contains x) c.rest
  if !name.isEmpty && ends then some (String.ofList name, c) else none

/-! ### Tags -/

def isUriChar (c : Char) : Bool :=
  c.isAlphanum || "-;/?:@&=+$,_.!~*'()[]%".toList.contains c

def uriBytes : Nat → Cursor → List Nat → Option (List Nat × Cursor)
  | 0, _, _ => none
  | fuel + 1, c, bytes =>
    match c.rest with
    | '%' :: a :: b :: _ => do
      let n ← hexNumber? [a, b]
      uriBytes fuel (c.advance 3) (bytes ++ [n])
    | '%' :: _ => none
    | _ => some (bytes, c)

def textOfBytes? (bytes : List Nat) : Option (List Char) :=
  (String.fromUTF8? (ByteArray.mk (bytes.map Nat.toUInt8).toArray)).map String.toList

def uriFrom : Nat → Cursor → List Char → Option (String × Cursor)
  | 0, _, _ => none
  | fuel + 1, c, text =>
    match c.peek? with
    | some x =>
      if x == '%' then do
        let (bytes, c) ← uriBytes (c.rest.length + 1) c []
        uriFrom fuel c (text ++ (← textOfBytes? bytes))
      else if isUriChar x then uriFrom fuel c.next (text ++ [x])
      else some (String.ofList text, c)
    | none => some (String.ofList text, c)

def uri (c : Cursor) : Option (String × Cursor) :=
  match c.peek? with
  | some x => if isUriChar x then uriFrom (c.rest.length + 1) c [] else none
  | none => none

def tagHandle (c : Cursor) : Option (String × Cursor) :=
  if c.peek? != some '!' then none
  else if c.next.peek? = some ' ' then some ("!", c.next)
  else
    let (name, c) := c.next.span isNameChar
    if c.peek? = some '!' then some (String.ofList ('!' :: name ++ ['!']), c.next) else none

def tagText (c : Cursor) : Option (TagText × Cursor) := do
  let (t, c) ← match c.next.rest with
    | '<' :: _ => do
      let (suffix, c) ← uri (c.advance 2)
      if c.peek? = some '>' then pure ((⟨none, suffix⟩ : TagText), c.next) else none
    | rest =>
      if startsWithOrEnds isBlank rest then pure ((⟨none, "!"⟩ : TagText), c.next)
      else
        let word := rest.takeWhile fun x => x != ' ' && !isBreak x
        let (handle, c) ← if word.contains '!' then tagHandle c else pure ("!", c.next)
        let (suffix, c) ← uri c
        pure ((⟨some handle, suffix⟩ : TagText), c)
  if atSpaceOrBreak c then pure (t, c) else none

/-! ### Directives -/

def number (c : Cursor) : Option (Nat × Cursor) :=
  let (digits, c) := c.span Char.isDigit
  if digits.isEmpty then none
  else some (Text.numberIn 10 digits, c)

def versionDirective (c : Cursor) : Option (Directive × Cursor) := do
  let (major, c) ← number c.skipSpaces
  if c.peek? != some '.' then none
  else
    let (_, c) ← number c.next
    if atSpaceOrBreak c then pure (.version major, c) else none

def tagDirective (c : Cursor) : Option (Directive × Cursor) := do
  let (handle, c) ← tagHandle c.skipSpaces
  if c.peek? != some ' ' then none
  else
    let (expansion, c) ← uri c.skipSpaces
    if atSpaceOrBreak c then pure (.tag handle expansion, c) else none

def directive (c : Cursor) : Option (Directive × Cursor) := do
  let (name, c) := c.next.span isNameChar
  if name.isEmpty || !atSpaceOrBreak c then none
  else
    let (d, c) ← match String.ofList name with
      | "YAML" => versionDirective c
      | "TAG" => tagDirective c
      | _ => pure (Directive.unknown, c.skipLine)
    let c ← c.endLine?
    pure (d, c)

end ApiCatalog.Yaml
