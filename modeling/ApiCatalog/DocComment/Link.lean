import ApiCatalog.Text.Blank
import ApiCatalog.Text.Lines
import ApiCatalog.Text.WordChar

/-!
Cross-reference tags. A tag in braces becomes a link when it points to a web address and inline
code otherwise; a tag that is not closed on its line, or that points nowhere, is shown as it is,
as inline code.
-/

namespace ApiCatalog.DocComment

open Text

def linkWords : List (List Char) :=
  ["link".toList, "linkcode".toList, "linkplain".toList, "see".toList]

def linkTag? : List Char → Option (List Char × List Char)
  | '{' :: '@' :: s =>
    linkWords.findSome? fun w =>
      (dropPrefix? w s).bind fun after =>
        if endsWord after then some ('{' :: '@' :: w, after) else none
  | _ => none

/-- A web address without blanks; one line end may follow it. -/
def isUrl (s : List Char) : Bool :=
  match dropPrefix? "http://".toList s <|> dropPrefix? "https://".toList s with
  | some address =>
    let body := if address.getLast? = some '\n' then address.dropLast else address
    !body.isEmpty && body.all fun c => !isBlank c
  | none => false

def inCode (s : List Char) : List Char :=
  '`' :: (s ++ ['`'])

def renderReference (target : List Char) (label : Option (List Char)) : List Char :=
  if isUrl target then
    match label with
    | some l => '[' :: (l ++ ']' :: '(' :: (target ++ [')']))
    | none => target
  else inCode (label.getD target)

def nonempty? : List Char → Option (List Char)
  | [] => none
  | s => some s

def splitTarget (inner : List Char) : List Char × Option (List Char) :=
  match cutAt? '|' inner with
  | some (target, label) => (trim target, nonempty? (trim label))
  | none =>
    let target := inner.takeWhile fun c => !isBlank c
    (target, nonempty? (trim (inner.drop target.length)))

def renderTag (opening inner : List Char) : List Char :=
  match trim inner with
  | [] => inCode (opening ++ inner ++ ['}'])
  | s => renderReference (splitTarget s).1 (splitTarget s).2

def closeTag? (s : List Char) : Option (List Char × List Char) :=
  let line := s.takeWhile (· != '\n')
  (cutAt? '}' line).map fun (inner, after) => (inner, after ++ s.drop line.length)

theorem length_of_dropPrefix? {p s r : List Char} (h : dropPrefix? p s = some r) :
    r.length ≤ s.length := by
  induction p generalizing s with
  | nil => simp_all [dropPrefix?]
  | cons a p ih =>
    cases s with
    | nil => simp [dropPrefix?] at h
    | cons c cs =>
      simp only [dropPrefix?] at h
      split at h
      · exact Nat.le_succ_of_le (ih h)
      · simp at h

theorem length_of_cutAt? {c : Char} {s a b : List Char} (h : cutAt? c s = some (a, b)) :
    a.length + b.length + 1 = s.length := by
  induction s generalizing a b with
  | nil => simp [cutAt?] at h
  | cons x xs ih =>
    simp only [cutAt?] at h
    split at h
    · simp_all
    · obtain ⟨⟨u, v⟩, hu, he⟩ := Option.map_eq_some_iff.1 h
      simp only [Prod.mk.injEq] at he
      have := ih hu
      obtain ⟨rfl, rfl⟩ := he
      simp only [List.length_cons]
      omega

theorem length_of_linkTag? {s o r : List Char} (h : linkTag? s = some (o, r)) :
    r.length < s.length := by
  unfold linkTag? at h
  split at h
  · obtain ⟨w, _, hw⟩ := List.exists_of_findSome?_eq_some h
    obtain ⟨a, ha, hb⟩ := Option.bind_eq_some_iff.1 hw
    have := length_of_dropPrefix? ha
    split at hb
    · simp only [Option.some.injEq, Prod.mk.injEq] at hb
      obtain ⟨-, rfl⟩ := hb
      simp only [List.length_cons]
      omega
    · simp at hb
  · simp at h

theorem length_of_closeTag? {s i r : List Char} (h : closeTag? s = some (i, r)) :
    r.length < s.length := by
  unfold closeTag? at h
  obtain ⟨⟨u, v⟩, hu, he⟩ := Option.map_eq_some_iff.1 h
  simp only [Prod.mk.injEq] at he
  obtain ⟨-, rfl⟩ := he
  have h1 := length_of_cutAt? hu
  have h2 : (s.takeWhile (· != '\n')).length ≤ s.length := List.takeWhile_sublist _ |>.length_le
  simp only [List.length_append, List.length_drop]
  omega

def convertTags (s : List Char) : List Char :=
  match h : linkTag? s with
  | some (opening, after) =>
    match hc : closeTag? after with
    | some (inner, rest) =>
      have := length_of_linkTag? h
      have := length_of_closeTag? hc
      renderTag opening inner ++ convertTags rest
    | none =>
      have := length_of_linkTag? h
      have : (after.dropWhile (· != '\n')).length ≤ after.length := List.dropWhile_sublist _ |>.length_le
      inCode (trimRight (opening ++ after.takeWhile (· != '\n')))
        ++ convertTags (after.dropWhile (· != '\n'))
  | none =>
    match s with
    | [] => []
    | c :: cs => c :: convertTags cs
termination_by s.length

def convertLinks (s : List Char) : List Char :=
  if isAllBlank s then [] else convertTags s

/-- The markup for a see-also entry: a tag, or a reference and a description after a space. -/
def seeMarkup (content : List Char) : List Char :=
  match trim content with
  | [] => []
  | s =>
    if (linkTag? s).isSome then convertLinks s
    else
      let reference := (cutAt ' ' s).1
      let description := (cutAt ' ' s).2
      let rendered := if isUrl reference then reference else inCode reference
      if description.isEmpty then rendered else rendered ++ ' ' :: convertLinks description

end ApiCatalog.DocComment
