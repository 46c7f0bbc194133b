import ApiCatalog.Component.Markup
import ApiCatalog.Text.WordChar

namespace ApiCatalog.Component

open Text

structure Script where
  attributes : String
  content : String
  offset : Nat
  deriving DecidableEq

def startsModuleMark (s : List Char) : Bool :=
  match dropPrefix? "module".toList s with
  | some [] => true
  | some (c :: _) => isBlank c || c = '/'
  | none =>
    match (dropPrefix? "context".toList s).map trimLeft with
    | some ('=' :: rest) =>
      let value := match trimLeft rest with
        | q :: cs => if q = '"' || q = '\'' then cs else q :: cs
        | [] => []
      (dropPrefix? "module".toList value).any endsWord
    | _ => false

def marksModule : Bool → List Char → Bool
  | afterBlank, [] => afterBlank && startsModuleMark []
  | afterBlank, c :: cs => (afterBlank && startsModuleMark (c :: cs)) || marksModule (isBlank c) cs

def Script.isModule (s : Script) : Bool :=
  marksModule true s.attributes.toList

/-- The scripts in a text from an offset on, after `skip` more characters. The second text has its comments
blanked, and tags are looked for there. Fails with the offset of a tag that is not closed. -/
def scriptsFrom (content : List Char) : Nat → Nat → List Char → Except Nat (List Script)
  | _, _, [] => .ok []
  | offset, skip + 1, _ :: cs => scriptsFrom content (offset + 1) skip cs
  | offset, 0, c :: cs =>
    match scriptTag? (c :: cs) with
    | none => scriptsFrom content (offset + 1) 0 cs
    | some tag =>
      match findClosing? "script" ((c :: cs).drop tag.length) with
      | none => .error offset
      | some (start, finish) => do
        let first := offset + tag.length
        let script : Script :=
          { attributes := String.ofList tag.attributes
            content := String.ofList ((content.drop first).take start)
            offset := first }
        let rest ← scriptsFrom content (offset + 1) (tag.length + finish - 1) cs
        pure (script :: rest)

def scripts (content : List Char) : Except Nat (List Script) :=
  scriptsFrom content 0 0 (blankOut comment? content)

end ApiCatalog.Component
