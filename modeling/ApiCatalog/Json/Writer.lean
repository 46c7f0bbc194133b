import ApiCatalog.Json.Basic
import ApiCatalog.Text.Quoted

namespace ApiCatalog.Json

def escapedChar (c : Char) : List Char :=
  if c = '"' then ['\\', '"']
  else if c = '\\' then ['\\', '\\']
  else if c = '\n' then ['\\', 'n']
  else if c = '\r' then ['\\', 'r']
  else if c = '\t' then ['\\', 't']
  else if c.toNat = 8 then ['\\', 'b']
  else if c.toNat = 12 then ['\\', 'f']
  else if c.toNat < 0x20 then '\\' :: 'u' :: Text.hexDigits 4 c.toNat
  else [c]

def escaped (s : String) : String :=
  "\"" ++ String.ofList (s.toList.flatMap escapedChar) ++ "\""

def lineBreak (depth : Nat) : String :=
  String.ofList ('\n' :: List.replicate depth '\t')

def bracketed (opening closing : String) (depth : Nat) (items : List String) : String :=
  if items.isEmpty then opening ++ closing
  else
    opening ++ lineBreak (depth + 1) ++ ("," ++ lineBreak (depth + 1)).intercalate items
      ++ lineBreak depth ++ closing

mutual

def renderAt (depth : Nat) : Json → String
  | null => "null"
  | bool true => "true"
  | bool false => "false"
  | number spelling => spelling
  | string s => escaped s
  | array items => bracketed "[" "]" depth (renderItems (depth + 1) items)
  | object fields => bracketed "\x7b" "\x7d" depth (renderFields (depth + 1) fields)

def renderItems (depth : Nat) : List Json → List String
  | [] => []
  | j :: js => renderAt depth j :: renderItems depth js

def renderFields (depth : Nat) : List (String × Json) → List String
  | [] => []
  | (key, j) :: rest => (escaped key ++ ": " ++ renderAt depth j) :: renderFields depth rest

end

def render (j : Json) : String :=
  renderAt 0 j

end ApiCatalog.Json
