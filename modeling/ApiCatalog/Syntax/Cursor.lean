import ApiCatalog.Syntax.Node

namespace ApiCatalog.Syntax

structure Cursor where
  rest : List Char
  offset : Nat := 0
  line : Nat := 1
  column : Nat := 1

namespace Cursor

def step (c : Cursor) : Cursor :=
  match c.rest with
  | [] => c
  | x :: rest =>
    if x = '\n' then ⟨rest, c.offset + 1, c.line + 1, 1⟩
    else ⟨rest, c.offset + 1, c.line, c.column + x.utf8Size⟩

def skip : Nat → Cursor → Cursor
  | 0, c => c
  | n + 1, c => skip n c.step

def position (c : Cursor) : Position :=
  ⟨c.line, c.column⟩

def textUpTo (start stop : Cursor) : String :=
  String.ofList (start.rest.take (stop.offset - start.offset))

end Cursor

end ApiCatalog.Syntax
