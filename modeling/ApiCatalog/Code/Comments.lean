import ApiCatalog.DocComment.Basic
import ApiCatalog.Syntax.Node

/-!
Which comments document what: the doc comment directly before a node documents the node, and a doc
comment ahead of all statements documents the module when it has the module tag or when a blank line,
or nothing, follows it.
-/

namespace ApiCatalog.Code

open Syntax

def isDocNode (n : Node) : Bool :=
  n.kind == .comment && DocComment.isDocComment n.text.toList

def parseDoc? (n : Node) : Option DocComment :=
  DocComment.parse? n.text.toList

def moduleCommentAmong? : List Node → Option Node
  | [] => none
  | n :: rest =>
    match n.kind with
    | .hashBang => moduleCommentAmong? rest
    | .comment =>
      if !isDocNode n then moduleCommentAmong? rest
      else if (parseDoc? n).any (·.ofModule) then some n
      else
        match rest with
        | [] => some n
        | next :: _ => if next.start.line > n.lastLine + 1 then some n else moduleCommentAmong? rest
    | _ => none

def moduleComment? (root : Node) : Option Node :=
  moduleCommentAmong? root.children

def moduleCommentText? (root : Node) : Option String :=
  (moduleComment? root).bind fun n => DocComment.moduleText? n.text.toList

end ApiCatalog.Code
