import ApiCatalog.Component.Comment
import ApiCatalog.Component.Props
import ApiCatalog.Component.Script
import ApiCatalog.Component.Template
import ApiCatalog.Report.Failure
import ApiCatalog.Source.Scope
import ApiCatalog.Syntax.Program

namespace ApiCatalog.Component

open Syntax Code

def faultAt (file : String) (content : List Char) (fault : FileFault) (offset : Nat) : FileError :=
  let (line, column) := Text.positionAt content offset
  { file, fault, line := some line, column := some column }

def readScripts (file : String) (content : List Char) : Except FileError (List Script) :=
  (scripts content).mapError (faultAt file content .unclosedScript)

def checkExpressions (file : String) (content : List Char) : Except FileError Unit :=
  match unclosedExpression? content with
  | some offset => .error (faultAt file content .unclosedExpression offset)
  | none => .ok ()

/-- The place in a component of a place in one of its scripts. On the first line of the script the
column continues the line of the tag. -/
def Script.placeOf (s : Script) (content : List Char) (p : Position) : Nat × Nat :=
  let (line, column) := Text.positionAt content s.offset
  (line + p.line - 1, if p.line = 1 then column + p.column - 1 else p.column)

def Script.parse (parser : ScriptParser) (s : Script) (file : String) (content : List Char) : Except FileError Node :=
  let root := parser s.content
  match root.firstError? with
  | none => .ok root
  | some e =>
    let (line, column) := s.placeOf content e.start
    .error {
      file
      fault := .brokenScript (String.ofList (e.text.toList.take 40))
      line := some line
      column := some column }

/-- The tree of the script that runs for each use of the component: the first that is not
a module script. All scripts have to be readable. -/
def instanceTree (parser : ScriptParser) (file : String) (content : List Char) (blocks : List Script) :
    Except FileError (Option Node) := do
  let trees ← blocks.mapM fun s => do pure (s, ← s.parse parser file content)
  pure ((trees.find? fun t => !t.1.isModule).map (·.2))

def describe (d : Declaration) (file : String) (defaultImpliesOptional : Bool) (root : Node) :
    Noted Declaration := do
  let r := PropReader.ofRoot file d.name defaultImpliesOptional root
  match r.propsCall? with
  | some c =>
    let props ← r.calledProps c
    let doc := r.reader.docBefore? c.statement.before
    let described := Reader.documented d doc
    pure { described with comment := (doc.bind (·.text)).or d.comment, props }
  | none => pure { d with props := ← r.variableProps }

def analyze (parser : ScriptParser) (file modulePath content : String) (defaultImpliesOptional : Bool) :
    Run Extracted := do
  let text := content.toList
  let tree ← ExceptT.mk (pure ((do
    let blocks ← readScripts file text
    checkExpressions file text
    instanceTree parser file text blocks : Except FileError (Option Node)).mapError .file))
  let name := componentName modulePath
  let bare : Declaration :=
    { name, kind := .component, sourceLine := some 1, comment := componentComment? text }
  let d ← match tree with
    | some root => Run.ofNoted (describe bare file defaultImpliesOptional root)
    | none => pure bare
  .write .debug .component
    ("Analyzed component " ++ name ++ " with " ++ toString d.props.length ++ " props")
  pure { declarations := [d], moduleComment := tree.bind moduleCommentText? }

end ApiCatalog.Component
