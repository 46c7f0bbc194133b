import ApiCatalog.DocComment.Clean
import ApiCatalog.DocComment.Link

namespace ApiCatalog

def Text.setValue {α : Type} (name : String) (value : α) : List (String × α) → List (String × α)
  | [] => [(name, value)]
  | entry :: rest =>
    if entry.1 == name then (name, value) :: rest else entry :: setValue name value rest

open Text

structure DocComment where
  text : Option String := none
  params : List (String × String) := []
  returns : Option String := none
  throws : List String := []
  since : Option String := none
  deprecated : Option String := none
  examples : List String := []
  seeAlso : List String := []
  defaultValue : Option String := none
  hidden : Bool := false
  ofModule : Bool := false
  deriving DecidableEq

namespace DocComment

def isModuleTagLine (line : List Char) : Bool :=
  ((dropPrefix? "@module".toList (trimLeft line)).map endsWord).getD false

def stripModuleTag (s : List Char) : List Char :=
  trim (unlines ((lines s).filter fun l => !isModuleTagLine l))

def blockTag? : List Char → Option (List Char × List Char)
  | '@' :: s =>
    let name := s.takeWhile Char.isAlpha
    let after := s.drop name.length
    if name.isEmpty || !endsWord after then none
    else
      match after with
      | [] => some (name, [])
      | c :: cs => some (name, if isBlank c then cs else c :: cs)
  | _ => none

def isFence (line : List Char) : Bool :=
  (dropPrefix? "```".toList (trimLeft line)).isSome

structure Block where
  tag : List Char
  lines : List (List Char)

def splitBlocks : Bool → List (List Char) → List (List Char) × List Block
  | _, [] => ([], [])
  | inFence, line :: rest =>
    let (before, blocks) := splitBlocks (inFence != isFence line) rest
    match if inFence then none else blockTag? line with
    | some (tag, content) => ([], ⟨tag.map Char.toLower, content :: before⟩ :: blocks)
    | none => (line :: before, blocks)

def Block.content (b : Block) : List Char :=
  trim (unlines b.lines)

def nonemptyString? (s : List Char) : Option String :=
  (nonempty? s).map String.ofList

def convertedText? (s : List Char) : Option String :=
  nonemptyString? (convertLinks (trim s))

def dropParamType : List Char → List Char
  | '{' :: s =>
    match cutAt? '}' s with
    | some (_, after) => trimLeft after
    | none => '{' :: s
  | s => s

/-- The name is the first word, without the brackets and the default of an optional parameter. -/
def paramName (word : List Char) : List Char :=
  (cutAt '=' (trimOf (fun c => c = '[' || c = ']') word)).1

def param? (content : List Char) : Option (String × String) :=
  match dropParamType (trim content) with
  | [] => none
  | s =>
    let (word, rest) := cutAt ' ' s
    let (name, rest) :=
      match cutAt? '\n' word with
      | some (name, more) => (name, trim (more ++ '\n' :: rest))
      | none => (word, rest)
    let description :=
      match trim rest with
      | '-' :: d => trim d
      | d => d
    some (String.ofList (paramName name), String.ofList (convertLinks description))

def addBlock (d : DocComment) (b : Block) : DocComment :=
  let content := b.content
  match String.ofList b.tag with
  | "param" =>
    match param? content with
    | some (name, description) => { d with params := setValue name description d.params }
    | none => d
  | "returns" | "return" => { d with returns := convertedText? content }
  | "throws" | "throw" | "exception" =>
    if content.isEmpty then d
    else { d with throws := d.throws ++ [String.ofList (convertLinks content)] }
  | "since" => { d with since := nonemptyString? content }
  | "deprecated" => { d with deprecated := some (String.ofList (convertLinks content)) }
  | "example" =>
    if content.isEmpty then d else { d with examples := d.examples ++ [String.ofList content] }
  | "see" =>
    match seeMarkup content with
    | [] => d
    | s => { d with seeAlso := d.seeAlso ++ [String.ofList s] }
  | "default" => { d with defaultValue := nonemptyString? content }
  | "nodocs" => { d with hidden := true }
  | "module" => { d with ofModule := true }
  | _ => d

def ofLines (ls : List (List Char)) : DocComment :=
  let (description, blocks) := splitBlocks false ls
  blocks.foldl addBlock { text := convertedText? (unlines description) }

def parse? (raw : List Char) : Option DocComment :=
  (clean? raw).map fun s => ofLines (lines s)

def moduleText? (raw : List Char) : Option String :=
  (clean? raw).bind fun s => nonemptyString? (convertLinks (stripModuleTag s))

end DocComment

end ApiCatalog
