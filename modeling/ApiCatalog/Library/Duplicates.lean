import ApiCatalog.Catalog.Module
import ApiCatalog.Report.Failure

namespace ApiCatalog

structure Occurrence where
  declaration : Declaration
  module : String

def Library.occurrences (l : Library) : List Occurrence :=
  l.modules.flatMap fun m => m.declarations.map fun d => ⟨d, m.path⟩

def Library.duplicates (l : Library) : List (String × List Occurrence) :=
  let all := l.occurrences
  (all.map fun o => o.declaration.name).eraseDups.filterMap fun name =>
    let same := all.filter fun o => o.declaration.name == name
    if same.length > 1 then some (name, same) else none

inductive DuplicatePolicy where
  | warn | fail
  deriving DecidableEq

def Occurrence.text (o : Occurrence) : String :=
  "    - " ++ locationText o.module o.declaration.sourceLine none
    ++ " (" ++ o.declaration.kind.name ++ ")"

def duplicateLines (ds : List (String × List Occurrence)) : List String :=
  "Duplicate declaration names detected in flat namespace:"
    :: ds.flatMap fun (name, os) => ("  \"" ++ name ++ "\" found in:") :: os.map Occurrence.text

def DuplicatePolicy.apply (p : DuplicatePolicy) (channel : Channel)
    (ds : List (String × List Occurrence)) : Run Unit :=
  if ds.isEmpty then pure ()
  else
    match p with
    | .warn => Run.ofNoted (.writeAll ((duplicateLines ds).map (⟨.warning, channel, ·⟩)))
    | .fail => do
      Run.ofNoted (.writeAll ((duplicateLines ds).map (⟨.error, channel, ·⟩)))
      throw (.duplicates ds.length)

end ApiCatalog
