import ApiCatalog.Report.Log

namespace ApiCatalog

inductive Severity where
  | error | warning
  | other (name : String)
  deriving DecidableEq

namespace Severity

def name : Severity → String
  | .error => "error"
  | .warning => "warning"
  | .other s => s

def ofName : String → Severity
  | "error" => .error
  | "warning" => .warning
  | s => .other s

end Severity

inductive Finding where
  | typeExtraction | signatureAnalysis | classMember | componentProp | duplicateBinding
  | other (name : String)
  deriving DecidableEq

namespace Finding

def name : Finding → String
  | .typeExtraction => "type_extraction_failed"
  | .signatureAnalysis => "signature_analysis_failed"
  | .classMember => "class_member_failed"
  | .componentProp => "svelte_prop_failed"
  | .duplicateBinding => "duplicate_binding"
  | .other s => s

def ofName : String → Finding
  | "type_extraction_failed" => .typeExtraction
  | "signature_analysis_failed" => .signatureAnalysis
  | "class_member_failed" => .classMember
  | "svelte_prop_failed" => .componentProp
  | "duplicate_binding" => .duplicateBinding
  | s => .other s

end Finding

structure Diagnostic where
  kind : Finding
  file : String
  line : Option Nat := none
  column : Option Nat := none
  message : String
  severity : Severity := .warning
  symbol : Option String := none
  deriving DecidableEq

def locationText (file : String) (line column : Option Nat) : String :=
  match line, column with
  | none, _ => file
  | some l, none => file ++ ":" ++ toString l
  | some l, some c => file ++ ":" ++ toString l ++ ":" ++ toString c

def stripBase (base : Option String) (file : String) : String :=
  match base with
  | some b =>
    if !b.isEmpty && b.toList.isPrefixOf file.toList then
      String.ofList ((file.toList.drop b.length).dropWhile (· == '/'))
    else file
  | none => file

def Diagnostic.format (d : Diagnostic) (start : String) (base : Option String) : String :=
  locationText (start ++ stripBase base d.file) d.line d.column
    ++ ": " ++ d.severity.name ++ ": " ++ d.message

def errorsIn (ds : List Diagnostic) : List Diagnostic :=
  ds.filter fun d => d.severity == .error

def warningsIn (ds : List Diagnostic) : List Diagnostic :=
  ds.filter fun d => d.severity == .warning

def ofFinding (k : Finding) (ds : List Diagnostic) : List Diagnostic :=
  ds.filter fun d => d.kind == k

def reportSection (level : Level) (noun : String) (channel : Channel) (base : Option String)
    (ds : List Diagnostic) : List Record :=
  if ds.isEmpty then []
  else
    ⟨level, channel, "Analysis completed with " ++ toString ds.length ++ " " ++ noun ++ "(s):"⟩
      :: ds.map fun d => ⟨level, channel, "  " ++ d.format "./" base⟩

def reportRecords (channel : Channel) (base : Option String) (ds : List Diagnostic) : List Record :=
  reportSection .error "error" channel base (errorsIn ds)
    ++ reportSection .warning "warning" channel base (warningsIn ds)

end ApiCatalog
