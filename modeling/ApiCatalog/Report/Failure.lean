import ApiCatalog.Report.Noted
import ApiCatalog.Source.Options
import ApiCatalog.Source.Tree

namespace ApiCatalog

inductive FileFault where
  | unclosedScript
  | unclosedExpression
  | brokenScript (near : String)
  | other (text : String)
  deriving DecidableEq

def FileFault.text : FileFault → String
  | unclosedScript => "Unclosed <script> tag"
  | unclosedExpression => "Unterminated expression in template"
  | brokenScript near => "Failed to parse component script near " ++ Text.quoted near
  | other text => text

structure FileError where
  file : String
  fault : FileFault
  line : Option Nat := none
  column : Option Nat := none
  deriving DecidableEq

def FileError.message (e : FileError) : String :=
  locationText e.file e.line e.column ++ ": " ++ e.fault.text

inductive PackageError where
  | unreadable (path : String) (reason : ReadError)
  | malformed (path : String)
  | notObject (path : String)
  | missingField (source field : String)
  deriving DecidableEq

def PackageError.message : PackageError → String
  | unreadable path .missing => "Package manifest not found: " ++ path
  | unreadable path reason =>
    "Failed to read package manifest " ++ path ++ ": " ++ reason.text path
  | malformed path => "Failed to parse " ++ path ++ ": not a JSON text"
  | notObject path => path ++ " must contain a JSON object"
  | missingField source field => source ++ " is missing a '" ++ field ++ "' field"

inductive ConfigError where
  | unreadable (path : Path) (reason : ReadError)
  | malformed (name : String)
  | notMapping
  | unknownHome
  deriving DecidableEq

def ConfigError.message : ConfigError → String
  | unreadable path reason =>
    "Failed to read " ++ path.name ++ ": " ++ reason.text path.toString
  | malformed name => "Failed to parse " ++ name ++ ": not a YAML document"
  | notMapping => ".docinfo.yml must contain a mapping at the root"
  | unknownHome => "Could not determine home directory."

inductive Failure where
  | options (e : OptionsError)
  | file (e : FileError)
  | package (e : PackageError)
  | config (e : ConfigError)
  | duplicates (count : Nat)
  deriving DecidableEq

def duplicatesMessage (count : Nat) : String :=
  "Found " ++ toString count ++ " duplicate declaration name" ++ (if count = 1 then "" else "s")
    ++ " across modules. The flat namespace requires unique names: rename one of the conflicting "
    ++ "declarations or mark it with @nodocs."

def Failure.message : Failure → String
  | options e => e.message
  | file e => e.message
  | package e => e.message
  | config e => e.message
  | duplicates count => duplicatesMessage count

abbrev Run := ExceptT Failure Noted

namespace Run

variable {α : Type}

def ofOptions (x : Except OptionsError α) : Run α :=
  match x with
  | .ok a => pure a
  | .error e => throw (.options e)

def ofConfig (x : Except ConfigError α) : Run α :=
  match x with
  | .ok a => pure a
  | .error e => throw (.config e)

def ofNoted (x : Noted α) : Run α :=
  ExceptT.lift x

def write (level : Level) (channel : Channel) (message : String) : Run Unit :=
  ofNoted (.write level channel message)

end Run

end ApiCatalog
