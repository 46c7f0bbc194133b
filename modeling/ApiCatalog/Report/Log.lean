namespace ApiCatalog

inductive Level where
  | debug | info | warning | error
  deriving DecidableEq

namespace Level

def name : Level → String
  | .debug => "debug"
  | .info => "info"
  | .warning => "warning"
  | .error => "error"

def title : Level → String
  | .debug => "DEBUG"
  | .info => "INFO"
  | .warning => "WARNING"
  | .error => "ERROR"

end Level

abbrev Channel := String

namespace Channel

def root : Channel := "docinfo"

def named (name : Option String) : Channel :=
  match name with
  | none | some "" => root
  | some n => root ++ "." ++ n

def sources : Channel := named (some "sources")
def program : Channel := named (some "program")
def code : Channel := named (some "analyzers.typescript")
def component : Channel := named (some "analyzers.svelte")
def analysis : Channel := named (some "analysis")
def linker : Channel := named (some "linker")
def library : Channel := named (some "library")
def watch : Channel := named (some "watch")
def commandLine : Channel := named (some "cli")

end Channel

structure Record where
  level : Level
  channel : Channel
  message : String
  deriving DecidableEq

def Record.isShown (verbose : Bool) (r : Record) : Bool :=
  verbose || r.level != .debug

def Record.consoleLine (r : Record) : String :=
  "[docinfo] " ++ r.level.title ++ " " ++ r.message ++ "\n"

def Record.fileLine (time : String) (r : Record) : String :=
  time ++ " " ++ r.level.title ++ " " ++ r.channel ++ ": " ++ r.message ++ "\n"

def consoleText (verbose : Bool) (records : List Record) : String :=
  String.join ((records.filter (Record.isShown verbose)).map Record.consoleLine)

def logFileText (verbose : Bool) (time : String) (records : List Record) : String :=
  String.join ((records.filter (Record.isShown verbose)).map (Record.fileLine time))

end ApiCatalog
