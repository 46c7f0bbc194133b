import ApiCatalog.Text.Digit
import ApiCatalog.Text.Lines

/-!
The arguments of the command line: a command, the flags before it and behind it, and the path of a project. A long
flag may be cut short as long as it is clear which one is meant.
-/

namespace ApiCatalog.Command

inductive Action where
  | generate
  | check
  deriving DecidableEq

def Action.name : Action → String
  | .generate => "generate"
  | .check => "check"

def Action.ofName? (name : String) : Option Action :=
  [Action.generate, .check].find? fun a => a.name == name

structure Arguments where
  action : Action
  verbose : Bool := false
  path : String := "."
  config : Option String := none
  outputDirectory : Option String := none
  wrapper : Bool := true
  strict : Option Bool := none
  deriving DecidableEq

inductive UsageError where
  | missingCommand
  | unknownCommand (word : String)
  | ambiguousFlag
  | missingValue
  | unexpectedValue
  | conflict
  | extraWords
  deriving DecidableEq

def UsageError.message : UsageError → String
  | missingCommand => "a command is required: generate or check"
  | unknownCommand word => "no such command: " ++ word
  | ambiguousFlag => "it is not clear which option is meant"
  | missingValue => "an option lacks its value"
  | unexpectedValue => "an option takes no value"
  | conflict => "--strict and --lenient exclude each other"
  | extraWords => "there are arguments that nothing is made of"

def usage : String :=
  "usage: docinfo [-h] [-v] \x7bgenerate,check\x7d [path] [--config CONFIG] [--out-dir OUT_DIR] "
    ++ "[--no-wrapper] [--strict | --lenient]\n"

inductive Stop where
  | help
  | usage (e : UsageError)
  deriving DecidableEq

inductive Flag where
  | help | verbose | config | outputDirectory | noWrapper | strict | lenient
  deriving DecidableEq

namespace Flag

def longName : Flag → String
  | help => "--help"
  | verbose => "--verbose"
  | config => "--config"
  | outputDirectory => "--out-dir"
  | noWrapper => "--no-wrapper"
  | strict => "--strict"
  | lenient => "--lenient"

def general : List Flag := [help, verbose]

def ofCommand : List Flag := [help, verbose, config, outputDirectory, noWrapper, strict, lenient]

def takesValue (f : Flag) : Bool :=
  f = config || f = outputDirectory

def ofLetter? : Char → Option Flag
  | 'h' => some help
  | 'v' => some verbose
  | _ => none

def ofLongName? (known : List Flag) (name : String) : Option Flag :=
  known.find? fun f => f.longName == name

end Flag

/-! ### Words -/

inductive Word where
  | plain (text : String)
  | separator
  | long (f : Flag) (value : Option String)
  | short (f : Flag) (rest : Option String)
  | unknown
  | ambiguous
  deriving DecidableEq

/-- A hyphen and digits, which may hold one point. -/
def looksNegative (w : List Char) : Bool :=
  match w with
  | '-' :: digits =>
    let (whole, rest) := digits.span Text.isDecimalDigit
    match rest with
    | [] => !whole.isEmpty
    | '.' :: fraction => !fraction.isEmpty && fraction.all Text.isDecimalDigit
    | _ => false
  | _ => false

def readOther (w : String) : Word :=
  if looksNegative w.toList || w.toList.contains ' ' then .plain w else .unknown

def splitValue (w : String) : String × Option String :=
  match Text.cutAt? '=' w.toList with
  | some (name, value) => (String.ofList name, some (String.ofList value))
  | none => (w, none)

def readLong (known : List Flag) (w : String) : Word :=
  let (name, value) := splitValue w
  match Flag.ofLongName? known name with
  | some f => .long f value
  | none =>
    match known.filter fun f => Text.startsWith name f.longName with
    | [] => readOther w
    | [f] => .long f value
    | _ => .ambiguous

def readWord (known : List Flag) (w : String) : Word :=
  match w.toList with
  | '-' :: '-' :: _ => readLong known w
  | ['-', c] =>
    match Flag.ofLetter? c with
    | some f => .short f none
    | none => readOther w
  | '-' :: c :: '=' :: value =>
    match Flag.ofLetter? c with
    | some f => .short f (some (String.ofList value))
    | none => readOther w
  | '-' :: c :: rest =>
    match Flag.ofLetter? c with
    | some f => .short f (some (String.ofList rest))
    | none => readOther w
  | _ => .plain w

def readWords (known : List Flag) : List String → List Word
  | [] => []
  | w :: ws => if w == "--" then .separator :: ws.map .plain else readWord known w :: readWords known ws

/-! ### Flags -/

structure Progress where
  arguments : Arguments
  placed : Bool := false
  extra : Bool := false

def setStrict (a : Arguments) (b : Bool) : Except Stop Arguments :=
  if a.strict = some !b then .error (.usage .conflict) else .ok { a with strict := some b }

def Flag.apply (a : Arguments) (value : String) : Flag → Except Stop Arguments
  | help => .error .help
  | verbose => .ok { a with verbose := true }
  | config => .ok { a with config := some value }
  | outputDirectory => .ok { a with outputDirectory := some value }
  | noWrapper => .ok { a with wrapper := false }
  | strict => setStrict a true
  | lenient => setStrict a false

def applyLetters (a : Arguments) : List Char → Except Stop Arguments
  | [] => .ok a
  | c :: cs =>
    match Flag.ofLetter? c with
    | some f => do applyLetters (← f.apply a "") cs
    | none => .error (.usage .unexpectedValue)

def applyShort (a : Arguments) (f : Flag) : Option String → Except Stop Arguments
  | none => f.apply a ""
  | some "" => .error (.usage .unexpectedValue)
  | some rest =>
    -- An unreadable letter is found before the flags take effect.
    if rest.toList.all fun c => (Flag.ofLetter? c).isSome then do applyLetters (← f.apply a "") rest.toList
    else .error (.usage .unexpectedValue)

def applyLong (a : Arguments) (f : Flag) (value : Option String) (rest : List Word) :
    Except Stop (Arguments × Nat) :=
  match f.takesValue, value, rest with
  | true, some v, _ => do pure (← f.apply a v, 0)
  | true, none, .plain v :: _ => do pure (← f.apply a v, 1)
  | true, none, _ => .error (.usage .missingValue)
  | false, none, _ => do pure (← f.apply a "", 0)
  | false, some _, _ => .error (.usage .unexpectedValue)

/-- The path at the front of words, and how many words it takes: a separator may stand on either side. -/
def pathWords : List Word → Option String × Nat
  | .separator :: .plain p :: _ => (some p, 2)
  | .separator :: _ => (none, 1)
  | .plain p :: .separator :: _ => (some p, 2)
  | .plain p :: _ => (some p, 1)
  | _ => (none, 0)

def Progress.step (p : Progress) (w : Word) (rest : List Word) : Except Stop (Progress × Nat) :=
  match w with
  | .long f value => do
    let (a, n) ← applyLong p.arguments f value rest
    pure ({ p with arguments := a }, n + 1)
  | .short f letters => do
    let a ← applyShort p.arguments f letters
    pure ({ p with arguments := a }, 1)
  | .unknown => .ok ({ p with extra := true }, 1)
  | .ambiguous => .error (.usage .ambiguousFlag)
  | w =>
    if p.placed then .ok ({ p with extra := true }, 1)
    else
      let (path, n) := pathWords (w :: rest)
      .ok ({ p with placed := true, arguments := { p.arguments with path := path.getD p.arguments.path } }, n)

def Progress.run : Nat → Progress → List Word → Except Stop Progress
  | 0, p, _ => .ok p
  | _ + 1, p, [] => .ok p
  | fuel + 1, p, w :: rest => do
    let (p, n) ← p.step w rest
    run fuel p ((w :: rest).drop n)

/-! ### The whole line -/

def readCommand (verbose extra : Bool) (action : Action) (args : List String) : Except Stop Arguments := do
  let words := readWords Flag.ofCommand args
  let p ← Progress.run words.length { arguments := { action, verbose }, extra } words
  if p.extra then .error (.usage .extraWords) else pure p.arguments

def readLine (verbose extra : Bool) : List String → Except Stop Arguments
  | [] => .error (.usage .missingCommand)
  | w :: ws =>
    if w == "--" then .error (.usage (.unknownCommand w))
    else match readWord Flag.general w with
      | .plain name =>
        match Action.ofName? name with
        | some action => readCommand verbose extra action ws
        | none => .error (.usage (.unknownCommand name))
      | .unknown => readLine verbose true ws
      | .ambiguous => .error (.usage .ambiguousFlag)
      | .separator => .error (.usage (.unknownCommand w))
      | .long f none => take f none ws
      | .long _ (some _) => .error (.usage .unexpectedValue)
      | .short f letters => take f letters ws
where
  take (f : Flag) (letters : Option String) (ws : List String) : Except Stop Arguments := do
    let a ← applyShort { action := .generate, verbose } f letters
    readLine a.verbose extra ws

namespace Arguments

/-- Reads the arguments of a command line. A flag that is not clear is refused wherever it stands. -/
def parse (args : List String) : Except Stop Arguments :=
  if (readWords Flag.general args).contains .ambiguous then .error (.usage .ambiguousFlag)
  else readLine false false args

end Arguments

end ApiCatalog.Command
