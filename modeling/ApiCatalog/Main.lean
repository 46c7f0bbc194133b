import ApiCatalog.Command.Run

namespace ApiCatalog.Main

open ApiCatalog.Command

def pathText (p : Place) : String :=
  "/" ++ "/".intercalate p

def isDirectory (p : Place) : IO Bool :=
  (IO.FS.DirEntry.path { root := pathText p.dropLast, fileName := p.getLast?.getD "" }).isDir

def readText? (p : Place) : IO (Option String) := do
  try
    return some (← IO.FS.readFile (pathText p))
  catch _ =>
    return none

def observe (t : FileTree) (p : Path) : IO FileTree := do
  let place := p.normalize.parts
  let onTheWay ← (FileTree.passed [] p.parts ++ [place]).filterM isDirectory
  let t := { t with directories := onTheWay ++ t.directories }
  match ← readText? place with
  | some text => return t.write place text
  | none => return t

partial def observeSources (o : SourceOptions) (t : FileTree) (p : Place) : IO FileTree := do
  let entries ← (IO.FS.DirEntry.path { root := pathText p.dropLast, fileName := p.getLast?.getD "" }).readDir
  let mut t := t
  for name in (entries.map IO.FS.DirEntry.fileName).toList.mergeSort do
    let place := p ++ [name]
    if ← isDirectory place then
      if entersDirectory name then
        t ← observeSources o t place
    else if (o.contains (pathText place)).toOption.getD true then
      if let some text ← readText? place then
        t := t.write place text
  return t

def observeAll (platform : Platform) (working : Path) (a : Arguments) : IO FileTree := do
  let some path := configPath platform working a | return {}
  let t ← observe {} path
  let t ← observe t (Config.fileAt t working path)
  match loadConfig platform t working a with
  | .error _ => return t
  | .ok c =>
    let mut t := t
    for p in (singleFiles platform working a c).toOption.getD [] ++ sourceDirectories c do
      t ← observe t p
    for p in sourceDirectories c do
      if let .ok place := t.locate p then
        if t.isDirectory p then
          t ← observeSources c.options t place
    return t

def writeResult (p : Path) (text : String) : IO Unit := do
  IO.FS.createDirAll p.parent.toString
  IO.FS.writeFile p.toString text

def homes : IO Homes := do
  let own ← IO.getEnv "HOME"
  let table := ((← readText? ["etc", "passwd"]).getD "").splitOn "\n" |>.map (·.splitOn ":")
  return fun user =>
    if user.isEmpty then own.map Path.ofString
    else (table.find? fun fields => fields.head? == some user).bind fun fields => fields[5]?.map Path.ofString

def runCommand (a : Arguments) : IO UInt32 := do
  let working := Path.ofString (← IO.currentDir).toString
  let platform : Platform := { homes := ← homes }
  let outcome := Command.run (← observeAll platform working a) working a platform
  for (p, text) in outcome.written do
    writeResult p text
  IO.eprint outcome.stderr
  IO.print outcome.stdout
  return outcome.exitCode.toUInt32

end ApiCatalog.Main

def main (args : List String) : IO UInt32 := do
  match ApiCatalog.Command.Arguments.parse args with
  | .ok a => ApiCatalog.Main.runCommand a
  | .error .help =>
    IO.print ApiCatalog.Command.usage
    return 0
  | .error (.usage e) =>
    IO.eprint (ApiCatalog.Command.usage ++ "docinfo: error: " ++ e.message ++ "\n")
    return 2
