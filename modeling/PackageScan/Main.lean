import PackageScan.CommandLine.Help
import Std.Time.DateTime.Timestamp

/-!
# The program

Everything that `CommandLine.run` needs to know is looked up before it is run: the files at the
paths that the arguments name, the environment variables, the time and a random identifier. What it
tells is written afterwards.
-/

namespace PackageScan

namespace CommandLine

/-- Everything in a directory and below it, symbolic links apart. -/
partial def loadChildren (path : String) : IO (List (String × FileNode)) := do
  let place ← IO.FS.realPath path
  let children ← (← place.readDir).toList.mapM fun entry => do
    match (← entry.path.symlinkMetadata).type with
    | .dir => return some (entry.fileName, .directory (← loadChildren entry.path.toString))
    | .file => return some (entry.fileName, .file (← IO.FS.readBinFile entry.path))
    | _ => return none
  return children.filterMap id

/-- What is at a path; what is in a directory is left out unless it is asked for. -/
def load (withChildren : Bool) (path : String) : IO (Option FileNode) := do
  try
    let place ← IO.FS.realPath path
    match (← place.metadata).type with
    | .dir => return some (.directory (← if withChildren then loadChildren path else pure []))
    | _ => return some (.file (← IO.FS.readBinFile path))
  catch _ => return none

/-- The files that a command looks at. -/
def loadFiles (command : Command) : IO Files := do
  let around := command.output?.toList.flatMap fun path => [path, (Files.split path).1]
  let others ← (command.inputs ++ around).mapM fun path =>
    return (path, ← load false path)
  let targets ← command.target?.toList.mapM fun path => return (path, ← load true path)
  let below := targets.flatMap fun (path, node) =>
    (node.toList.flatMap (FileNode.filesAt path)).map fun (p, content) => (p, some (.file content))
  return fun path => ((targets ++ below ++ others).lookup path).join

/-- The environment variables that count. -/
def loadEnvironment : IO Environment := do
  let assignments ← Environment.names.mapM fun name =>
    return (← IO.getEnv name).map fun value => (name, value)
  return .ofList (assignments.filterMap id)

/-- The time in thousand millionths of a second since the start of 1970. -/
def now : IO Nat := return (← Std.Time.Timestamp.now).toNanosecondsSinceUnixEpoch.val.toNat

/-- A new random identifier. -/
def newUuid : IO Uuid :=
  return .ofRandom ((← IO.getRandomBytes 16).foldl (fun n b => n * 256 + b.toNat) 0)

/-- What an invocation has around it. -/
def loadSurroundings (arguments : List String) : IO Surroundings := do
  let files ← match Invocation.parse arguments with
    | .ok invocation => loadFiles invocation.command
    | .error _ => pure fun _ => none
  let nanos ← now
  let seconds := nanos / 1000000000
  return {
    files
    environment := ← loadEnvironment
    seconds
    stamp := ⟨← newUuid, .ofUnix seconds (nanos % 1000000000)⟩ }

end CommandLine

end PackageScan

open PackageScan

/-- Does what the arguments ask for. -/
def main (arguments : List String) : IO UInt32 := do
  let outcome := CommandLine.run arguments (← CommandLine.loadSurroundings arguments)
  if let some (path, content) := outcome.written then IO.FS.writeFile path content
  IO.print outcome.out
  IO.eprint outcome.err
  return outcome.exit.toUInt32
