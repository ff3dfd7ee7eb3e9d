import Fairway.Command.Workspace
import Std.Async.Signal
import Std.Time.DateTime.Timestamp

namespace Fairway

/-- Milliseconds since the Unix epoch. -/
def wallClock : IO Nat := do
  let now ← Std.Time.Timestamp.now
  return now.toMillisecondsSinceUnixEpoch.val.toNat

/-- A number that tells this run from others. -/
def runNumber : IO Nat := do
  let bytes ← IO.getRandomBytes 4
  return bytes.foldl (fun n b => 256 * n + b.toNat) 0

def contentOf? (path : String) : IO (Option Bytes) := do
  try
    let content ← IO.FS.readBinFile path
    return some content.toList
  catch _ => return none

def loadConfig : Option String → IO (Except String Config)
  | none => return .ok {}
  | some path => do
    match Config.ofFile (← contentOf? path) with
    | .ok config => return .ok config
    | .error _ => return .error (Command.configFailure path)

def makeDirectory (path : String) : IO Bool := do
  try
    if !path.isEmpty then IO.FS.createDirAll path
    return true
  catch _ => return false

/-- Makes the file if it is not there, and keeps every other run away from it while the handle lives. -/
def claimFile (path : String) : IO (Option IO.FS.Handle) := do
  try
    let handle ← IO.FS.Handle.mk path .append
    if ← handle.tryLock then return some handle else return none
  catch _ => return none

def loadTable (path : String) : IO (Except String (Table × IO.FS.Handle)) := do
  let directory := (Path.parent? path).getD ""
  if ← makeDirectory directory then
    match ← claimFile path with
    | none => return .error (Command.storeFailure path)
    | some handle =>
      match (← contentOf? path).bind Table.ofImage? with
      | some table => return .ok (table, handle)
      | none => return .error (Command.storeFailure path)
  else return .error (Command.directoryFailure directory)

def saveTable (path : String) (d : Deployment) : IO Unit :=
  IO.FS.writeBinFile path ⟨d.access.store.table.toImage.toArray⟩

/-- Keeps everything going until the interrupt arrives. -/
partial def attend (path : String) (d : Deployment) (signal : Std.Async.AsyncTask Int) :
    IO Deployment := do
  if ← IO.hasFinished signal then return d
  IO.sleep 50
  let wall ← wallClock
  let d := { d with wall }.advanceTo (d.now + (wall - d.wall))
  saveTable path d
  attend path d signal

def failWith (message : String) : IO UInt32 := do
  IO.eprintln ("Error: " ++ message)
  return 1

/-- Carries out a command on an open store, and saves what it has done. -/
def carryOut (config : Config) (table : Table) (command : Command) : IO UInt32 := do
  let path := config.storePath
  let start := Deployment.ofStore (Store.ofBuffer config.eventBuffer table) (← wallClock)
    (← runNumber)
  match Command.begin start config command with
  | (.failed message, d) => do
    saveTable path d
    failWith message
  | (.done out, d) => do
    saveTable path d
    IO.print out
    return 0
  | (.waits out wait, d) => do
    saveTable path d
    IO.print out
    (← IO.getStdout).flush
    let waiter ← Std.Async.Signal.Waiter.mk .sigint false
    let d ← attend path d.settle (← waiter.wait)
    let (more, d) := Command.interrupt d wait
    saveTable path d
    IO.print more
    return 0

def runStored (config : Config) (command : Command) : IO UInt32 := do
  match ← loadTable config.storePath with
  | .error message => failWith message
  | .ok (table, handle) =>
    let code ← carryOut config table command
    handle.unlock
    return code

def runArguments (args : List String) : IO UInt32 := do
  match Command.parse args with
  | .error (.misuse, verb) =>
    IO.eprint (Workspace.aboutText .misuse verb)
    return 2
  | .error (stop, verb) =>
    IO.print (Workspace.aboutText stop verb)
    return 0
  | .ok invocation =>
    match ← loadConfig invocation.config with
    | .error message => failWith message
    | .ok config =>
      if invocation.command.needsStore then runStored config invocation.command
      else
        match Command.begin (Deployment.ofStore {} 0 0) config invocation.command with
        | (.done out, _) =>
          IO.print out
          return 0
        | (.failed message, _) => failWith message
        | (.waits _ _, _) => return 0

end Fairway

def main (args : List String) : IO UInt32 := Fairway.runArguments args
