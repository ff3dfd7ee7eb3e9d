import Fairway.Command.Run
import Fairway.Store.Image

namespace Fairway

inductive Entry where
  | directory
  | document (content : Bytes)
  deriving DecidableEq

/-- The files around a run, by the names on the way to them from the working directory. -/
structure Workspace where
  entries : List (List String × Entry) := []
  wall : Nat
  process : Nat

/-- How a run ends: with what it printed, with an error besides, or because its arguments make no
sense. -/
inductive Exit where
  | done (out : String)
  | failed (out message : String)
  | misused
  deriving DecidableEq

namespace Path

/-- A path in reverse without what adds nothing to its end: slashes, and dots behind a slash. -/
def dropIdle : List Char → List Char
  | '/' :: rest => dropIdle rest
  | '.' :: '/' :: rest => dropIdle ('/' :: rest)
  | cs => cs

/-- The directory that a path is in; a single name is in the empty path. -/
def parent? (path : String) : Option String :=
  match dropIdle path.toList.reverse with
  | [] => none
  | cs =>
    match cs.dropWhile (· != '/') with
    | [] => some ""
    | above =>
      match dropIdle above with
      | [] => some "/"
      | above => some (String.ofList above.reverse)

/-- The names on the way, the root of an absolute path first. -/
def names (path : String) : List String :=
  let steps := (pieces '/' path.toList).filter fun cs => cs != [] && cs != ['.']
  (if path.toList.head? == some '/' then ["/"] else []) ++ steps.map String.ofList

/-- One step from a place. -/
def step (place : List String) (name : String) : List String :=
  if name != ".." then place ++ [name]
  else
    match place.getLast? with
    | none => [".."]
    | some ".." => place ++ [".."]
    | some "/" => place
    | some _ => place.dropLast

/-- A path that can only be a directory. -/
def isDirectoryOnly (path : String) : Bool :=
  match path.toList.reverse with
  | '/' :: _ => true
  | '.' :: '/' :: _ => true
  | ['.'] => true
  | [] => true
  | _ => false

end Path

namespace Workspace

def get? (ws : Workspace) (place : List String) : Option Entry := ws.entries.lookup place

def set (ws : Workspace) (place : List String) (entry : Entry) : Workspace :=
  { ws with entries := (place, entry) :: ws.entries.filter (·.1 != place) }

/-- The working directory, all above it and the root are there. -/
def isDirectory (ws : Workspace) (place : List String) : Bool :=
  place.all (fun name => name == ".." || name == "/") || ws.get? place == some .directory

/-- Makes the directories on the way from a place, as far as no file is in the way. -/
def makeAlong (ws : Workspace) (place : List String) : List String → Bool × Workspace
  | [] => (true, ws)
  | name :: rest =>
    let next := Path.step place name
    if ws.isDirectory next then ws.makeAlong next rest
    else if (ws.get? next).isSome then (false, ws)
    else (ws.set next .directory).makeAlong next rest

/-- The place a path leads to, when all but its end are directories. -/
def locate (ws : Workspace) (place : List String) : List String → Option (List String)
  | [] => some place
  | [name] => some (Path.step place name)
  | name :: rest =>
    let next := Path.step place name
    if ws.isDirectory next then ws.locate next rest else none

/-- The place of a file, which may be yet to come. -/
def fileAt? (ws : Workspace) (path : String) : Option (List String) :=
  if Path.isDirectoryOnly path then none
  else (ws.locate [] (Path.names path)).filter fun place => !ws.isDirectory place

def read? (ws : Workspace) (path : String) : Option Bytes :=
  (ws.fileAt? path).bind fun place =>
    match ws.get? place with
    | some (.document content) => some content
    | _ => none

def write (ws : Workspace) (path : String) (content : Bytes) : Workspace :=
  match ws.fileAt? path with
  | some place => ws.set place (.document content)
  | none => ws

/-- The table in the store file of that path, whose directory is made if it is not there. -/
def openTable (ws : Workspace) (path : String) : Except String Table × Workspace :=
  let (made, ws) := match Path.parent? path with
    | some directory => ws.makeAlong [] (Path.names directory)
    | none => (true, ws)
  if !made then
    (.error (Command.directoryFailure ((Path.parent? path).getD "")), ws)
  else
    let failure := Command.storeFailure path
    match ws.fileAt? path with
    | none => (.error failure, ws)
    | some place =>
      match ws.get? place with
      | some (.document image) =>
        match Table.ofImage? image with
        | some table => (.ok table, ws)
        | none => (.error failure, ws)
      | _ => (.ok Table.empty, ws.set place (.document Table.empty.toImage))

/-- The configuration a run uses: that of a file, or else the built-in one. -/
def configOf (ws : Workspace) : Option String → Except String Config
  | none => .ok {}
  | some path =>
    match Config.ofFile (ws.read? path) with
    | .ok config => .ok config
    | .error _ => .error (Command.configFailure path)

/-- Runs a command; one that waits is interrupted then. -/
def perform (ws : Workspace) (config : Config) (command : Command) : Exit × Workspace :=
  let start (table : Table) : Deployment :=
    Deployment.ofStore (Store.ofBuffer config.eventBuffer table) ws.wall ws.process
  let finish (table : Table) : Exit × Table :=
    match Command.begin (start table) config command with
    | (.done out, d) => (.done out, d.access.store.table)
    | (.failed message, d) => (.failed "" message, d.access.store.table)
    | (.waits out wait, d) =>
      let (more, d) := Command.interrupt d wait
      (.done (out ++ more), d.access.store.table)
  if command.needsStore then
    match ws.openTable config.storePath with
    | (.error message, ws) => (.failed "" message, ws)
    | (.ok table, ws) =>
      let (exit, table) := finish table
      (exit, ws.write config.storePath table.toImage)
  else ((finish Table.empty).1, ws)

/-- What the program says of itself. -/
def aboutText (stop : Command.Stop) (verb : Option Command.Verb) : String :=
  let name := "steerctl" ++ (verb.map fun v => "-" ++ v.name).getD ""
  match stop with
  | .version => name ++ " 0.1.0\n"
  | _ => "Usage: " ++ name ++ " [OPTIONS] <COMMAND>\n"

/-- A whole run with the given arguments. -/
def run (ws : Workspace) (args : List String) : Exit × Workspace :=
  match Command.parse args with
  | .error (.misuse, _) => (.misused, ws)
  | .error (stop, verb) => (.done (aboutText stop verb), ws)
  | .ok invocation =>
    match ws.configOf invocation.config with
    | .error message => (.failed "" message, ws)
    | .ok config => ws.perform config invocation.command

def putInto (ws : Workspace) (path key : String) (value : Bytes) : Workspace :=
  match ws.openTable path with
  | (.ok table, ws) => ws.write path (table.insert key value).toImage
  | (.error _, ws) => ws

end Workspace

end Fairway
