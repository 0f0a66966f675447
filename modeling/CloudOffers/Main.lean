import CloudOffers.Tool.Rpc
import Std.Internal.UV.System
import Std.Sync.Mutex
import Std.Time.DateTime.Timestamp
/-!
The program: serves the tools over standard input and output while the catalogs are refreshed beside.
-/

open CloudOffers

namespace CloudOffers.Program

def readFile (path : String) : IO (Except SourceError Json.Bytes) := do
  try
    return .ok (← IO.FS.readBinFile path).toList
  catch
    | .noFileOrDirectory .. => return .error .noSuchFile
    | e => return .error (.unreadable (toString e))

def readFiles (paths : List String) : IO Server.Files := do
  let contents ← paths.mapM (fun path ↦ return (path, ← readFile path))
  return fun path ↦
    match contents.find? (fun e ↦ e.1 = path) with
    | some (_, content) => content
    | none => .error .noSuchFile

def readText? (path : String) : IO (Option String) := do
  try
    return some (← IO.FS.readFile path)
  catch _ => return none

/-- Writes log events, the errors among them, to standard error. -/
def writeLog (events : List Log.Event) : IO Unit :=
  events.forM (fun e ↦
    if Log.Level.error.severity ≤ e.level.severity then
      IO.eprintln (Json.obj [("level", .str e.level.name), ("message", .str e.message),
        ("fields", .obj (e.fields.map (fun f ↦ (f.1, .str f.2))))]).compact
    else return ())

/-- When the program started, by the wall clock and by the clock that never goes back, in nanoseconds. -/
structure Origin where
  wall : Nat
  mono : Nat

namespace Origin

def now : IO Origin := do
  let wall ← Std.Time.Timestamp.now
  return ⟨wall.toNanosecondsSinceUnixEpoch.val.toNat, ← IO.monoNanosNow⟩

def wallAt (o : Origin) (nanos : Nat) : Nat := o.wall + nanos

end Origin

def catchUp (o : Origin) (shared : Std.Mutex Server) : IO Unit :=
  shared.atomically do
    let s ← get
    let span := (← IO.monoNanosNow) - o.mono - s.timeline.now
    let files ← readFiles (s.timeline.sources.map (·.path))
    let (s, events) := s.advance o.wallAt files span
    set s
    writeLog events

/-- Ends the refreshes. No cycle is left waiting, as the files answer at once. -/
def shutDown (o : Origin) (shared : Std.Mutex Server) : IO Unit :=
  shared.atomically do
    let s ← get
    let files ← readFiles (s.timeline.sources.map (·.path))
    let (s, events) := s.shutdown o.wallAt files
    set s
    writeLog events

partial def keepUp (o : Origin) (shared : Std.Mutex Server) (stop : IO.Ref Bool) : IO Unit := do
  if ← stop.get then return
  catchUp o shared
  IO.sleep 100
  keepUp o shared stop

partial def serve (o : Origin) (shared : Std.Mutex Server) : IO Unit := do
  let line ← (← IO.getStdin).getLine
  if line.isEmpty then return
  match Json.read .any (Json.bytes line) with
  | .error _ => pure ()
  | .ok message =>
    let (reply, events) ← shared.atomically (return Rpc.respond o.wallAt (← get) message)
    writeLog events
    match reply with
    | some reply =>
      let out ← IO.getStdout
      out.putStrLn reply.compact
      out.flush
    | none => pure ()
  serve o shared

def fail (e : StartError) : IO UInt32 := do
  e.report.forM IO.eprintln
  return 1

end CloudOffers.Program

open CloudOffers.Program in
def main : IO UInt32 := do
  let vars := (← Std.Internal.UV.System.osEnviron).toList
  let text? ← match Environment.file? vars with
    | some path => readText? path
    | none => pure none
  match Settings.load vars (fun _ ↦ text?) with
  | .error e => fail (.settings e)
  | .ok settings =>
    writeLog settings.validationLog
    let files ← readFiles (settings.providers.map settings.catalogPath)
    writeLog (Server.openLog settings files settings.providers)
    match Server.ofSettings settings files with
    | .error e => fail e
    | .ok server =>
      let origin ← Origin.now
      let shared ← Std.Mutex.new server
      let stop ← IO.mkRef false
      let refreshing ← IO.asTask (keepUp origin shared stop) .dedicated
      serve origin shared
      writeLog [Log.info "client disconnected" []]
      stop.set true
      let _ ← IO.wait refreshing
      catchUp origin shared
      shutDown origin shared
      return 0
