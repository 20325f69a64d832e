import NoteDecor.CommandLine.Arguments
import NoteDecor.CommandLine.Reply
import NoteDecor.Log.File
import NoteDecor.Snapshot.File
import NoteDecor.Workspace

/-!
A whole call: arguments, settings, log, engine and command. Faults in what the user provides are
told in one message and give exit code one; some of them escape.
-/

namespace NoteDecor.CommandLine

/-- What a call finds. Standard output takes the characters of its encoding. -/
structure Surroundings where
  disk : Disk
  environment : List (String × String)
  function : Nat → (source path : String) → Rule.Function
  takes : Char → Bool

/-- Faults that leave a call as they are. -/
inductive Escape where
  | system (f : Fault.Told)
  | settings (f : Settings.FileFault)
  | path (f : Settings.PathFault)
  | level (f : Log.Level.Fault)
  | logName
  | vault
  | noHome
  | snapshot (f : Snapshot.FileFault)
  | obstacle (o : Obstacle)
  deriving Repr

inductive Failure where
  | told (message : String)
  | interrupted
  | escaped (e : Escape)
  deriving Repr

/-- How a call ends: with an exit code or with a fault that nobody caught. -/
inductive Exit where
  | code (n : Nat)
  | escaped (e : Escape)
  deriving Repr

structure Result where
  exit : Exit
  out : String
  err : String
  disk : Disk

namespace Failure

def exit : Failure → Exit
  | told _ => .code 1
  | interrupted => .code 130
  | escaped e => .escaped e

def err : Failure → String
  | told message => "Error: " ++ message ++ "\n"
  | interrupted => "\nInterrupted by user\n"
  | escaped _ => ""

def ofObstacle : Obstacle → Failure
  | .stop (.raised f) =>
    if f.kind = .interrupt then interrupted else escaped (.obstacle (.stop (.raised f)))
  | o => escaped (.obstacle o)

def ofFileFault (f : Settings.FileFault) : Failure :=
  if f.code?.isSome then told f.message else escaped (.settings f)

def ofWorkspace : Workspace.Fault → Failure
  | .rules f =>
    if f.isUnwritable then escaped (.obstacle (.stop (.misuse .unwritable)))
    else told ("Invalid rule settings: " ++ f.message)
  | .vault => escaped .vault
  | .noHome => escaped .noHome
  | .path f => escaped (.path f)
  | .file f => ofFileFault f
  | .stop s => ofObstacle (.stop s)
  | .listener name => told name

end Failure

def findConfig (d : Disk) (given : Option String) : Except Failure String := do
  let name := given.getD ""
  if name = "" then return name
  let path := (Path.ofString name).text
  match (← (Disk.presence (d.look path)).mapError fun f =>
    .escaped (.system (Vault.ofDiskFault path f))) with
  | some (.file _) => return name
  | _ => throw (.told ("Configuration file does not exist: " ++ name))

def ofStart : Settings.StartFault → Failure
  | .file f => .ofFileFault f
  | .environment f => .escaped (.path f)

/-- A text given on the command line takes the place of a setting, unless it is empty. -/
def override (c : Settings) (key : String) (given : Option String) : Except Failure Settings :=
  match given.filter (· != "") with
  | none => .ok c
  | some text => (c.put key (.text text) .arguments).mapError fun f => .escaped (.path f)

def configure (w : Surroundings) (o : Options) : Except Failure Settings := do
  let file ← findConfig w.disk o.config.join
  let c ← (Settings.start w.disk file w.environment).mapError ofStart
  let c ← override c "fmdecorator.vault" o.vault.join
  let c ← override c "fmdecorator.logging.level" (if o.debug then some "DEBUG" else none)
  override c "fmdecorator.logging.file" o.logFile.join

def levelOf (c : Settings) : Except Failure Log.Level :=
  (Log.Level.ofValue (c.get "fmdecorator.logging.level" (.text "INFO"))).mapError fun f =>
    .escaped (.level f)

def logLimit : Nat := 5 * 1024 * 1024

def logBackups : Nat := 3

def openLogFile (d : Disk) (name : String) (shown : String → String) : Except Failure Log.Files :=
  match (Log.Files.on d).open? name logLimit logBackups with
  | .ok (files, _) => .ok files
  | .error (f, name) =>
    .error (.escaped (.system ⟨Vault.kindOf f, f.messageAt name (shown name)⟩))

def openLog (d : Disk) (c : Settings) : Except Failure Log.Files :=
  match (c.get "fmdecorator.logging.file" .null).orElse .null with
  | .null => .ok (.on d)
  | .text name => openLogFile d name Text.quoted
  | .bytes name =>
    openLogFile d (Text.Utf8.nameOf name) fun s => Text.quotedOctets (Text.Utf8.octetsOf s)
  | _ => .error (.escaped .logName)

def writeLog (files : Log.Files) (records : List Log.Record) : Log.Files :=
  records.foldl (fun files r => files.append 0 (r.line programName)) files

def Line.display : Line → String
  | record r => r.line programName
  | text s => s

/-- Rule files may be read from the log as well. -/
def hostAt (w : Surroundings) (log : Log.Files) (root : Path) : Host :=
  ⟨fun records _ path => (Vault.read (writeLog log records).disk root path).mapError .told,
    w.function, .inline⟩

def startEngine (d : Disk) (c : Settings) (level : Log.Level) : Except Failure (Path × Engine) := do
  let root ← (Workspace.vaultOf d c).mapError .ofWorkspace
  let work ← (Workspace.start c level).mapError .ofWorkspace
  return (root, work.engine)

def readSnapshot (d : Disk) (path : String) : Except Failure Snapshot :=
  (Snapshot.readFile d path).mapError fun f =>
    match f.message? with
    | some message => .told message
    | none => .escaped (.snapshot f)

def perform (w : Surroundings) (log : Log.Files) (c : Settings) (level : Log.Level)
    (command : Command) : Except Failure Reply := do
  let (root, e) ← startEngine log.disk c level
  match command with
  | .check => return check w.takes (hostAt w log root) e
  | .evaluate file =>
    return evaluate w.takes (hostAt w log root) e (← readSnapshot log.disk file)

def failed (d : Disk) (written : String) (f : Failure) : Result :=
  ⟨f.exit, "", written ++ f.err, d⟩

def Line.record? : Line → Option Log.Record
  | record r => some r
  | text _ => none

def deliver (log : Log.Files) (r : Reply) : Result :=
  let d := (writeLog log (r.lines.filterMap Line.record?)).disk
  let written := String.join (r.lines.map Line.display)
  match r.result with
  | .ok a => ⟨.code a.code, a.out, written, d⟩
  | .error o => failed d written (.ofObstacle o)

def runWith (w : Surroundings) (a : Arguments) : Result :=
  match (do let c ← configure w a.options; return (c, ← levelOf c)) with
  | .error f => failed w.disk "" f
  | .ok (c, level) =>
    match openLog w.disk c with
    | .error f => failed w.disk "" f
    | .ok log =>
      match perform w log c level a.command with
      | .error f => failed log.disk "" f
      | .ok r => deliver log r

/-- Runs the program on the arguments of a call. -/
def run (w : Surroundings) (arguments : List String) : Except Ending Result := do
  return runWith w (← Arguments.read arguments)

end NoteDecor.CommandLine
