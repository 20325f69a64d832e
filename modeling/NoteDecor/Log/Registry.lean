import NoteDecor.Fault
import NoteDecor.Log.File

/-!
Loggers by name. All loggers of one name write through one channel and so share level and sinks;
one logger at a time is the current one. Open contexts belong to no logger.
-/

namespace NoteDecor.Log

inductive Sink where
  | recorder (name : String)
  | console
  | file (n : Nat)
  deriving DecidableEq, Repr

structure Channel where
  level : Level
  sinks : List Nat
  deriving DecidableEq, Repr, Inhabited

/-- Sinks, loggers and log files go by number, and named sinks by name as well. What recorders and
the console have received is kept, oldest first. -/
structure Registry where
  channels : List (String × Channel)
  sinks : List Sink
  names : List (String × Nat)
  loggers : List String
  current : Option Nat
  contexts : List Context
  files : Files
  received : List (String × Record)
  console : List String

namespace Registry

/-- The last two are not about loggers as such: a value that cannot be written, and what a mute
fault raises when it is asked for its text. -/
inductive Fault where
  | reserved (key : String)
  | method (name : String)
  | incomplete (name : String)
  | level (f : Level.Fault)
  | file (f : Disk.Fault) (name : String)
  | unwritable
  | asked (f : NoteDecor.Fault)
  deriving Repr

def start (disk : Disk) : Registry := ⟨[], [], [], [], none, [], .on disk, [], []⟩

def channelName (name : String) : String := if name = "" then "root" else name

def channel (r : Registry) (name : String) : Channel :=
  ((r.channels.find? fun c => c.1 == channelName name).map (·.2)).getD ⟨.warning, []⟩

def setChannel (r : Registry) (name : String) (c : Channel) : Registry :=
  { r with channels := (channelName name, c) ::
      r.channels.filter fun e => e.1 != channelName name }

def addSink (r : Registry) (s : Sink) : Registry × Nat :=
  ({ r with sinks := r.sinks ++ [s] }, r.sinks.length)

def nameSink (r : Registry) (name : String) (n : Nat) : Registry :=
  { r with names := (name, n) :: r.names }

def sinkNamed (r : Registry) (name : String) : Registry × Nat :=
  match r.names.find? fun e => e.1 == name with
  | some (_, n) => (r, n)
  | none =>
    let (r, n) := r.addSink (.recorder name)
    (r.nameSink name n, n)

def sinksNamed : List String → Registry → Registry × List Nat
  | [], r => (r, [])
  | name :: names, r =>
    let (r, n) := r.sinkNamed name
    let (r, ns) := sinksNamed names r
    (r, n :: ns)

/-- A sink is attached only once. -/
def attachTo (sinks : List Nat) (n : Nat) : List Nat :=
  if sinks.contains n then sinks else sinks ++ [n]

def make (r : Registry) (name : String) (level : Level) (sinks : Option (List String)) :
    Registry × Nat :=
  let (r, ns) := match sinks with
    | some names => sinksNamed names r
    | none =>
      let (r, n) := r.addSink .console
      (r, [n])
  let r := r.setChannel name ⟨level, ns.foldl attachTo []⟩
  ({ r with loggers := r.loggers ++ [name] }, r.loggers.length)

def nameOf (r : Registry) (logger : Nat) : String := r.loggers[logger]?.getD ""

def setCurrent (r : Registry) (logger : Nat) : Registry := { r with current := some logger }

def getLogger (r : Registry) (name : String) : Registry × Nat :=
  match r.current with
  | some logger =>
    if r.nameOf logger = name then (r, logger)
    else
      let (r, logger) := r.make name .info none
      (r.setCurrent logger, logger)
  | none =>
    let (r, logger) := r.make name .info none
    (r.setCurrent logger, logger)

def level (r : Registry) (logger : Nat) : Level := (r.channel (r.nameOf logger)).level

def isEnabled (r : Registry) (logger : Nat) (level : Level) : Bool :=
  (r.level logger).admits level

def setLevel (r : Registry) (logger : Nat) (level : Level) : Registry :=
  let name := r.nameOf logger
  r.setChannel name { r.channel name with level }

def attach (r : Registry) (logger sink : Nat) : Registry :=
  let name := r.nameOf logger
  let c := r.channel name
  r.setChannel name { c with sinks := attachTo c.sinks sink }

def detach (r : Registry) (logger sink : Nat) : Registry :=
  let name := r.nameOf logger
  let c := r.channel name
  r.setChannel name { c with sinks := c.sinks.erase sink }

def openFile (r : Registry) (path : String) (limit backups : Int) :
    Except Fault (Registry × Nat) :=
  match r.files.open? path limit backups with
  | .error (f, name) => .error (.file f name)
  | .ok (files, n) => .ok ({ r with files }.addSink (.file n))

def enter (r : Registry) (c : Context) : Registry := { r with contexts := r.contexts ++ [c] }

def leave (r : Registry) : Registry := { r with contexts := r.contexts.dropLast }

def deliver (channel : String) (record : Record) (r : Registry) : Sink → Registry
  | .recorder name => { r with received := r.received ++ [(name, record)] }
  | .console => { r with console := r.console ++ [record.line channel] }
  | .file n => { r with files := r.files.append n (record.line channel) }

/-- Where no sink is attached, warnings and worse still reach the console, without any frame. -/
def deliverBare (r : Registry) (record : Record) : Registry :=
  if Level.warning.admits record.level then
    { r with console := r.console ++ [record.lineFrom ""] }
  else r

def send (r : Registry) (name : String) (record : Record) : Registry :=
  let sinks := (r.channel name).sinks.filterMap fun n => r.sinks[n]?
  if sinks.isEmpty then r.deliverBare record
  else sinks.foldl (deliver (channelName name) record) r

/-- Nothing is sent where a value of the context cannot be written. -/
def log (r : Registry) (logger : Nat) (level : Level) (message : String) (own : Context)
    (exception : Bool) : Except Fault Registry :=
  if r.isEnabled logger level then
    let record := Record.make level message r.contexts own exception
    if record.context.isWritable then .ok (r.send (r.nameOf logger) record)
    else .error .unwritable
  else .ok r

def logApart (r : Registry) (logger : Nat) (level : Level) (message : String) (own : Context) :
    Except Fault Registry :=
  ({ r with contexts := [] }.log logger level message own false).map fun (logged : Registry) =>
    { logged with contexts := r.contexts }

/-- The exception is asked for its text whether or not it is going to be logged. -/
def logException (r : Registry) (logger : Nat) (message : String) (f : NoteDecor.Fault)
    (own : Context) : Except Fault Registry := do
  let text ← f.text.mapError .asked
  r.log logger .error message (exceptionContext own f.kind.name text) true

/-- The levels that have a method of their own to log at them. An exception needs more than a
message. -/
def methodLevel (name : String) : Except Fault Level :=
  match [Level.debug, .info, .warning, .error].find? fun l => Text.lower l.name == name with
  | some l => .ok l
  | none => .error (if name = "exception" then .incomplete name else .method name)

def checkKeys (reserved : List String) (own : Context) : Except Fault Unit :=
  match own.find? fun e => reserved.contains e.1 with
  | some e => .error (.reserved e.1)
  | none => .ok ()

end Registry

end NoteDecor.Log
