import NoteDecor.Disk
import NoteDecor.Settings.Environment
import NoteDecor.Yaml.Document

/-!
Settings files and the layers that they fill. A file that cannot be loaded leaves everything as it
was; a file once loaded is known by its place and can be loaded again.
-/

namespace NoteDecor

namespace Settings

/-- `shown` is the path as the caller gave it. The last four are not about settings as such: text
that is not UTF-8, a scalar with an impossible value, a place that cannot be looked up, and a user
without a home directory. -/
inductive FileFault where
  | notFound (shown : String)
  | malformed (shown : String)
  | unreadable (shown : String) (reason : String)
  | notMapping (shown : String)
  | undecodable (f : Text.Utf8.Fault)
  | scalar (f : Yaml.Fault)
  | system (f : Disk.Fault) (name : String)
  | noHome
  deriving DecidableEq, Repr

namespace FileFault

def message : FileFault → String
  | notFound shown => "Config file not found: " ++ shown
  | malformed shown => "YAML parse error in " ++ shown ++ ": " ++ Yaml.Fault.message .malformed
  | unreadable shown reason => "Error loading config " ++ shown ++ ": " ++ reason
  | notMapping shown => "Invalid config format in " ++ shown
  | undecodable f => f.message
  | scalar f => f.message
  | system f name => f.message name
  | noHome => "Could not determine home directory."

def code? : FileFault → Option Nat
  | notFound _ => some 2
  | malformed _ | notMapping _ => some 1
  | unreadable .. => some 6
  | _ => none

end FileFault

/-- Settings that do not name the program belong to it all the same. -/
def underRoot (es : Entries) (v : Value) : Value :=
  if (es.field? root).isSome then v
  else match v with
    | .knot cells n => .knot (cells ++ [.record [(root, .cell n)]]) cells.length
    | _ => .record [(root, v)]

def parse (late : List UInt8 → Option Text.Utf8.Fault) (shown : String) (content : List UInt8) :
    Except FileFault Value := do
  let cs ← (Yaml.readText late content).mapError fun f => f.elim (.malformed shown) .undecodable
  match Yaml.load cs with
  | .error .malformed => throw (.malformed shown)
  | .error f => throw (.scalar f)
  | .ok v =>
    let v := if v.isNull then .map [] else v
    match v.entries? with
    | some es => return underRoot es v
    | none => throw (.notMapping shown)

def readAt (d : Disk) (place : Disk.Place) (shown : String) : Except FileFault Value := do
  match (← (Disk.presence (d.find place)).mapError fun f => .system f (d.nameOf place)) with
  | none => throw (.notFound shown)
  | some kind => do
    parse d.late shown (← (Disk.contentOf kind).mapError fun f =>
      .unreadable shown (f.message (d.nameOf place)))

/-- The first name in a path that no file can have, and the path down to it. -/
def badName? (p : Path) : Option (Disk.Fault × Path) :=
  let good := p.parts.takeWhile fun part => (Disk.nameFault? part).isNone
  (p.parts[good.length]?.bind Disk.nameFault?).map fun f =>
    (f, ⟨p.root, p.parts.take (good.length + 1)⟩)

def placeOf (d : Disk) (shown : String) : Except FileFault Disk.Place :=
  match d.expand? (Path.ofString shown) with
  | none => .error .noHome
  | some p =>
    match badName? p with
    | some (f, q) => .error (.system f q.text)
    | none => .ok (Disk.resolve p)

end Settings

/-- The layers and the files that were loaded into them, in the order of their first loading. -/
structure Settings where
  layers : Settings.Layers
  files : List (Disk.Place × Settings.Source)

namespace Settings

def register (place : Disk.Place) (s : Source) :
    List (Disk.Place × Source) → List (Disk.Place × Source)
  | [] => [(place, s)]
  | e :: r => if e.1 = place then (place, s) :: r else e :: register place s r

def loadAt (c : Settings) (d : Disk) (place : Disk.Place) (shown : String) (s : Source) :
    Except FileFault Settings := do
  let v ← readAt d place shown
  return ⟨c.layers.set s v, register place s c.files⟩

def loadFile (c : Settings) (d : Disk) (shown : String) (s : Source) :
    Except FileFault Settings := do
  c.loadAt d (← placeOf d shown) shown s

/-- Loads files again until one fails. What was loaded before it stays. -/
def reloadEach (d : Disk) : List (Disk.Place × Source) → Settings →
    Settings × Except FileFault Unit
  | [], c => (c, .ok ())
  | (place, s) :: r, c =>
    match c.loadAt d place (d.nameOf place) s with
    | .error f => (c, .error f)
    | .ok c => reloadEach d r c

def reloadFiles (c : Settings) (d : Disk) : Settings × Except FileFault Unit :=
  reloadEach d c.files c

inductive StartFault where
  | file (f : FileFault)
  | environment (f : PathFault)
  deriving DecidableEq, Repr

def start (d : Disk) (file : String) (vars : List (String × String)) :
    Except StartFault Settings := do
  let c : Settings := ⟨.start, []⟩
  let c ← if file = "" then pure c else (c.loadFile d file .file).mapError .file
  match (← (Environment.layer? vars).mapError .environment) with
  | none => return c
  | some v => return { c with layers := c.layers.set .environment v }

def get (c : Settings) (key : String) (default : Value) : Value := c.layers.get key default

def put (c : Settings) (key : String) (v : Value) (s : Source) : Except PathFault Settings := do
  return { c with layers := ← c.layers.put key v s }

end Settings

end NoteDecor
