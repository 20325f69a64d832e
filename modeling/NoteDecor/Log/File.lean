import NoteDecor.Disk
import NoteDecor.Log.Record

/-!
Lines of a log as text, and log files that start anew before they grow too large. The last few of
the full ones are kept under numbers, the most recent as number one. A file that is renamed while
it is written is still written under its new name, and one that is replaced is written unseen.
-/

namespace NoteDecor.Log

/-- Times and traces are left open; a mark stands for each. -/
def timeMark : String := "<time>"

def traceMark : String := "<traceback>"

def endsLine (s : String) : Bool := s.toList.getLast? = some '\n'

/-- A record as it is written behind what stands in front. What an exception adds is a line of its
own. -/
def Record.lineFrom (r : Record) (start : String) : String :=
  let head := start ++ r.message
  if r.exception then (if endsLine head then head else head ++ "\n") ++ traceMark ++ "\n"
  else head ++ "\n"

def Record.line (r : Record) (logger : String) : String :=
  r.lineFrom (timeMark ++ " - " ++ logger ++ " - " ++ r.level.name ++ " - ")

/-- What is written goes to a file at a place, or to one that nobody sees any more but that still
grows, or nowhere. Files that are unseen go by numbers. -/
inductive Stream where
  | seen (parts : List String)
  | unseen (n : Nat)
  | device
  deriving DecidableEq, Repr

/-- Without a limit a file is never full, and without backups it is not ended when it is. -/
structure File where
  place : Disk.Place
  limit : Int
  backups : Int
  stream : Stream
  deriving DecidableEq, Repr

namespace File

def withSuffix (suffix : String) (parts : List String) : List String :=
  parts.dropLast ++ [parts.getLast?.getD "" ++ suffix]

def backup (parts : List String) (n : Nat) : List String := withSuffix ("." ++ toString n) parts

def renamings (parts : List String) (backups : Nat) : List (List String × List String) :=
  (List.range (backups - 1)).reverse.map fun n => (backup parts (n + 1), backup parts (n + 2))

end File

/-- A disk, the log files that are open on it, by number, and the sizes of those that are unseen. -/
structure Files where
  disk : Disk
  files : List File
  unseen : List Nat

namespace Files

def on (d : Disk) : Files := ⟨d, [], []⟩

def size (fs : Files) : Stream → Nat
  | .seen parts => ((fs.disk.content? parts).getD []).length
  | .unseen n => fs.unseen.getD n 0
  | .device => 0

def isFull (fs : Files) (f : File) (line : String) : Bool :=
  decide (0 < f.limit) && decide (f.limit ≤ fs.size f.stream + line.length)

def ensure (d : Disk) (parts : List String) : Disk :=
  if (d.content? parts).isSome then d else d.setFile parts []

def lead (fs : Files) (source target : Stream) : Files :=
  { fs with files := fs.files.map fun f =>
      { f with stream := if f.stream = source then target else f.stream } }

def remove (fs : Files) (parts : List String) : Files :=
  { fs with
    disk := fs.disk.removeFile parts
    unseen := fs.unseen ++ [fs.size (.seen parts)] }.lead (.seen parts) (.unseen fs.unseen.length)

def rename (fs : Files) (source target : List String) : Files :=
  match fs.disk.content? source with
  | none => fs
  | some content =>
    let fs := fs.remove target
    { fs with disk := (fs.disk.removeFile source).setFile target content }.lead
      (.seen source) (.seen target)

/-- Moves the backups up. A file becomes the first of them, which makes way even for nothing. -/
def shift (fs : Files) (parts : List String) (backups : Nat) : Files :=
  if backups = 0 then fs
  else
    let fs := (File.renamings parts backups).foldl (fun fs m => fs.rename m.1 m.2) fs
    (fs.remove (File.backup parts 1)).rename parts (File.backup parts 1)

def turn (fs : Files) (n : Nat) (parts : List String) (backups : Nat) : Files :=
  let fs := fs.shift parts backups
  { fs with
    disk := ensure fs.disk parts
    files := fs.files.modify n fun f => { f with stream := .seen parts } }

def write (fs : Files) (line : String) : Stream → Files
  | .seen parts =>
    let content := (fs.disk.content? parts).getD [] ++ Text.Utf8.encode line
    { fs with disk := fs.disk.setFile parts content }
  | .unseen n =>
    { fs with unseen := fs.unseen.modify n fun size => size + (Text.Utf8.encode line).length }
  | .device => fs

def makeRoom (fs : Files) (n : Nat) (line : String) (f : File) : Files :=
  match f.place with
  | .inside parts => if fs.isFull f line then fs.turn n parts f.backups.toNat else fs
  | _ => fs

def append (fs : Files) (n : Nat) (line : String) : Files :=
  match fs.files[n]? with
  | none => fs
  | some f =>
    let fs := fs.makeRoom n line f
    fs.write line ((fs.files[n]?.getD f).stream)

/-- Opens a file; it is there from then on. A fault comes with the full name. -/
def open? (fs : Files) (path : String) (limit backups : Int) :
    Except (Disk.Fault × String) (Files × Nat) := do
  let p := Path.ofString path
  let place := (Disk.resolve p).beforeNull
  let name := fs.disk.nameIn p place
  if let some fault := Disk.nameFault? name then throw (fault, name)
  (fs.disk.checkOpenable place).mapError fun fault => (fault, name)
  let (disk, stream) := match place with
    | .inside parts => (ensure fs.disk parts, Stream.seen parts)
    | _ => (fs.disk, .device)
  return ({ fs with disk, files := fs.files ++ [⟨place, limit, backups, stream⟩] }, fs.files.length)

end Files

end NoteDecor.Log
