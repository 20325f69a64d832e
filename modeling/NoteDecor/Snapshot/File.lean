import NoteDecor.Disk
import NoteDecor.Snapshot
import NoteDecor.Yaml.Document

/-!
Snapshots from files.
-/

namespace NoteDecor.Snapshot

/-- The last three are not about snapshots as such: text that is not UTF-8, a scalar with an
impossible value, and a name that no file can have. -/
inductive FileFault where
  | malformed (path : String)
  | unreadable (path : String) (f : Disk.Fault)
  | notMapping (path : String)
  | invalid (path : String) (f : Fault)
  | undecodable (f : Text.Utf8.Fault)
  | scalar (f : Yaml.Fault)
  | noName (path : String) (f : Disk.Fault)
  deriving DecidableEq, Repr

namespace FileFault

def message? : FileFault → Option String
  | malformed path =>
    some ("Failed to parse snapshot file: " ++ path ++ "\n" ++ Yaml.Fault.message .malformed)
  | unreadable path f => some ("Failed to read snapshot file: " ++ path ++ "\n" ++ f.message path)
  | notMapping path => some ("Snapshot file must contain a mapping: " ++ path)
  | invalid path f => f.message?.map fun m => "Invalid snapshot in " ++ path ++ ": " ++ m
  | _ => none

end FileFault

def parseFile (late : List UInt8 → Option Text.Utf8.Fault) (path : String)
    (content : List UInt8) : Except FileFault Snapshot := do
  let cs ← (Yaml.readText late content).mapError fun f => f.elim (.malformed path) .undecodable
  match Yaml.load cs with
  | .error .malformed => throw (.malformed path)
  | .error f => throw (.scalar f)
  | .ok v =>
    match v.entries? with
    | some es => (ofEntries es).mapError (.invalid path)
    | none => throw (.notMapping path)

def readFile (d : Disk) (path : String) : Except FileFault Snapshot :=
  match d.read path with
  | .error .nullInName => .error (.noName path .nullInName)
  | .error .unencodable => .error (.noName path .unencodable)
  | .error f => .error (.unreadable path f)
  | .ok content => parseFile d.late path content

end NoteDecor.Snapshot
