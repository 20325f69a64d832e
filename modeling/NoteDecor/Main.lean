import NoteDecor.CommandLine.Run

/-!
The program itself. It takes the working directory as it is, runs the call on it and puts back the
files that changed. Files are decoded before anything of them is read, and rule files are read but
no function is built from them.
-/

namespace NoteDecor.Main

abbrev Tree := List (List String × List UInt8) × List (List String)

def merge (ts : Array Tree) : Tree :=
  (ts.toList.flatMap Prod.fst, ts.toList.flatMap Prod.snd)

/-- What an entry of a directory holds, down to a depth. Files that cannot be read are left out. -/
def collect : Nat → List String → IO.FS.DirEntry → IO Tree
  | 0, _, _ => return ([], [])
  | depth + 1, above, entry => do
    let parts := above ++ [entry.fileName]
    if ← entry.path.isDir then
      let inner ← (← entry.path.readDir).mapM (collect depth parts)
      return merge (inner.push ([], [parts]))
    else
      try return ([(parts, (← IO.FS.readBinFile entry.path).toList)], [])
      catch _ => return ([], [])

def depthLimit : Nat := 32

def workingDisk : IO Disk := do
  let here ← IO.currentDir
  let (files, folders) := merge (← (← here.readDir).mapM (collect depthLimit []))
  return ⟨here.toString, .ofString ((← IO.getEnv "HOME").getD "/"), files, folders,
    Text.Utf8.fault?⟩

def split (octets : List UInt8) : List (List UInt8) :=
  octets.foldr (fun b acc => match acc with
    | [] => if b = 0 then [[]] else [[b]]
    | r :: rs => if b = 0 then [] :: r :: rs else (b :: r) :: rs) []

def assignment? (octets : List UInt8) : Option (String × String) :=
  match Text.Utf8.decode octets with
  | .ok cs =>
    match cs.dropWhile (· != '=') with
    | _ :: value => some (String.ofList (cs.takeWhile (· != '=')), String.ofList value)
    | [] => none
  | .error _ => none

def environment : IO (List (String × String)) := do
  try return (split (← IO.FS.readBinFile "/proc/self/environ").toList).filterMap assignment?
  catch _ => return []

def store (old new : Disk) : IO Unit := do
  for (parts, content) in new.files do
    if old.content? parts != some content then
      IO.FS.writeBinFile (Text.joinText "/" parts) ⟨content.toArray⟩
  for (parts, _) in old.files do
    if (new.content? parts).isNone then IO.FS.removeFile (Text.joinText "/" parts)

def unbuilt : Rule.Function :=
  .error (.told ⟨.unusable, "no function can be built from a rule file here"⟩)

def finish (old : Disk) (r : CommandLine.Result) : IO UInt32 := do
  store old r.disk
  (← IO.getStdout).putStr r.out
  (← IO.getStderr).putStr r.err
  match r.exit with
  | .code n => return n.toUInt32
  | .escaped _ => return 1

end NoteDecor.Main

open NoteDecor in
def main (arguments : List String) : IO UInt32 := do
  let disk ← Main.workingDisk
  let w : CommandLine.Surroundings :=
    ⟨disk, ← Main.environment, fun _ _ _ => Main.unbuilt, fun c => (Text.half? c).isNone⟩
  match CommandLine.run w arguments with
  | .ok r => Main.finish disk r
  | .error e =>
    (← IO.getStdout).putStr e.out
    (← IO.getStderr).putStr e.err
    return e.code.toUInt32
