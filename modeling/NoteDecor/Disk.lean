import NoteDecor.Path
import NoteDecor.Text.Quoted
import NoteDecor.Text.Utf8

/-!
A file tree as it is seen from the working directory, and the faults of looking something up in
it. Of the world outside the working directory only the root with its usual folders, the null device
and the directories above are there.
-/

namespace NoteDecor

/-- Files and folders by the parts of their paths; the folders on the way to either are there too.
`here` is how the working directory is called and `home` the user's own directory. A file that is read
as its text is needed may turn out malformed before octets are met that are no text; `late` says which
fault those octets are, if they are met. -/
structure Disk where
  here : String
  home : Path
  files : List (List String × List UInt8)
  folders : List (List String)
  late : List UInt8 → Option Text.Utf8.Fault
  deriving Inhabited

namespace Disk

/-- Faults of system calls, by what went wrong, and names that no file can have. -/
inductive Fault where
  | missing
  | notFolder
  | isFolder
  | nameTooLong
  | nullInName
  | unencodable
  deriving DecidableEq, Repr

def Fault.number : Fault → Nat
  | missing => 2
  | notFolder => 20
  | isFolder => 21
  | nameTooLong => 36
  | nullInName => 22
  | unencodable => 84

def Fault.reason : Fault → String
  | missing => "No such file or directory"
  | notFolder => "Not a directory"
  | isFolder => "Is a directory"
  | nameTooLong => "File name too long"
  | nullInName => "embedded null byte"
  | unencodable => "surrogates not allowed"

def unencodablePart (name : String) : String :=
  match Text.namelessRun? name.toList with
  | some (start, 1) =>
    let half := String.ofList ((name.toList.drop start).take 1)
    "character " ++ Text.quoted half ++ s!" in position {start}"
  | some (start, count) => s!"characters in position {start}-{start + count - 1}"
  | none => ""

def Fault.messageAt (f : Fault) (path shown : String) : String :=
  match f with
  | nullInName => f.reason
  | unencodable => "'utf-8' codec can't encode " ++ unencodablePart path ++ ": " ++ f.reason
  | _ => s!"[Errno {f.number}] {f.reason}: " ++ shown

def Fault.message (f : Fault) (path : String) : String := f.messageAt path (Text.quoted path)

def nameFault? (name : String) : Option Fault :=
  if name.toList.any Text.isNameless then some .unencodable
  else if name.toList.contains '\x00' then some .nullInName
  else none

/-- Inside the working directory, above it, or elsewhere under the root. -/
inductive Place where
  | inside (parts : List String)
  | above (steps : Nat)
  | elsewhere (parts : List String)
  deriving DecidableEq, Repr

/-- A device takes whatever is written and yields nothing. -/
inductive Kind where
  | file (content : List UInt8)
  | device
  | folder

def content? (d : Disk) (parts : List String) : Option (List UInt8) :=
  (d.files.find? fun f => f.1 == parts).map (·.2)

def hasFolder (d : Disk) (parts : List String) : Bool :=
  parts.isEmpty || d.folders.any parts.isPrefixOf ||
    d.files.any fun f => parts.isPrefixOf f.1 && parts.length < f.1.length

def usualFolders : List String :=
  ["bin", "boot", "dev", "etc", "home", "lib", "media", "mnt", "opt", "proc", "root", "run", "sbin",
    "srv", "sys", "tmp", "usr", "var"]

def isUsualFolder (parts : List String) : Bool :=
  match parts with
  | [] => true
  | [name] => usualFolders.contains name
  | _ => false

def kind? (d : Disk) : Place → Option Kind
  | .inside parts =>
    match d.content? parts with
    | some content => some (.file content)
    | none => if d.hasFolder parts then some .folder else none
  | .above _ => some .folder
  | .elsewhere parts =>
    if parts == ["dev", "null"] then some .device
    else if isUsualFolder parts then some .folder else none

def Place.up : Place → Place
  | inside [] => above 1
  | inside parts => inside parts.dropLast
  | above n => above (n + 1)
  | elsewhere parts => elsewhere parts.dropLast

/-- Nothing is known below the directories above; a name there leads nowhere. -/
def Place.down (name : String) : Place → Place
  | inside parts => inside (parts ++ [name])
  | above n => elsewhere [toString n, name]
  | elsewhere parts => elsewhere (parts ++ [name])

def walk (d : Disk) (place : Place) : List String → Except Fault Place
  | [] => .ok place
  | part :: parts =>
    match d.kind? place with
    | none => .error .missing
    | some (.file _) | some .device => .error .notFolder
    | some .folder =>
      if part = ".." then walk d place.up parts
      else if part = "." then walk d place parts
      else if 255 < part.utf8ByteSize then .error .nameTooLong
      else walk d (place.down part) parts

def start (s : String) : Place := if s.toList.head? = some '/' then .elsewhere [] else .inside []

def locate (d : Disk) (path : String) : Except Fault Place :=
  let parts := Text.splitText '/' path
  match nameFault? path with
  | some f => .error f
  | none =>
    if path = "" then .error .missing
    else if 4096 ≤ path.utf8ByteSize then .error .nameTooLong
    else
      let ending := if parts.getLast? = some "" then ["."] else []
      d.walk (start path) (parts.filter (· != "") ++ ending)

def kindAt (d : Disk) (place : Place) : Except Fault Kind :=
  match d.kind? place with
  | some kind => .ok kind
  | none => .error .missing

def look (d : Disk) (path : String) : Except Fault Kind := do
  d.kindAt (← d.locate path)

def contentOf : Kind → Except Fault (List UInt8)
  | .file content => .ok content
  | .device => .ok []
  | .folder => .error .isFolder

def read (d : Disk) (path : String) : Except Fault (List UInt8) := do
  contentOf (← d.look path)

def presence (found : Except Fault Kind) : Except Fault (Option Kind) :=
  match found with
  | .ok kind => .ok (some kind)
  | .error .missing | .error .notFolder | .error .nullInName | .error .unencodable => .ok none
  | .error f => .error f

/-- The place that a path names when steps up simply take back the part before them. -/
def resolve (p : Path) : Place :=
  p.parts.foldl (fun place part => if part = ".." then place.up else place.down part)
    (if p.isAbsolute then .elsewhere [] else .inside [])

def nameOf (d : Disk) : Place → String
  | .inside parts => Text.joinText "/" (d.here :: parts)
  | .above n => Text.joinText "/" (d.here :: List.replicate n "..")
  | .elsewhere parts => "/" ++ Text.joinText "/" parts

def nameIn (d : Disk) (p : Path) (place : Place) : String :=
  (if p.root = "//" then "/" else "") ++ d.nameOf place

def find (d : Disk) (place : Place) : Except Fault Kind :=
  match place with
  | .inside parts => do d.kindAt (← d.walk (.inside []) parts)
  | .above _ => .ok .folder
  | .elsewhere parts => do d.kindAt (← d.walk (.elsewhere []) parts)

/-- Text can be written to a file that is there or whose folder is. -/
def checkWritable (d : Disk) (place : Place) : Except Fault Unit :=
  match d.find place with
  | .ok .folder => .error .isFolder
  | .ok _ => .ok ()
  | .error .missing => do
    match (← d.find place.up) with
    | .folder => .ok ()
    | _ => .error .notFolder
  | .error f => .error f

def beforeNull : List String → List String
  | [] => []
  | part :: parts =>
    if part.toList.contains '\x00' then [String.ofList (part.toList.takeWhile (· != '\x00'))]
    else part :: beforeNull parts

def Place.beforeNull : Place → Place
  | inside parts => inside (Disk.beforeNull parts)
  | above n => above n
  | elsewhere parts => elsewhere (Disk.beforeNull parts)

def Place.isSlashed : Place → Bool
  | inside parts | elsewhere parts => parts.getLast? == some ""
  | above _ => false

/-- A file is opened for writing, and made if it is not there. A name that ends in a slash asks for
a folder to be made that way. -/
def checkOpenable (d : Disk) (place : Place) : Except Fault Unit :=
  if place.isSlashed then do
    d.checkWritable place.up
    throw .isFolder
  else d.checkWritable place

def putFile (parts : List String) (content : List UInt8) :
    List (List String × List UInt8) → List (List String × List UInt8)
  | [] => [(parts, content)]
  | f :: r => if f.1 = parts then (parts, content) :: r else f :: putFile parts content r

def setFile (d : Disk) (parts : List String) (content : List UInt8) : Disk :=
  { d with files := putFile parts content d.files }

def addFolder (d : Disk) (parts : List String) : Disk := { d with folders := parts :: d.folders }

def removeFile (d : Disk) (parts : List String) : Disk :=
  { d with files := d.files.filter fun f => f.1 != parts }

def write (d : Disk) (content : List UInt8) : Place → Disk
  | .inside parts => d.setFile parts content
  | _ => d

def usualHomes : List (String × List String) :=
  [("~root", ["root"]), ("~daemon", ["usr", "sbin"]), ("~bin", ["bin"]),
    ("~nobody", ["nonexistent"])]

def homeOf? (d : Disk) (part : String) : Option Path :=
  if part = "~" then some d.home
  else (usualHomes.find? fun h => h.1 == part).map fun h => ⟨"/", h.2⟩

def expand? (d : Disk) (p : Path) : Option Path :=
  match p.root, p.parts with
  | "", part :: parts =>
    if part.toList.head? = some '~' then (d.homeOf? part).map fun h => ⟨h.root, h.parts ++ parts⟩
    else some p
  | _, _ => some p

end Disk

end NoteDecor
