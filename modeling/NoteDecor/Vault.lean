import NoteDecor.Disk
import NoteDecor.Fault

/-!
Reading rule files from a directory. A path in the settings is taken relative to it, unless it is
absolute.
-/

namespace NoteDecor.Vault

/-- The directory that a text names, unless it is the home of a user who has none. -/
def locate? (d : Disk) (named : String) : Option Path := d.expand? (Path.ofString named)

def kindOf : Disk.Fault → Fault.Kind
  | .missing => .missing
  | .notFolder => .named "NotADirectoryError"
  | .isFolder => .named "IsADirectoryError"
  | .nameTooLong => .named "OSError"
  | .nullInName => .named "ValueError"
  | .unencodable => .named "UnicodeEncodeError"

def ofDiskFault (path : String) (f : Disk.Fault) : Fault.Told := ⟨kindOf f, f.message path⟩

def decode (content : List UInt8) : Except Fault.Told String :=
  match Text.Utf8.decode content with
  | .ok cs => .ok (String.ofList (Text.unifyBreaks cs))
  | .error f => .error ⟨.named "UnicodeDecodeError", f.message⟩

def read (d : Disk) (root : Path) (file : String) : Except Fault.Told String := do
  let path := (root.join (Path.ofString file)).text
  decode (← (d.read path).mapError (ofDiskFault path))

end NoteDecor.Vault
