import NoteDecor.Path
import NoteDecor.Value.Equal
import NoteDecor.Value.Freeze
import NoteDecor.Value.Text

/-!
What is known of one document when its rules are evaluated: path, title, tags and frontmatter.
-/

namespace NoteDecor

/-- The frontmatter is frozen. -/
structure Snapshot where
  path : String
  title : String
  tags : List String
  frontmatter : Entries
  deriving Inhabited, Repr

namespace Snapshot

/-- The last two are not about snapshots as such: a tag with a number too long to be written, and
frontmatter that holds itself. -/
inductive Fault where
  | notMapping
  | path
  | tags
  | frontmatter
  | title
  | unwritable
  | endless
  deriving DecidableEq, Repr

def Fault.message? : Fault → Option String
  | .notMapping => some "snapshot must be a mapping"
  | .path => some "snapshot requires a non-empty 'path'"
  | .tags => some "snapshot 'tags' must be a list of strings"
  | .frontmatter => some "snapshot 'frontmatter' must be a mapping"
  | .title => some "snapshot 'title' must be a string"
  | .unwritable => some Numeral.unwritableMessage
  | .endless => none

def bareTag (tag : String) : String :=
  match tag.toList with
  | '#' :: r => String.ofList r
  | _ => tag

/-- Without a title the document is called after its file. -/
def build (path : String) (tags : List String) (frontmatter : Entries) (title : Option String) :
    Snapshot where
  path
  title := title.getD (Path.ofString path).stem
  tags := tags.map bareTag
  frontmatter := Value.freezeEntries frontmatter

def readPath (es : Entries) : Except Fault String :=
  match es.field? "path" with
  | some (.text s) => if s = "" then .error .path else .ok s
  | _ => .error .path

def readTags (es : Entries) : Except Fault (List Value) :=
  match (((es.field? "tags").getD .null).orElse (.list [])).items? with
  | some vs => .ok vs
  | none => .error .tags

def readFrontmatter (es : Entries) : Except Fault Entries :=
  match (((es.field? "frontmatter").getD .null).orElse (.map [])).entries? with
  | some fm => .ok fm
  | none => .error .frontmatter

def readTitle (es : Entries) : Except Fault (Option String) :=
  match (es.field? "title").getD .null with
  | .null => .ok none
  | .text s => .ok (some s)
  | _ => .error .title

def ofEntries (es : Entries) : Except Fault Snapshot := do
  let path ← readPath es
  let tags ← readTags es
  let frontmatter ← readFrontmatter es
  let title ← readTitle es
  if !tags.all Value.isWritable then throw .unwritable
  if !Value.endsEach frontmatter then throw .endless
  return build path (tags.map Value.display) frontmatter title

def ofValue (v : Value) : Except Fault Snapshot :=
  match v.entries? with
  | some es => ofEntries es
  | none => .error .notMapping

def toEntries (s : Snapshot) : Entries := Entries.fields
  [("path", .text s.path), ("title", .text s.title), ("tags", .texts s.tags),
    ("frontmatter", .map (Value.thawEntries s.frontmatter))]

def toValue (s : Snapshot) : Value := .map s.toEntries

end Snapshot

end NoteDecor
