import NoteDecor.Value.Freeze
import NoteDecor.Value.Text

/-!
Rules: a name, a switch, a class and a config that says when the rule applies.
-/

namespace NoteDecor

/-- What a document must or must not have. The frontmatter is frozen. -/
structure Criteria where
  tags : List String
  paths : List String
  titles : List String
  frontmatter : Entries
  deriving Inhabited, Repr

inductive Rule.Config where
  | criteria (c : Criteria)
  | functionFile (path : String)
  | unrecognized (type : String) (options : Entries)
  deriving Inhabited, Repr

structure Rule where
  id : String
  name : String
  enabled : Bool
  className : String
  config : Rule.Config
  deriving Inhabited, Repr

def Criteria.make (tags paths titles : List String) (frontmatter : Entries) : Criteria :=
  ⟨tags, paths, titles, Value.freezeEntries frontmatter⟩

def Rule.Config.toEntries : Rule.Config → Entries
  | criteria c => Entries.fields
    [("type", .text "individual"), ("tags", .texts c.tags), ("paths", .texts c.paths),
      ("titles", .texts c.titles), ("frontmatter", .map (Value.thawEntries c.frontmatter))]
  | functionFile path => Entries.fields
    [("type", .text "function-file"), ("filePath", .text path)]
  | unrecognized type options =>
    Entries.setField "type" (.text type) (Value.thawEntries options)

namespace Rule

def Config.toValue (c : Config) : Value := .map c.toEntries

def toValue (r : Rule) : Value := .record
  [("id", .text r.id), ("name", .text r.name), ("enabled", .bool r.enabled),
    ("className", .text r.className), ("config", r.config.toValue)]

def Config.ends : Config → Bool
  | .criteria _ | .functionFile _ => true
  | .unrecognized _ options => Value.endsEach options

/-- What keeps a rule from being written down: its config holds itself. -/
inductive WriteFault where
  | endless
  deriving DecidableEq, Repr

def write (r : Rule) : Except WriteFault Value :=
  if r.config.ends then .ok r.toValue else .error .endless

def writeAll (rules : List Rule) : Except WriteFault (List Value) := rules.mapM write

def filePath? (r : Rule) : Option String :=
  match r.config with
  | .functionFile path => some path
  | _ => none

def usedFile? (r : Rule) : Option String := if r.enabled then r.filePath? else none

def containerClass (r : Rule) : String := "fmd-container-" ++ r.id

def stateAttribute (r : Rule) : String := "data-fmd-classes-" ++ r.id

end Rule

end NoteDecor
