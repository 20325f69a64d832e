import NoteDecor.Frontmatter
import NoteDecor.Rule.Basic

/-!
Rules as they are kept in settings, and every way in which such settings can be wrong.
-/

namespace NoteDecor

inductive Criteria.Fault where
  | notMapping (kind : String)
  | key (key : Value)
  | item (key : String) (item : Value)
  | value (key : String) (value : Value)
  | unwritable
  deriving Repr

namespace Criteria

def Fault.message : Fault → String
  | .notMapping kind => "Frontmatter criteria must be a mapping, got " ++ kind
  | .key k => "Frontmatter key must be a string: " ++ k.literal
  | .item k v => s!"Frontmatter criterion '{k}' may only list scalars, got " ++ v.literal
  | .value k v =>
    s!"Frontmatter criterion '{k}' must be a scalar or list of scalars, got " ++ v.literal
  | .unwritable => Numeral.unwritableMessage

def isScalar (v : Value) : Bool := v.comparable?.isSome

/-- A fault that shows a value, unless the value cannot be written. -/
def refuse (f : Fault) (v : Value) : Except Fault Unit :=
  .error (if v.isWritable then f else .unwritable)

def checkScalar (f : Fault) (v : Value) : Except Fault Unit :=
  if isScalar v && v.isWritable then .ok () else refuse f v

def checkValue (key : String) (v : Value) : Except Fault Unit :=
  match v.items? with
  | some vs => vs.forM fun w => checkScalar (.item key w) w
  | none => checkScalar (.value key v) v

def checkEntry (e : Value × Value) : Except Fault Unit :=
  match e.1 with
  | .text key => checkValue key e.2
  | k => refuse (.key k) k

def checkFrontmatter (v : Value) : Except Fault Entries :=
  match v.entries? with
  | none => .error (.notMapping v.kind)
  | some es => do
    es.forM checkEntry
    return es

end Criteria

namespace Rule

/-- `id` is shown as it stands in the settings. -/
inductive Fault where
  | notList
  | notMapping (kind : String)
  | noId
  | className (id : Value)
  | enabled (id : Value)
  | config
  | tokensNotList (key : String)
  | tokensNotTexts (key : String)
  | filePath
  | criteria (f : Criteria.Fault)
  | duplicate (id : String)
  | unwritable
  deriving Repr

def Fault.message : Fault → String
  | .notList => "'rules' must be a list"
  | .notMapping kind => "Rule entry must be a mapping, got " ++ kind
  | .noId => "Rule entry requires an 'id'"
  | .className id => "Rule " ++ id.display ++ ": 'className' must be a string"
  | .enabled id => "Rule " ++ id.display ++ ": 'enabled' must be true or false"
  | .config => "Rule 'config' must be a mapping"
  | .tokensNotList key => s!"Rule config '{key}' must be a list of strings"
  | .tokensNotTexts key => s!"Rule config '{key}' must only contain strings"
  | .filePath => "Rule config 'filePath' must be a string"
  | .criteria f => f.message
  | .duplicate id => "Duplicate rule id: " ++ id
  | .unwritable => Numeral.unwritableMessage

def Fault.isUnwritable : Fault → Bool
  | .unwritable | .criteria .unwritable => true
  | _ => false

def Fault.code? (f : Fault) : Option Nat := if f.isUnwritable then none else some 1

/-- What is shown of a rule has to be writable. -/
def checkWritable (v : Value) : Except Fault Unit :=
  if v.isWritable then .ok () else .error .unwritable

def readTokens (es : Entries) (key : String) : Except Fault (List String) :=
  match (((es.field? key).getD .null).orElse (.list [])).items? with
  | none => .error (.tokensNotList key)
  | some vs => match vs.mapM Value.text? with
    | none => .error (.tokensNotTexts key)
    | some ss => .ok ss

def readCriteria (es : Entries) : Except Fault Criteria := do
  let tags ← readTokens es "tags"
  let paths ← readTokens es "paths"
  let titles ← readTokens es "titles"
  let stated := ((es.field? "frontmatter").getD .null).orElse (.map [])
  let frontmatter ← (Criteria.checkFrontmatter stated).mapError Fault.criteria
  return Criteria.make tags paths titles frontmatter

def fieldOr (es : Entries) (name other : String) (default : Value) : Value :=
  (es.field? name).getD ((es.field? other).getD default)

def Config.ofValue (v : Value) : Except Fault Config :=
  match v.entries? with
  | none => .error .config
  | some es =>
    let type := (es.field? "type").getD .null
    if type.isKey "individual" then (readCriteria es).map .criteria
    else if type.isKey "function-file" then
      match fieldOr es "filePath" "file_path" (.text "") with
      | .text path => .ok (.functionFile path)
      | _ => .error .filePath
    else do
      checkWritable type
      return .unrecognized type.display (es.filter fun e => !e.1.isKey "type")

def readId (es : Entries) : Except Fault Value :=
  match es.field? "id" with
  | none | some .null | some (.text "") => .error .noId
  | some v => .ok v

def ofValue (v : Value) : Except Fault Rule :=
  match v.entries? with
  | none => .error (.notMapping v.kind)
  | some es => do
    let id ← readId es
    let .text className := fieldOr es "className" "class_name" (.text "")
      | checkWritable id; throw (.className id)
    let .bool enabled := (es.field? "enabled").getD (.bool true)
      | checkWritable id; throw (.enabled id)
    let name := (es.field? "name").getD (.text "")
    checkWritable id
    checkWritable name
    let config ← Config.ofValue (((es.field? "config").getD .null).orElse (.map []))
    return ⟨id.display, name.display, enabled, className, config⟩

/-- Reads rules in order. `taken` are the ids that earlier rules have. -/
def readAll (taken : List String) : List Value → Except Fault (List Rule)
  | [] => .ok []
  | v :: vs => do
    let rule ← ofValue v
    if taken.contains rule.id then throw (.duplicate rule.id)
    let rules ← readAll (rule.id :: taken) vs
    return rule :: rules

def listOfValue : Value → Except Fault (List Rule)
  | .null => .ok []
  | v => match v.items? with
    | some vs => readAll [] vs
    | none => .error .notList

end Rule

end NoteDecor
