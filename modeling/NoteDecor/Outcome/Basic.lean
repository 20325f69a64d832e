import NoteDecor.Value.Text

/-!
What a rule that applies brings about: class names for the document and badges beside it. A rule
function describes them by mappings, or hands over an outcome it built itself.
-/

namespace NoteDecor

/-- The class names are a list of texts and the elements nothing or a list of badges, unless the
rule function built the outcome itself: then they are whatever it put there. -/
structure Outcome where
  classNames : Value
  elements : Value
  deriving Inhabited, Repr

namespace Outcome

inductive Fault where
  | classNames
  | className
  | elements
  | badge (kind : String)
  | badgeClass
  | badgeStyle
  | unwritable
  deriving DecidableEq, Repr

def Fault.message : Fault → String
  | .classNames => "'classNames' must be a list of strings"
  | .className => "'classNames' must only contain strings"
  | .elements => "'elements' must be a list"
  | .badge kind => "decoration element must be a mapping, got " ++ kind
  | .badgeClass => "decoration element 'className' must be a string"
  | .badgeStyle => "decoration element 'style' must be a mapping"
  | .unwritable => Numeral.unwritableMessage

def empty : Outcome := ⟨.list [], .null⟩

def fieldOr (es : Entries) (name other : String) : Value :=
  (es.field? name).getD ((es.field? other).getD .null)

def readBadgeClass (es : Entries) : Except Fault Value :=
  match fieldOr es "className" "class_name" with
  | .null => .ok .null
  | .text s => .ok (.text s)
  | _ => .error .badgeClass

def readBadgeText (es : Entries) : Except Fault Value :=
  match (es.field? "text").getD .null with
  | .null => .ok .null
  | v => if v.isWritable then .ok (.text v.display) else .error .unwritable

def readBadgeStyle (es : Entries) : Except Fault Value :=
  match (es.field? "style").getD .null with
  | .null => .ok .null
  | v => match v.entries? with
    | some style => .ok (.map style)
    | none => .error .badgeStyle

def readBadge (v : Value) : Except Fault Value :=
  match v with
  | .badge .. => .ok v
  | _ => match v.entries? with
    | none => .error (.badge v.kind)
    | some es => do
      let className ← readBadgeClass es
      let text ← readBadgeText es
      let style ← readBadgeStyle es
      return .badge className text style

def readClassNames (es : Entries) : Except Fault Value :=
  match fieldOr es "classNames" "class_names" with
  | .null => .ok (.list [])
  | v => match v.items? with
    | none => .error .classNames
    | some vs => if vs.all fun w => w.text?.isSome then .ok (.list vs) else .error .className

def readElements (es : Entries) : Except Fault Value :=
  match (es.field? "elements").getD .null with
  | .null => .ok .null
  | v => match v.items? with
    | none => .error .elements
    | some vs => (vs.mapM readBadge).map .list

def ofValue (v : Value) : Except Fault (Option Outcome) :=
  match v with
  | .outcome classNames elements => .ok (some ⟨classNames, elements⟩)
  | _ => match v.entries? with
    | none => .ok none
    | some es => do
      let classNames ← readClassNames es
      let elements ← readElements es
      return some ⟨classNames, elements⟩

end Outcome

end NoteDecor
