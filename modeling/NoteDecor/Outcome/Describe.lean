import NoteDecor.Outcome.Basic
import NoteDecor.Value.Use

/-!
Outcomes and badges as plain mappings, and the style of a badge as a style sheet spells it. An
outcome that a rule function built itself may hold parts that cannot be described.
-/

namespace NoteDecor

namespace Value

def describeStyle (style : Value) : Except Misuse (List (String × Value)) :=
  if style.isNull then .ok [] else do return [("style", .map (← style.toEntries))]

def describeBadge (className text style : Value) : Except Misuse Value := do
  let first := if className.isNull then [] else [("className", className)]
  let second := if text.isNull then [] else [("text", text)]
  return record (first ++ second ++ (← describeStyle style))

mutual

def describe : Value → Except Misuse Value
  | badge c t s => describeBadge c t s
  | outcome c e => do
    let names ← c.walk
    match e with
    | null => return record [("classNames", list names)]
    | list xs | tuple xs => return record [("classNames", list names),
        ("elements", list (← describeAll xs))]
    | other =>
      if (← other.walk).isEmpty then
        return record [("classNames", list names), ("elements", list [])]
      else throw .member
  | _ => .error .member

def describeAll : List Value → Except Misuse (List Value)
  | [] => .ok []
  | x :: xs => do
    let y ← describe x
    let ys ← describeAll xs
    return y :: ys

end

def hyphenated (key : String) : String :=
  String.ofList (key.toList.flatMap fun c => if c.isUpper then ['-', c.toLower] else [c])

def putProperties (acc : Entries) : Entries → Except Misuse Entries
  | [] => .ok acc
  | (.text key, v) :: r =>
    if v.isWritable then putProperties (acc.setField (hyphenated key) (.text v.display)) r
    else .error .unwritable
  | _ => .error .operand

/-- The properties of a badge's style, as a style sheet spells them. -/
def cssProperties : Value → Except Misuse Entries
  | badge _ _ style =>
    if !style.isTrue then .ok []
    else match style.entries? with
      | some es => putProperties [] es
      | none => .error .member
  | _ => .error .member

end Value

namespace Outcome

def toValue (o : Outcome) : Except Misuse Value := (Value.outcome o.classNames o.elements).describe

def givenNames (o : Outcome) : Except Misuse (List Value) := do
  return (← o.classNames.walk).filter Value.isTrue

/-- The badges one by one, if there are to be any. -/
def badges (o : Outcome) : Except Misuse (List Value) :=
  if o.elements.isNull then .ok [] else o.elements.walk

end Outcome

end NoteDecor
