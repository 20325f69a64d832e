import NoteDecor.Number.Numeral
import NoteDecor.Settings.Layers
import NoteDecor.Text.LetterCase

/-!
Settings from environment variables. The name behind the common start, in small letters, is a key
path with underscores between its parts.
-/

namespace NoteDecor.Settings.Environment

def start : String := "FMDECORATOR_"

def path? (name : String) : Option (List String) :=
  if Text.startsWith start name then
    some (Text.splitText '_' (Text.lower (String.ofList (name.toList.drop start.length))))
  else none

def value (text : String) : Value :=
  let word := Text.lower text
  if word = "true" ∨ word = "yes" then .bool true
  else if word = "false" ∨ word = "no" then .bool false
  else match Numeral.readInt 10 text.toList with
    | .ok n => .int n
    | .error _ => .text text

def collect : List (String × String) → Value → Except PathFault Value
  | [], v => .ok v
  | (name, text) :: r, v =>
    match path? name with
    | none => collect r v
    | some path => do collect r (← v.setAt path (value text))

def layer? (vars : List (String × String)) : Except PathFault (Option Value) := do
  let v ← collect vars (.map [])
  return if v.isTrue then some (.record [(root, v)]) else none

end NoteDecor.Settings.Environment
