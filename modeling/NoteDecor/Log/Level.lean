import NoteDecor.Text.LetterCase
import NoteDecor.Value.Equal
import NoteDecor.Value.Text

/-!
The five levels of log records, by name and by number.
-/

namespace NoteDecor.Log

inductive Level where
  | debug
  | info
  | warning
  | error
  | critical
  deriving DecidableEq, Repr, Inhabited

namespace Level

def all : List Level := [debug, info, warning, error, critical]

def number : Level → Nat
  | debug => 10
  | info => 20
  | warning => 30
  | error => 40
  | critical => 50

def name : Level → String
  | debug => "DEBUG"
  | info => "INFO"
  | warning => "WARNING"
  | error => "ERROR"
  | critical => "CRITICAL"

def admits (threshold level : Level) : Bool := threshold.number ≤ level.number

inductive Fault where
  | name (asked : String)
  | number (asked : Value)
  deriving Repr

def Fault.message : Fault → String
  | .name s => Text.quoted s
  | .number v =>
    if v.isWritable then v.literal ++ " is not a valid LogLevel" else Numeral.unwritableMessage

def ofValue (v : Value) : Except Fault Level :=
  match v with
  | .text s =>
    match all.find? fun l => l.name == Text.upper s with
    | some l => .ok l
    | none => .error (.name (Text.upper s))
  | _ =>
    match all.find? fun l => (Value.int l.number).same v with
    | some l => .ok l
    | none => .error (.number v)

end Level

end NoteDecor.Log
