import NoteDecor.Fault
import NoteDecor.Outcome.Basic
import NoteDecor.Snapshot

/-!
Running a rule function once. What goes wrong while it is built, runs or describes its outcome is one
failed evaluation; an interrupt and a closing of the computation pass through, and so does what is
raised where a mute fault is asked for its text.
-/

namespace NoteDecor

abbrev Rule.Function := Except NoteDecor.Fault (Snapshot → Except NoteDecor.Fault Value)

namespace Evaluation

inductive Cause where
  | raised (f : Fault.Told)
  | misshapen (f : Outcome.Fault)
  deriving DecidableEq, Repr

/-- A failed evaluation has a cause, unless asking for its text raises a fault of its own. Anything
else stops the evaluation as it is. -/
inductive Fault where
  | failed (c : Cause)
  | mute (asked : NoteDecor.Fault)
  | stopped (f : NoteDecor.Fault)
  deriving DecidableEq, Repr

def Cause.message : Cause → String
  | .raised f => if f.kind = .unusable then f.text else f.kind.name ++ ": " ++ f.text
  | .misshapen f => "ValueError: " ++ f.message

def passesThrough (k : Fault.Kind) : Bool := k = .interrupt || k = .closing

/-- A fault that is raised while another one is asked for its text is not introduced again. -/
def ofAsked (f : NoteDecor.Fault) : Fault :=
  if f.kind = .unusable then
    match f with
    | .told f => .failed (.raised f)
    | .mute _ asked => .mute asked
  else .stopped f

def ofFault (f : NoteDecor.Fault) : Fault :=
  if passesThrough f.kind then .stopped f
  else match f with
    | .told f => .failed (.raised f)
    | .mute kind asked => if kind = .unusable then .mute asked else ofAsked asked

def run (function : Rule.Function) (s : Snapshot) : Except Fault (Option Outcome) := do
  let call ← function.mapError ofFault
  let v ← (call s).mapError ofFault
  (Outcome.ofValue v).mapError fun f => .failed (.misshapen f)

end Evaluation

end NoteDecor
