import NoteDecor.Text.Basic

/-!
Faults that come from outside: from a rule function or from whatever reads rule files. Their kind
decides how far they reach. Most say what they are about, but one that is mute raises another fault
as soon as it is asked.
-/

namespace NoteDecor

/-- An interrupt of the user and the closing of a computation are never held back. An exit or an
abort ends a computation that does not ask for it. The rest are ordinary failures. -/
inductive Fault.Kind where
  | interrupt
  | closing
  | exit
  | abort
  | missing
  | denied
  | unusable
  | named (name : String)
  deriving DecidableEq, Repr, Inhabited

/-- A fault that says what it is about. -/
structure Fault.Told where
  kind : Fault.Kind
  text : String
  deriving DecidableEq, Repr, Inhabited

inductive Fault where
  | told (f : Fault.Told)
  | mute (kind : Fault.Kind) (asked : Fault)
  deriving DecidableEq, Repr, Inhabited

namespace Fault

def kind : Fault → Kind
  | told f => f.kind
  | mute kind _ => kind

/-- What asking for the text comes to. -/
def text : Fault → Except Fault String
  | told f => .ok f.text
  | mute _ asked => .error asked

def Kind.names : List (String × Kind) :=
  [("KeyboardInterrupt", interrupt), ("GeneratorExit", closing), ("SystemExit", exit),
    ("BaseException", abort), ("FileNotFoundError", missing), ("PermissionError", denied),
    ("EvaluationError", unusable)]

def Kind.ofName (name : String) : Kind :=
  ((Kind.names.find? fun p => p.1 == name).map (·.2)).getD (named name)

def Kind.name (k : Kind) : String :=
  match k with
  | named name => name
  | _ => ((Kind.names.find? fun p => p.2 == k).map (·.1)).getD ""

def Kind.isOrdinary : Kind → Bool
  | interrupt | closing | exit | abort => false
  | _ => true

end Fault

end NoteDecor
