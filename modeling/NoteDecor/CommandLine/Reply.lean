import NoteDecor.Engine.Evaluation
import NoteDecor.Notice.Render
import NoteDecor.Value.Json

/-!
The two commands on an engine. Both read all rule files first; a check reports those that cannot
be read, an evaluation mentions them and goes on.
-/

namespace NoteDecor.CommandLine

/-- What a command writes to standard error. -/
inductive Line where
  | record (r : Log.Record)
  | text (s : String)
  deriving Repr

/-- What keeps a command from its end. -/
inductive Obstacle where
  | stop (s : Stop)
  | notice (f : Notice.Fault)
  | unprintable (c : Char)
  deriving Repr

structure Answer where
  code : Nat
  out : String
  deriving DecidableEq, Repr

structure Reply where
  lines : List Line
  result : Except Obstacle Answer
  deriving Repr

def linesOf (e : Engine) : List Line := e.journal.records.map .record

def linesSince (before after : Engine) : List Line :=
  (after.journal.records.drop before.journal.records.length).map .record

/-- Prints a line. Standard output only takes the characters of its encoding, and of a line with
any other one nothing is printed; standard error shows those in a form of its own. -/
def print (takes : Char → Bool) (text : String) : Except Obstacle String :=
  match text.toList.find? fun c => !takes c with
  | none => .ok (text ++ "\n")
  | some c => .error (.unprintable c)

def checked (takes : Char → Bool) (e : Engine) (ws : List Warning) : Except Obstacle Answer := do
  if ws.isEmpty then
    return ⟨0, ← print takes (toString (Engine.functionRules e.rules).length ++
      " rule file(s) loaded")⟩
  else return ⟨1, ← print takes (← (Notice.default ws).mapError .notice)⟩

def check (takes : Char → Bool) (h : Host) (e : Engine) : Reply :=
  let (e, result) := e.preloadRules h
  ⟨linesOf e, do checked takes e (← result.mapError .stop)⟩

def written (takes : Char → Bool) (vs : List Evaluation) : Except Obstacle Answer := do
  let text ← (do (Value.list (← vs.mapM Evaluation.report)).json).mapError
    fun m => .stop (.misuse m)
  return ⟨0, ← print takes text⟩

def mention (ws : List Warning) : Except Obstacle (List Line) :=
  if ws.isEmpty then .ok []
  else do return [.text ((← (Notice.default ws).mapError .notice) ++ "\n")]

def evaluateLoaded (takes : Char → Bool) (h : Host) (e : Engine) (s : Snapshot)
    (ws : List Warning) : Reply :=
  match mention ws with
  | .error o => ⟨linesOf e, .error o⟩
  | .ok mentioned =>
    let (e', result) := e.evaluate h s
    ⟨linesOf e ++ mentioned ++ linesSince e e', do written takes (← result.mapError .stop)⟩

def evaluate (takes : Char → Bool) (h : Host) (e : Engine) (s : Snapshot) : Reply :=
  match e.preloadRules h with
  | (e, .error stop) => ⟨linesOf e, .error (.stop stop)⟩
  | (e, .ok ws) => evaluateLoaded takes h e s ws

end NoteDecor.CommandLine
