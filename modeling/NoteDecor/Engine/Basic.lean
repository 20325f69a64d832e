import NoteDecor.Log.Record
import NoteDecor.Outcome.Describe
import NoteDecor.Rule.Basic
import NoteDecor.Rule.Function
import NoteDecor.SourceCache

/-!
The engine's state, what it needs from its host, and the faults that may leave one of its steps.
-/

namespace NoteDecor

/-- How background loads run: later, at once, or at once but apart from the caller, whose open
contexts they do not see and whom their faults do not reach. -/
inductive Schedule where
  | queued
  | inline
  | apart
  deriving DecidableEq, Repr

/-- What the host provides. Readings and calls of rule functions are numbered from zero, so that
they may differ from one time to the next. A reading may also depend on the records of the log so
far, which may have gone to the file that is read. -/
structure Host where
  read : List Log.Record → Nat → String → Except Fault String
  function : Nat → (source path : String) → Rule.Function
  schedule : Schedule

/-- A rule file that could not be read. -/
structure LoadFault where
  path : String
  cause : Option Fault.Told
  deriving DecidableEq, Repr

namespace LoadFault

def message (f : LoadFault) : String :=
  let start := "Failed to load rule file: " ++ f.path
  match f.cause with
  | some c => start ++ " (" ++ c.text ++ ")"
  | none => start

def detail (f : LoadFault) : String :=
  match f.cause with
  | some c => c.text
  | none => f.message

def code (f : LoadFault) : Nat :=
  match f.cause with
  | some ⟨.missing, _⟩ => 2
  | some ⟨.denied, _⟩ => 3
  | _ => 6

end LoadFault

/-- What may leave a step of the engine. -/
inductive Stop where
  | load (f : LoadFault)
  | raised (f : Fault)
  | misuse (m : Misuse)
  deriving DecidableEq, Repr

/-- What becomes of a fault of the reader. An ordinary one is reported with its text, unless it is
mute: then what asking for the text raises takes its place. -/
def Stop.ofReading (path : String) (f : Fault) : Stop :=
  if f.kind.isOrdinary then
    match f with
    | .told f => .load ⟨path, some f⟩
    | .mute _ asked => .raised asked
  else .raised f

/-- Counts of the evaluations of rule functions. -/
structure Tally where
  evaluations : Nat
  misses : Nat
  failures : Nat
  deriving DecidableEq, Repr, Inhabited

def Tally.stats (t : Tally) : Value := .record
  [("evaluations", .int t.evaluations), ("cache_misses", .int t.misses),
    ("failures", .int t.failures)]

/-- `jobs` are the paths of pending background loads and `reads` the paths that the reader was
asked for, both oldest first. -/
structure Engine where
  rules : List Rule
  cache : SourceCache
  tally : Tally
  jobs : List String
  reads : List String
  journal : Log.Journal
  deriving Inhabited, Repr

namespace Engine

def start (rules : List Rule) (threshold : Log.Level) : Engine :=
  ⟨rules, .empty, ⟨0, 0, 0⟩, [], [], .start threshold⟩

def note (e : Engine) (level : Log.Level) (message : String) (own : Log.Context) : Engine :=
  { e with journal := e.journal.note level message own }

def stats (e : Engine) : Value := .record
  [("rules", .int e.rules.length), ("cache", e.cache.stats), ("function_rules", e.tally.stats)]

def functionRules (rules : List Rule) : List (Rule × String) :=
  rules.filterMap fun r => r.usedFile?.map (r, ·)

end Engine

end NoteDecor
