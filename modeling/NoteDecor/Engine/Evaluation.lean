import NoteDecor.Engine.Loading
import NoteDecor.Match

/-!
Evaluating rules for a document. A file that is not cached yet is loaded in the background, and
its rule has no outcome in this pass; a rule function that fails has none either.
-/

namespace NoteDecor

/-- What an enabled rule brought about in a pass. -/
structure Evaluation where
  rule : Rule
  outcome : Option Outcome
  deriving Inhabited, Repr

namespace Engine

def evaluateSource (h : Host) (e : Engine) (path source : String) (s : Snapshot) :
    Engine × Except Stop (Option Outcome) :=
  match Evaluation.run (h.function (e.tally.evaluations - 1) source path) s with
  | .ok none => (e.note .debug "Rule function returned no result" [("file_path", .text path)],
      .ok none)
  | .ok (some o) => (e, .ok (some o))
  | .error (.stopped f) => (e, .error (.raised f))
  | .error (.mute asked) =>
    ({ e with tally := { e.tally with failures := e.tally.failures + 1 } }, .error (.raised asked))
  | .error (.failed c) =>
    ({ e with
        tally := { e.tally with failures := e.tally.failures + 1 }
        journal := e.journal.noteException "File function evaluation error" "EvaluationError"
          c.message [("file_path", .text path)] }, .ok none)

def evaluateFile (h : Host) (e : Engine) (path : String) (s : Snapshot) :
    Engine × Except Stop (Option Outcome) :=
  let e := { e with tally := { e.tally with evaluations := e.tally.evaluations + 1 } }
  let found := e.cache.find? path
  let e := { e with cache := e.cache.count path }
  match found with
  | some source => e.evaluateSource h path source s
  | none =>
    let e := { e with tally := { e.tally with misses := e.tally.misses + 1 } }.note .warning
      "File not cached, loading asynchronously" [("file_path", .text path)]
    match e.loadInBackground h path with
    | (e, .ok ()) => (e, .ok none)
    | (e, .error stop) => (e, .error stop)

/-- Frontmatter that cannot be compared ends the pass. -/
def evaluateCriteria (e : Engine) (c : Criteria) (s : Snapshot) :
    Engine × Except Stop (Option Outcome) :=
  let v := c.verdict s
  if v.readsFrontmatter && Frontmatter.isObstructed c.frontmatter s.frontmatter then
    (e, .error (.misuse .unwritable))
  else (e.note .debug v.name (v.details s), .ok (if v.isMatch then some .empty else none))

def evaluateRule (h : Host) (e : Engine) (r : Rule) (s : Snapshot) :
    Engine × Except Stop (Option Outcome) :=
  match r.config with
  | .criteria c => e.evaluateCriteria c s
  | .functionFile path => e.evaluateFile h path s
  | .unrecognized type _ =>
    (e.note .debug "Unrecognized rule config" [("rule_id", .text r.id), ("type", .text type)],
      .ok none)

def evaluateWithin (h : Host) (e : Engine) (r : Rule) (s : Snapshot) :
    Engine × Except Stop (Option Outcome) :=
  let context := [("rule_id", .text r.id), ("rule_name", .text r.name)]
  let (e, result) := { e with journal := e.journal.enter context }.evaluateRule h r s
  ({ e with journal := e.journal.leave }, result)

/-- Notes that a rule applies; an outcome that cannot be described or written down ends the pass. -/
def noteApplied (e : Engine) (r : Rule) (s : Snapshot) (o : Outcome) :
    Engine × Except Stop Unit :=
  match o.toValue with
  | .error m => (e, .error (.misuse m))
  | .ok v =>
    if e.journal.threshold.admits .debug && !v.isWritable then (e, .error (.misuse .unwritable))
    else (e.note .debug "Rule applied"
      [("rule_id", .text r.id), ("path", .text s.path), ("result", v)], .ok ())

def evaluateEnabled (h : Host) (e : Engine) (r : Rule) (s : Snapshot) :
    Engine × Except Stop Evaluation :=
  match e.evaluateWithin h r s with
  | (e, .error stop) => (e, .error stop)
  | (e, .ok none) => (e, .ok ⟨r, none⟩)
  | (e, .ok (some o)) =>
    match e.noteApplied r s o with
    | (e, .error stop) => (e, .error stop)
    | (e, .ok ()) => (e, .ok ⟨r, some o⟩)

def evaluateAll (h : Host) (s : Snapshot) : List Rule → Engine →
    Engine × Except Stop (List Evaluation)
  | [], e => (e, .ok [])
  | r :: rs, e =>
    if r.enabled then
      match e.evaluateEnabled h r s with
      | (e, .error stop) => (e, .error stop)
      | (e, .ok v) =>
        match evaluateAll h s rs e with
        | (e, .error stop) => (e, .error stop)
        | (e, .ok vs) => (e, .ok (v :: vs))
    else evaluateAll h s rs e

def evaluate (h : Host) (e : Engine) (s : Snapshot) : Engine × Except Stop (List Evaluation) :=
  evaluateAll h s e.rules e

end Engine

namespace Evaluation

def isMatch (v : Evaluation) : Bool := v.outcome.isSome

/-- A rule with criteria adds its own class; every rule adds the classes of its outcome. -/
def ownClass (r : Rule) : List Value :=
  match r.config with
  | .criteria _ => if r.className = "" then [] else [.text r.className]
  | _ => []

def appliedNames (v : Evaluation) : Except Misuse (List Value) :=
  match v.outcome with
  | none => .ok []
  | some o => do return ownClass v.rule ++ (← o.givenNames)

def describedBadges (v : Evaluation) : Except Misuse (List (String × Value)) :=
  match v.outcome with
  | none => .ok []
  | some o =>
    if o.elements.isTrue then do
      let described ← Value.describeAll (← o.badges)
      return [("elements", .list described)]
    else .ok []

def report (v : Evaluation) : Except Misuse Value := do
  let names ← v.appliedNames
  let badges ← v.describedBadges
  return .record ([("id", .text v.rule.id), ("name", .text v.rule.name),
    ("matched", .bool v.isMatch), ("classNames", .list names)] ++ badges)

end Evaluation

end NoteDecor
