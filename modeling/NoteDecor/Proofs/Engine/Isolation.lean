import NoteDecor.Proofs.Engine.Equations
import NoteDecor.Proofs.Engine.Reading
import NoteDecor.Proofs.Log.Journal
import NoteDecor.Proofs.Rule.Running

/-! What a pass comes to when background loads only wait, told without the state that it threads.
No rule function that fails with a text ends a pass; what does is a mute fault, an outcome that cannot
be told and frontmatter that cannot be compared. -/

namespace NoteDecor

structure Basis where
  sources : List (String × String)
  threshold : Log.Level
  evaluated : Nat

def Engine.basis (e : Engine) : Basis :=
  ⟨e.cache.entries, e.journal.threshold, e.tally.evaluations⟩

/-- No rule function interrupts or closes the computation that it runs in, neither when it is built
nor when it is called. -/
def Host.HoldsBack (h : Host) : Prop :=
  ∀ n source path, match h.function n source path with
    | .error f => Evaluation.passesThrough f.kind = false
    | .ok call => ∀ s f, call s = .error f → Evaluation.passesThrough f.kind = false

theorem Host.HoldsBack.not_isControl {h : Host} (hf : h.HoldsBack) {n : Nat}
    {source path : String} {s : Snapshot} {f : Fault}
    (hraises : Evaluation.Raises (h.function n source path) s f) :
    ¬ Evaluation.IsControl f.kind := by
  have hn := hf n source path
  rw [← Evaluation.passesThrough_iff, Bool.not_eq_true]
  cases hraises with
  | building hb =>
    rw [hb] at hn
    exact hn
  | calling hb hc =>
    rw [hb] at hn
    exact hn s f hc

/-- A rule function raises a fault that has no text. -/
def Host.RaisesMutely (h : Host) (s : Snapshot) : Prop :=
  ∃ n source path, Evaluation.RaisesMutely (h.function n source path) s

def Engine.resultOf : Except Evaluation.Fault (Option Outcome) → Except Stop (Option Outcome)
  | .ok o => .ok o
  | .error (.failed _) => .ok none
  | .error (.mute asked) => .error (.raised asked)
  | .error (.stopped f) => .error (.raised f)

namespace Basis

def source? (b : Basis) (path : String) : Option String :=
  (b.sources.find? fun e => e.1 == path).map (·.2)

/-- What an enabled rule brings about. A function that fails brings about nothing. -/
def outcome (b : Basis) (h : Host) (s : Snapshot) (r : Rule) : Option Outcome :=
  match r.config with
  | .criteria c => if (c.verdict s).isMatch then some .empty else none
  | .functionFile path => (b.source? path).bind fun source =>
    match Evaluation.run (h.function b.evaluated source path) s with
    | .ok o => o
    | .error _ => none
  | .unrecognized .. => none

def returns (b : Basis) (h : Host) (s : Snapshot) (r : Rule) : Bool :=
  match r.config with
  | .functionFile path => (b.source? path).all fun source =>
    (Engine.resultOf (Evaluation.run (h.function b.evaluated source path) s)).isOk
  | _ => true

/-- What is left to evaluate the next rule from. -/
def after (b : Basis) (r : Rule) : Basis :=
  match r.config with
  | .functionFile _ => { b with evaluated := b.evaluated + 1 }
  | _ => b

def evaluations (b : Basis) (h : Host) (s : Snapshot) : List Rule → List Evaluation
  | [] => []
  | r :: rs =>
    if r.enabled then ⟨r, b.outcome h s r⟩ :: (b.after r).evaluations h s rs
    else b.evaluations h s rs

def comparable (s : Snapshot) (r : Rule) : Bool :=
  match r.config with
  | .criteria c => !((c.verdict s).readsFrontmatter &&
      Frontmatter.isObstructed c.frontmatter s.frontmatter)
  | _ => true

def canTell (b : Basis) (o : Outcome) : Bool :=
  match o.toValue with
  | .ok v => !b.threshold.admits .debug || v.isWritable
  | .error _ => false

def bears (b : Basis) (h : Host) (s : Snapshot) (r : Rule) : Bool :=
  comparable s r && b.returns h s r && (b.outcome h s r).all b.canTell

def bearsAll (b : Basis) (h : Host) (s : Snapshot) : List Rule → Bool
  | [] => true
  | r :: rs =>
    if r.enabled then b.bears h s r && (b.after r).bearsAll h s rs else b.bearsAll h s rs

theorem evaluations_rule (b : Basis) (h : Host) (s : Snapshot) (rules : List Rule) :
    (b.evaluations h s rules).map Evaluation.rule = rules.filter Rule.enabled := by
  induction rules generalizing b with
  | nil => rfl
  | cons r rs ih =>
    by_cases hr : r.enabled
    · simp only [evaluations, if_pos hr, List.map_cons, ih, List.filter_cons_of_pos hr]
    · simp only [evaluations, if_neg hr, ih, List.filter_cons_of_neg hr]

end Basis

namespace Engine

@[simp] theorem note_basis (e : Engine) (level : Log.Level) (message : String)
    (own : Log.Context) : (e.note level message own).basis = e.basis := by
  simp only [basis, note, Log.Journal.note_threshold]

variable {h : Host}

theorem evaluateSource_spec (h : Host) (e : Engine) (path source : String) (s : Snapshot) :
    (e.evaluateSource h path source s).1.basis = e.basis ∧
    (e.evaluateSource h path source s).2 =
      resultOf (Evaluation.run (h.function (e.tally.evaluations - 1) source path) s) := by
  unfold evaluateSource
  cases Evaluation.run (h.function (e.tally.evaluations - 1) source path) s with
  | ok o =>
    cases o with
    | none => exact ⟨note_basis .., rfl⟩
    | some o => exact ⟨rfl, rfl⟩
  | error f =>
    cases f with
    | failed c => exact ⟨by simp [basis], rfl⟩
    | mute asked => exact ⟨rfl, rfl⟩
    | stopped f => exact ⟨rfl, rfl⟩

inductive Proceeds {α : Type} (h : Host) (s : Snapshot) : Bool → α → Except Stop α → Prop where
  | done (x : α) : Proceeds h s true x (.ok x)
  | misuse (x : α) (m : Misuse) : Proceeds h s false x (.error (.misuse m))
  | raised (x : α) (f : Fault) : h.RaisesMutely s → Proceeds h s false x (.error (.raised f))

theorem Proceeds.bind {α β : Type} {s : Snapshot} {b c : Bool} {x : α} {y : β} {r : Except Stop α}
    {k : α → Except Stop β} (hr : Proceeds h s b x r) (hnext : b = true → Proceeds h s c y (k x)) :
    Proceeds h s (b && c) y (r >>= k) := by
  cases hr with
  | done => exact hnext rfl
  | misuse _ m => exact .misuse y m
  | raised _ f hmute => exact .raised y f hmute

theorem Proceeds.eq_ok {α : Type} {s : Snapshot} {x : α} {r : Except Stop α}
    (hr : Proceeds h s true x r) : r = .ok x := by
  cases hr
  rfl

theorem Proceeds.exists_error {α : Type} {s : Snapshot} {x : α} {r : Except Stop α}
    (hr : Proceeds h s false x r) :
    (∃ m, r = .error (.misuse m)) ∨ ∃ f, r = .error (.raised f) ∧ h.RaisesMutely s := by
  cases hr with
  | misuse _ m => exact .inl ⟨m, rfl⟩
  | raised _ f hmute => exact .inr ⟨f, rfl, hmute⟩

theorem proceeds_resultOf (hf : h.HoldsBack) (n : Nat) (source path : String) (s : Snapshot) :
    Proceeds h s (resultOf (Evaluation.run (h.function n source path) s)).isOk
      (match Evaluation.run (h.function n source path) s with
        | .ok o => o
        | .error _ => none)
      (resultOf (Evaluation.run (h.function n source path) s)) := by
  cases hrun : Evaluation.run (h.function n source path) s with
  | ok o => exact .done o
  | error f =>
    cases f with
    | failed c => exact .done none
    | mute asked => exact .raised none asked ⟨n, source, path, Evaluation.run_mute hrun⟩
    | stopped f =>
      refine .raised none f ⟨n, source, path, ?_⟩
      rcases Evaluation.run_stopped hrun with ⟨hraises, hcontrol⟩ | hmute
      · exact absurd hcontrol (hf.not_isControl hraises)
      · exact hmute

theorem evaluateFile_spec (hq : h.schedule = .queued) (hf : h.HoldsBack) (e : Engine)
    (path : String) (s : Snapshot) :
    (e.evaluateFile h path s).1.basis = { e.basis with evaluated := e.tally.evaluations + 1 } ∧
    Proceeds h s
      ((e.basis.source? path).all fun source =>
        (resultOf (Evaluation.run (h.function e.tally.evaluations source path) s)).isOk)
      ((e.basis.source? path).bind fun source =>
        match Evaluation.run (h.function e.tally.evaluations source path) s with
        | .ok o => o
        | .error _ => none)
      (e.evaluateFile h path s).2 := by
  have hs : e.cache.find? path = e.basis.source? path := rfl
  unfold evaluateFile
  simp only [hs]
  cases hp : e.basis.source? path with
  | none =>
    simp only [loadInBackground, hq]
    exact ⟨by simp [basis, note], .done none⟩
  | some source =>
    obtain ⟨hb, hr⟩ := evaluateSource_spec h
      { e with
        tally := { e.tally with evaluations := e.tally.evaluations + 1 }
        cache := e.cache.count path } path source s
    refine ⟨hb.trans (by simp [basis]), ?_⟩
    dsimp only
    rw [hr]
    exact proceeds_resultOf hf e.tally.evaluations source path s

theorem evaluateCriteria_spec (e : Engine) (c : Criteria) (s : Snapshot) :
    (e.evaluateCriteria c s).1.basis = e.basis ∧
    Proceeds h s
      (!((c.verdict s).readsFrontmatter && Frontmatter.isObstructed c.frontmatter s.frontmatter))
      (if (c.verdict s).isMatch then some .empty else none) (e.evaluateCriteria c s).2 := by
  unfold evaluateCriteria
  dsimp only
  split
  · next ho =>
    rw [ho]
    exact ⟨rfl, .misuse _ _⟩
  · next ho =>
    rw [Bool.eq_false_iff.2 ho]
    exact ⟨note_basis .., .done _⟩

theorem evaluateRule_spec (hq : h.schedule = .queued) (hf : h.HoldsBack) (e : Engine) (r : Rule)
    (s : Snapshot) :
    (e.evaluateRule h r s).1.basis = e.basis.after r ∧
    Proceeds h s (Basis.comparable s r && e.basis.returns h s r) (e.basis.outcome h s r)
      (e.evaluateRule h r s).2 := by
  unfold evaluateRule Basis.after Basis.comparable Basis.returns Basis.outcome
  cases r.config with
  | criteria c =>
    dsimp only
    rw [Bool.and_true]
    exact evaluateCriteria_spec e c s
  | functionFile path => exact evaluateFile_spec hq hf e path s
  | unrecognized type options => exact ⟨note_basis .., .done none⟩

theorem evaluateWithin_spec (hq : h.schedule = .queued) (hf : h.HoldsBack) (e : Engine) (r : Rule)
    (s : Snapshot) :
    (e.evaluateWithin h r s).1.basis = e.basis.after r ∧
    Proceeds h s (Basis.comparable s r && e.basis.returns h s r) (e.basis.outcome h s r)
      (e.evaluateWithin h r s).2 :=
  evaluateRule_spec hq hf { e with
    journal := e.journal.enter [("rule_id", .text r.id), ("rule_name", .text r.name)] } r s

theorem noteApplied_spec (e : Engine) (r : Rule) (s : Snapshot) (o : Outcome) :
    (e.noteApplied r s o).1.basis = e.basis ∧
    Proceeds h s (e.basis.canTell o) () (e.noteApplied r s o).2 := by
  unfold noteApplied Basis.canTell
  cases o.toValue with
  | error m => exact ⟨rfl, .misuse () m⟩
  | ok v =>
    -- the program asks whether the telling fails, the basis whether it does not
    have hw : (e.journal.threshold.admits .debug && !v.isWritable) =
        !(!e.basis.threshold.admits .debug || v.isWritable) := by
      simp [basis]
    simp only [hw]
    cases !e.basis.threshold.admits .debug || v.isWritable with
    | true => exact ⟨note_basis .., .done ()⟩
    | false => exact ⟨rfl, .misuse () _⟩

theorem evaluateEnabled_spec (hq : h.schedule = .queued) (hf : h.HoldsBack) (e : Engine) (r : Rule)
    (s : Snapshot) :
    (e.evaluateEnabled h r s).1.basis = e.basis.after r ∧
    Proceeds h s (e.basis.bears h s r) ⟨r, e.basis.outcome h s r⟩ (e.evaluateEnabled h r s).2 := by
  obtain ⟨hb, hr⟩ := evaluateWithin_spec hq hf e r s
  have hafter : (e.evaluateEnabled h r s).1.basis = e.basis.after r := by
    rcases evaluateEnabled_engine h e r s with heq | ⟨o, heq⟩ <;> rw [heq]
    · exact hb
    · exact (noteApplied_spec (h := h) _ r s o).1.trans hb
  refine ⟨hafter, ?_⟩
  rw [evaluateEnabled_result]
  refine hr.bind fun _ => ?_
  cases e.basis.outcome h s r with
  | none => exact .done _
  | some o =>
    obtain ⟨-, htold⟩ := noteApplied_spec (h := h) (e.evaluateWithin h r s).1 r s o
    have ht : (e.evaluateWithin h r s).1.basis.canTell o = e.basis.canTell o := by
      rw [hb]
      unfold Basis.after
      cases r.config <;> rfl
    rw [ht] at htold
    have hboth := htold.bind (c := true) (y := Evaluation.mk r (some o))
      (k := fun _ => .ok ⟨r, some o⟩) fun _ => .done _
    rwa [Bool.and_true] at hboth

theorem evaluateAll_spec (hq : h.schedule = .queued) (hf : h.HoldsBack) (s : Snapshot)
    (rules : List Rule) (e : Engine) :
    Proceeds h s (e.basis.bearsAll h s rules) (e.basis.evaluations h s rules)
      (evaluateAll h s rules e).2 := by
  -- the engine varies, since each rule leaves the next one a basis of its own
  induction rules generalizing e with
  | nil => exact .done []
  | cons r rs ih =>
    by_cases hr : r.enabled
    · obtain ⟨hb, hone⟩ := evaluateEnabled_spec hq hf e r s
      have hrest := ih (e.evaluateEnabled h r s).1
      rw [hb] at hrest
      simp only [evaluateAll_cons_result hr, Basis.evaluations, Basis.bearsAll, if_pos hr]
      refine hone.bind fun _ => ?_
      have hboth := hrest.bind (c := true)
        (k := fun vs => .ok (⟨r, e.basis.outcome h s r⟩ :: vs)) fun _ => .done _
      rwa [Bool.and_true] at hboth
    · simp only [evaluateAll_disabled hr, Basis.evaluations, Basis.bearsAll, if_neg hr]
      exact ih e

/-- A pass yields one evaluation for each enabled rule, in order, exactly if every one of them
leaves it going. No matter how rule functions fail, what ends it is an outcome that cannot be told,
frontmatter that cannot be compared, or a fault without a text. -/
theorem evaluateAll_isolates (hq : h.schedule = .queued) (hf : h.HoldsBack) (s : Snapshot)
    (rules : List Rule) (e : Engine) :
    ((e.basis.evaluations h s rules).map Evaluation.rule = rules.filter Rule.enabled) ∧
    (e.basis.bearsAll h s rules = true →
      (evaluateAll h s rules e).2 = .ok (e.basis.evaluations h s rules)) ∧
    (e.basis.bearsAll h s rules = false →
      (∃ m, (evaluateAll h s rules e).2 = .error (.misuse m)) ∨
      ∃ f, (evaluateAll h s rules e).2 = .error (.raised f) ∧ h.RaisesMutely s) := by
  have hpass := evaluateAll_spec hq hf s rules e
  refine ⟨Basis.evaluations_rule .., fun hall => ?_, fun hall => ?_⟩ <;> rw [hall] at hpass
  · exact hpass.eq_ok
  · exact hpass.exists_error

def exiting : Host :=
  ⟨fun _ _ _ => .ok "", fun _ _ _ => .ok fun _ => .error (.told ⟨.exit, "3"⟩), .queued⟩

def numbering : Host :=
  ⟨fun _ _ _ => .ok "", fun _ _ _ => .ok fun _ => .ok (.outcome (.int 5) .null), .queued⟩

def twoRules : List Rule :=
  [⟨"1", "Status", true, "", .functionFile "status.py"⟩,
    ⟨"2", "Work", true, "is-work", .criteria ⟨["work"], [], [], []⟩⟩]

/-- The file of the first of the two rules is there. -/
def loaded : Engine :=
  { start twoRules .debug with cache := SourceCache.empty.store "status.py" "" }

theorem exiting_holdsBack : exiting.HoldsBack := by
  intro n source path s f hf
  cases hf
  rfl

theorem evaluateAll_exiting :
    exiting.schedule = .queued ∧ exiting.HoldsBack ∧
    (evaluateAll exiting ⟨"x.md", "x", ["work"], []⟩ twoRules loaded).2 =
      .ok (twoRules.zipWith Evaluation.mk [none, some .empty]) :=
  ⟨rfl, exiting_holdsBack,
    (evaluateAll_isolates rfl exiting_holdsBack ⟨"x.md", "x", ["work"], []⟩ twoRules loaded).2.1 rfl⟩

theorem evaluateAll_numbering :
    numbering.schedule = .queued ∧ numbering.HoldsBack ∧
    (evaluateAll numbering ⟨"x.md", "x", ["work"], []⟩ twoRules loaded).2 =
      .error (.misuse .operand) := by
  refine ⟨rfl, ?_, rfl⟩
  intro n source path s f hf
  cases hf

end Engine

end NoteDecor
