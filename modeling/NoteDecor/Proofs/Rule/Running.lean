import NoteDecor.Proofs.Steps
import NoteDecor.Rule.Function

/-! How a rule function ends. Faults may come up while the function is built, called or read. An
interrupt and a closing pass through, a fault with a text is one failed evaluation, and of a mute
fault only what asking for its text raises is left. -/

namespace NoteDecor.Evaluation

variable {function : Rule.Function} {s : Snapshot}

def Returns (function : Rule.Function) (s : Snapshot) (v : Value) : Prop :=
  ∃ call, function = .ok call ∧ call s = .ok v

inductive Raises (function : Rule.Function) (s : Snapshot) : NoteDecor.Fault → Prop where
  | building {f : NoteDecor.Fault} : function = .error f → Raises function s f
  | calling {call : Snapshot → Except NoteDecor.Fault Value} {f : NoteDecor.Fault} :
    function = .ok call → call s = .error f → Raises function s f

def IsControl (k : Fault.Kind) : Prop := k = .interrupt ∨ k = .closing

inductive Asked : NoteDecor.Fault → Evaluation.Fault → Prop where
  | unusable {f : Fault.Told} : f.kind = .unusable → Asked (.told f) (.failed (.raised f))
  | mute {asked : NoteDecor.Fault} : Asked (.mute .unusable asked) (.mute asked)
  | other {f : NoteDecor.Fault} : f.kind ≠ .unusable → Asked f (.stopped f)

inductive Ends (function : Rule.Function) (s : Snapshot) :
    Except Evaluation.Fault (Option Outcome) → Prop where
  | stopped {f : NoteDecor.Fault} :
    Raises function s f → IsControl f.kind → Ends function s (.error (.stopped f))
  | raised {f : Fault.Told} :
    Raises function s (.told f) → ¬ IsControl f.kind →
      Ends function s (.error (.failed (.raised f)))
  | mute {asked : NoteDecor.Fault} :
    Raises function s (.mute .unusable asked) → Ends function s (.error (.mute asked))
  | asked {k : Fault.Kind} {asked : NoteDecor.Fault} {x : Evaluation.Fault} :
    Raises function s (.mute k asked) → ¬ IsControl k → k ≠ .unusable → Asked asked x →
      Ends function s (.error x)
  | misshapen {v : Value} {m : Outcome.Fault} :
    Returns function s v → Outcome.ofValue v = .error m →
      Ends function s (.error (.failed (.misshapen m)))
  | yielded {v : Value} {o : Option Outcome} :
    Returns function s v → Outcome.ofValue v = .ok o → Ends function s (.ok o)

theorem passesThrough_iff (k : Fault.Kind) : passesThrough k = true ↔ IsControl k := by
  simp only [passesThrough, IsControl, Bool.or_eq_true, decide_eq_true_eq]

theorem Asked.ofAsked_eq {f : NoteDecor.Fault} {x : Evaluation.Fault} (h : Asked f x) :
    ofAsked f = x := by
  cases h with
  | unusable hk => exact if_pos hk
  | mute => rfl
  | other hk => exact if_neg hk

theorem asked_ofAsked (f : NoteDecor.Fault) : Asked f (ofAsked f) := by
  by_cases hk : f.kind = .unusable
  · cases f with
    | told f =>
      have hasked : Asked (.told f) _ := .unusable hk
      rwa [hasked.ofAsked_eq]
    | mute kind asked =>
      obtain rfl : kind = .unusable := hk
      exact .mute
  · have hasked : Asked f _ := .other hk
    rwa [hasked.ofAsked_eq]

theorem returns_or_raises (function : Rule.Function) (s : Snapshot) :
    (∃ v, Returns function s v) ∨ ∃ f, Raises function s f := by
  cases hf : function with
  | error f => exact .inr ⟨f, .building rfl⟩
  | ok call =>
    cases hc : call s with
    | error f => exact .inr ⟨f, .calling rfl hc⟩
    | ok v => exact .inl ⟨v, call, rfl, hc⟩

theorem run_of_built {call : Snapshot → Except NoteDecor.Fault Value}
    (hf : function = .ok call) : run function s =
      ((call s).mapError ofFault >>= fun v =>
        (Outcome.ofValue v).mapError fun m => .failed (.misshapen m)) := by
  rw [hf]
  rfl

theorem run_of_raises {f : NoteDecor.Fault} (h : Raises function s f) :
    run function s = .error (ofFault f) := by
  cases h with
  | building hf =>
    rw [hf]
    rfl
  | calling hf hc =>
    rw [run_of_built hf, hc]
    rfl

theorem run_of_returns {v : Value} (h : Returns function s v) :
    run function s = (Outcome.ofValue v).mapError fun m => .failed (.misshapen m) := by
  obtain ⟨call, hf, hc⟩ := h
  rw [run_of_built hf, hc]
  rfl

theorem ofFault_of_control {f : NoteDecor.Fault} (h : IsControl f.kind) :
    ofFault f = .stopped f := if_pos ((passesThrough_iff _).2 h)

theorem ofFault_told {f : Fault.Told} (h : ¬ IsControl f.kind) :
    ofFault (.told f) = .failed (.raised f) := if_neg (mt (passesThrough_iff _).1 h)

theorem ofFault_mute {k : Fault.Kind} (h : ¬ IsControl k) (asked : NoteDecor.Fault) :
    ofFault (.mute k asked) = if k = .unusable then .mute asked else ofAsked asked :=
  if_neg (mt (passesThrough_iff _).1 h)

theorem not_isControl_unusable : ¬ IsControl .unusable := by
  rintro (h | h) <;> cases h

theorem Ends.run_eq {x : Except Evaluation.Fault (Option Outcome)} (h : Ends function s x) :
    run function s = x := by
  cases h with
  | stopped hf hcontrol => rw [run_of_raises hf, ofFault_of_control hcontrol]
  | raised hf hcontrol => rw [run_of_raises hf, ofFault_told hcontrol]
  | mute hf => rw [run_of_raises hf, ofFault_mute not_isControl_unusable, if_pos rfl]
  | asked hf hcontrol hk hasked =>
    rw [run_of_raises hf, ofFault_mute hcontrol, if_neg hk, hasked.ofAsked_eq]
  | misshapen hv hm => rw [run_of_returns hv, hm, mapError_error]
  | yielded hv ho => rw [run_of_returns hv, ho, mapError_ok]

theorem exists_ends (function : Rule.Function) (s : Snapshot) : ∃ x, Ends function s x := by
  rcases returns_or_raises function s with ⟨v, hv⟩ | ⟨f, hf⟩
  · cases ho : Outcome.ofValue v with
    | error m => exact ⟨_, .misshapen hv ho⟩
    | ok o => exact ⟨_, .yielded hv ho⟩
  · by_cases hcontrol : IsControl f.kind
    · exact ⟨_, .stopped hf hcontrol⟩
    · cases f with
      | told f => exact ⟨_, .raised hf hcontrol⟩
      | mute k asked =>
        by_cases hk : k = .unusable
        · exact ⟨_, .mute (hk ▸ hf)⟩
        · exact ⟨_, .asked hf hcontrol hk (asked_ofAsked asked)⟩

theorem ends_run (function : Rule.Function) (s : Snapshot) : Ends function s (run function s) := by
  obtain ⟨x, hx⟩ := exists_ends function s
  rwa [hx.run_eq]

theorem run_eq_iff {x : Except Evaluation.Fault (Option Outcome)} :
    run function s = x ↔ Ends function s x :=
  ⟨fun h => h ▸ ends_run function s, Ends.run_eq⟩

def IsFailure (x : Except Evaluation.Fault (Option Outcome)) : Prop :=
  (∃ c, x = .error (.failed c)) ∨ ∃ asked, x = .error (.mute asked)

/-- A function raises a fault that has no text. -/
def RaisesMutely (function : Rule.Function) (s : Snapshot) : Prop :=
  ∃ k asked, Raises function s (.mute k asked)

theorem run_stopped {f : NoteDecor.Fault} (h : run function s = .error (.stopped f)) :
    Raises function s f ∧ IsControl f.kind ∨ RaisesMutely function s := by
  cases run_eq_iff.1 h with
  | stopped hf hcontrol => exact .inl ⟨hf, hcontrol⟩
  | asked hf _ _ _ => exact .inr ⟨_, _, hf⟩

theorem run_mute {asked : NoteDecor.Fault} (h : run function s = .error (.mute asked)) :
    RaisesMutely function s := by
  cases run_eq_iff.1 h with
  | mute hf => exact ⟨_, _, hf⟩
  | asked hf _ _ _ => exact ⟨_, _, hf⟩

end NoteDecor.Evaluation
