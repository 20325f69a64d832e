import NoteDecor.Fault.Arguments
import NoteDecor.Proofs.Engine.Independence
import NoteDecor.Proofs.Engine.Isolation
import NoteDecor.Proofs.Engine.Preloads

/-! Readers that fail in ordinary ways only, and say how. No loading raises, neither ahead of a pass
nor in it, so that what a pass stops at comes from a rule function or from what cannot be told. -/

namespace NoteDecor

def Host.Reports (h : Host) : Prop :=
  ∀ records n path f, h.read records n path = .error f →
    ∃ t : Fault.Told, f = .told t ∧ t.kind.isOrdinary = true

def Host.Stops (h : Host) (s : Snapshot) (f : Fault) : Prop :=
  ∃ n source path, Engine.resultOf (Evaluation.run (h.function n source path) s) =
    .error (.raised f)

theorem Fault.letsOut_iff {f g : Fault} (h : f.kind.isOrdinary = true) :
    f.LetsOut g ↔ ∃ k, f = .mute k g := by
  constructor
  · intro hout
    cases hout with
    | itself hk =>
      rw [h] at hk
      cases hk
    | asked => exact ⟨_, rfl⟩
  · rintro ⟨k, rfl⟩
    exact .asked h

theorem Host.Reports.not_letsOut {h : Host} (hr : h.Reports) {records : List Log.Record} {n : Nat}
    {path : String} {f g : Fault} (hread : h.read records n path = .error f) : ¬ f.LetsOut g := by
  obtain ⟨t, rfl, hk⟩ := hr records n path f hread
  rw [Fault.letsOut_iff (f := .told t) hk]
  rintro ⟨k, hmute⟩
  cases hmute

namespace Engine

variable {h : Host}

theorem preloadEach_reports (hr : h.Reports) (files : List (Rule × String)) (e : Engine) :
    ∃ ws, (preloadEach h files e).2 = .ok ws := by
  cases hp : (preloadEach h files e).2 with
  | ok ws => exact ⟨ws, rfl⟩
  | error stop =>
    obtain ⟨g, -, done, r, path, rest, e', ws, f, -, -, hread, hout⟩ :=
      (preloadEach_error_iff files e stop).1 hp
    exact absurd hout (hr.not_letsOut hread)

theorem preloadRules_reports (hr : h.Reports) (e : Engine) :
    ∃ ws, (e.preloadRules h).2 = .ok ws := by
  rw [preloadRules, preloadFiles_result]
  exact preloadEach_reports hr (functionRules e.rules) e

end Engine

/-- A fault about a number that is too long to be written. -/
def Fault.overlong : Fault := .ofArguments "ValueError" [.int (Int.pow 10 5000)]

def Fault.unwritable : Fault := .told ⟨.named "ValueError", Numeral.unwritableMessage⟩

theorem Fault.overlong_eq : overlong = .mute (.named "ValueError") unwritable := by decide +kernel

end NoteDecor
