import NoteDecor.Engine.Evaluation
import NoteDecor.Engine.Preloading

/-! What each step of an engine leaves and yields, by what the steps leave and yield that it is made
of. A step that goes on after an answer goes on from the engine that the answer left. -/

namespace NoteDecor.Engine

variable {h : Host}

theorem runJob_engine (h : Host) (e : Engine) (path : String) :
    (e.runJob h path).1 = (e.load h path).1 ∨
    ∃ f : LoadFault, (e.runJob h path).1 = (e.load h path).1.note .error "Background load failed"
      [("file_path", .text path), ("error", .text f.detail)] := by
  unfold runJob
  cases e.load h path with | mk e' result
  cases result with
  | ok source => exact .inl rfl
  | error stop =>
    cases stop with
    | load f => exact .inr ⟨f, rfl⟩
    | raised f => exact .inl rfl
    | misuse m => exact .inl rfl

section Preloading

variable {file : Rule × String} {e e' : Engine}

theorem preloadEach_cons_ok {source : String} (hp : e.preload h file.2 = (e', .ok source))
    (rest : List (Rule × String)) :
    preloadEach h (file :: rest) e = preloadEach h rest e' := by
  simp only [preloadEach, hp]

theorem preloadEach_cons_load {f : LoadFault} (hp : e.preload h file.2 = (e', .error (.load f)))
    (rest : List (Rule × String)) :
    preloadEach h (file :: rest) e =
      ((preloadEach h rest (e'.warn ⟨file.1.name, file.2, f.detail⟩)).1,
        (preloadEach h rest (e'.warn ⟨file.1.name, file.2, f.detail⟩)).2.map
          (⟨file.1.name, file.2, f.detail⟩ :: ·)) := by
  simp only [preloadEach, hp]
  cases preloadEach h rest (e'.warn ⟨file.1.name, file.2, f.detail⟩) with | mk e'' result
  cases result <;> rfl

theorem preloadEach_cons_stopped {stop : Stop} (hp : e.preload h file.2 = (e', .error stop))
    (hstop : ∀ f, stop ≠ .load f) (rest : List (Rule × String)) :
    preloadEach h (file :: rest) e = (e', .error stop) := by
  rw [preloadEach, hp]
  cases stop with
  | load f => exact absurd rfl (hstop f)
  | raised f => rfl
  | misuse m => rfl

theorem preloadFiles_engine (h : Host) (files : List (Rule × String)) (e : Engine) :
    (preloadFiles h files e).1 = (preloadEach h files e).1 ∨
    ∃ loaded failed : Int, (preloadFiles h files e).1 = (preloadEach h files e).1.note .info
      "Rule files preloaded" [("loaded", .int loaded), ("failed", .int failed)] := by
  unfold preloadFiles
  cases preloadEach h files e with | mk e' result
  cases result with
  | error stop => exact .inl rfl
  | ok ws => exact .inr ⟨_, _, rfl⟩

theorem preloadFiles_result (h : Host) (files : List (Rule × String)) (e : Engine) :
    (preloadFiles h files e).2 = (preloadEach h files e).2 := by
  unfold preloadFiles
  cases preloadEach h files e with | mk e' result
  cases result <;> rfl

end Preloading

theorem evaluateEnabled_engine (h : Host) (e : Engine) (r : Rule) (s : Snapshot) :
    (e.evaluateEnabled h r s).1 = (e.evaluateWithin h r s).1 ∨
    ∃ o, (e.evaluateEnabled h r s).1 = ((e.evaluateWithin h r s).1.noteApplied r s o).1 := by
  unfold evaluateEnabled
  cases e.evaluateWithin h r s with | mk e' result
  cases result with
  | error stop => exact .inl rfl
  | ok outcome =>
    cases outcome with
    | none => exact .inl rfl
    | some o =>
      refine .inr ⟨o, ?_⟩
      dsimp only
      cases e'.noteApplied r s o with | mk e'' told
      cases told <;> rfl

theorem evaluateEnabled_result (h : Host) (e : Engine) (r : Rule) (s : Snapshot) :
    (e.evaluateEnabled h r s).2 = do
      match ← (e.evaluateWithin h r s).2 with
      | none => return ⟨r, none⟩
      | some o =>
        ((e.evaluateWithin h r s).1.noteApplied r s o).2
        return ⟨r, some o⟩ := by
  unfold evaluateEnabled
  cases e.evaluateWithin h r s with | mk e' result
  cases result with
  | error stop => rfl
  | ok outcome =>
    cases outcome with
    | none => rfl
    | some o =>
      change _ = (e'.noteApplied r s o).2 >>= fun _ => _
      dsimp only
      cases e'.noteApplied r s o with | mk e'' told
      cases told <;> rfl

section Passes

variable {r : Rule} {s : Snapshot} {e : Engine}

theorem evaluateAll_disabled {r : Rule} (hr : ¬r.enabled = true) (s : Snapshot) (rs : List Rule)
    (e : Engine) : evaluateAll h s (r :: rs) e = evaluateAll h s rs e := by
  rw [evaluateAll, if_neg hr]

theorem evaluateAll_cons_result {r : Rule} (hr : r.enabled = true) (s : Snapshot) (rs : List Rule)
    (e : Engine) : (evaluateAll h s (r :: rs) e).2 = do
      let v ← (e.evaluateEnabled h r s).2
      let vs ← (evaluateAll h s rs (e.evaluateEnabled h r s).1).2
      return v :: vs := by
  rw [evaluateAll, if_pos hr]
  cases e.evaluateEnabled h r s with | mk e' result
  cases result with
  | error stop => rfl
  | ok v =>
    dsimp only
    cases evaluateAll h s rs e' with | mk e'' result
    cases result <;> rfl

theorem evaluateAll_cons_engine (hr : r.enabled = true) {v : Evaluation}
    (hv : (e.evaluateEnabled h r s).2 = .ok v) (rs : List Rule) :
    (evaluateAll h s (r :: rs) e).1 = (evaluateAll h s rs (e.evaluateEnabled h r s).1).1 := by
  rw [evaluateAll, if_pos hr]
  cases hw : e.evaluateEnabled h r s with | mk e' result
  rw [hw] at hv
  obtain rfl : result = .ok v := hv
  dsimp only
  cases evaluateAll h s rs e' with | mk e'' result
  cases result <;> rfl

theorem evaluateAll_cons_stopped (hr : r.enabled = true) {stop : Stop}
    (hv : (e.evaluateEnabled h r s).2 = .error stop) (rs : List Rule) :
    (evaluateAll h s (r :: rs) e).1 = (e.evaluateEnabled h r s).1 := by
  rw [evaluateAll, if_pos hr]
  cases hw : e.evaluateEnabled h r s with | mk e' result
  rw [hw] at hv
  obtain rfl : result = .error stop := hv
  rfl

end Passes

end NoteDecor.Engine
