import NoteDecor.Proofs.Steps

/-! Steps that read a value: which format lets them through, and which faults are for numbers that
cannot be written. -/

namespace NoteDecor

structure Decides {ε α : Type} (isNumber : ε → Bool) (x : Except ε α) (format writable : Prop) :
    Prop where
  ok_iff : (∃ a, x = .ok a) ↔ format ∧ writable
  formatFault : ∀ f, x = .error f → writable → isNumber f = false
  numberFault : ∀ f, x = .error f → format → isNumber f = true

namespace Decides

variable {ε ε' α β : Type} {isNumber : ε → Bool} {x : Except ε α} {P Q W V : Prop}

theorem ok (a : α) : Decides isNumber (.ok a) True True :=
  ⟨⟨fun _ => ⟨trivial, trivial⟩, fun _ => ⟨a, rfl⟩⟩, by nofun, by nofun⟩

theorem error {f : ε} (hf : isNumber f = false) (hP : ¬ P) :
    Decides isNumber (.error f : Except ε α) P W := by
  refine ⟨⟨by nofun, fun h => absurd h.1 hP⟩, fun g hg _ => ?_, fun g _ h => absurd h hP⟩
  cases hg
  exact hf

theorem congr (h : Decides isNumber x P W) (hP : Q ↔ P) (hW : V ↔ W) : Decides isNumber x Q V := by
  rw [propext hP, propext hW]
  exact h

theorem of_not (h : Decides isNumber x P W) (hP : ¬ P) (hV : V → W) : Decides isNumber x P V :=
  ⟨⟨fun ha => absurd (h.ok_iff.1 ha).1 hP, fun ha => absurd ha.1 hP⟩,
    fun f hf hv => h.formatFault f hf (hV hv), h.numberFault⟩

theorem bind {k : α → Except ε β} (hx : Decides isNumber x P W)
    (hk : ∀ a, x = .ok a → Decides isNumber (k a) Q V) :
    Decides isNumber (x >>= k) (P ∧ Q) (W ∧ V) := by
  refine ⟨⟨?_, ?_⟩, fun f hf hw => ?_, fun f hf hp => ?_⟩
  · rintro ⟨b, hb⟩
    obtain ⟨a, ha, hb⟩ := bind_eq_ok.1 hb
    obtain ⟨hP, hW⟩ := hx.ok_iff.1 ⟨a, ha⟩
    obtain ⟨hQ, hV⟩ := (hk a ha).ok_iff.1 ⟨b, hb⟩
    exact ⟨⟨hP, hQ⟩, hW, hV⟩
  · rintro ⟨⟨hP, hQ⟩, hW, hV⟩
    obtain ⟨a, ha⟩ := hx.ok_iff.2 ⟨hP, hW⟩
    obtain ⟨b, hb⟩ := (hk a ha).ok_iff.2 ⟨hQ, hV⟩
    exact ⟨b, bind_eq_ok.2 ⟨a, ha, hb⟩⟩
  · rcases bind_eq_error.1 hf with hf | ⟨a, ha, hf⟩
    · exact hx.formatFault f hf hw.1
    · exact (hk a ha).formatFault f hf hw.2
  · rcases bind_eq_error.1 hf with hf | ⟨a, ha, hf⟩
    · exact hx.numberFault f hf hp.1
    · exact (hk a ha).numberFault f hf hp.2

theorem forM {γ : Type} {k : γ → Except ε PUnit} {format writable : γ → Prop} (xs : List γ)
    (h : ∀ y ∈ xs, Decides isNumber (k y) (format y) (writable y)) :
    Decides isNumber (xs.forM k) (∀ y ∈ xs, format y) (∀ y ∈ xs, writable y) := by
  induction xs with
  | nil => exact (ok PUnit.unit).congr (by simp) (by simp)
  | cons y ys ih =>
    simp only [List.forall_mem_cons] at h ⊢
    change Decides isNumber (k y >>= fun _ => ys.forM k) _ _
    exact h.1.bind fun _ _ => ih h.2

theorem map (h : Decides isNumber x P W) (g : α → β) : Decides isNumber (x.map g) P W := by
  cases x with
  | ok a => exact ⟨⟨fun _ => h.ok_iff.1 ⟨a, rfl⟩, fun _ => ⟨g a, rfl⟩⟩, by nofun, by nofun⟩
  | error e =>
    refine ⟨⟨by nofun, fun hp => ?_⟩, fun f hf hw => ?_, fun f hf hp => ?_⟩
    · obtain ⟨a, ha⟩ := h.ok_iff.2 hp
      cases ha
    · cases hf
      exact h.formatFault e rfl hw
    · cases hf
      exact h.numberFault e rfl hp

theorem mapError {isNumber' : ε' → Bool} {g : ε → ε'} (hg : ∀ e, isNumber' (g e) = isNumber e)
    (h : Decides isNumber x P W) : Decides isNumber' (x.mapError g) P W := by
  cases x with
  | ok a => exact ⟨by simpa using h.ok_iff, by nofun, by nofun⟩
  | error e =>
    refine ⟨by simpa using h.ok_iff, fun f hf hw => ?_, fun f hf hp => ?_⟩
    · cases hf
      rw [hg]
      exact h.formatFault e rfl hw
    · cases hf
      rw [hg]
      exact h.numberFault e rfl hp

end Decides

end NoteDecor
