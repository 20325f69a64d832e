import Mathlib.Data.List.TakeWhile
import NoteDecor.Settings.Environment

/-! Which texts of variables are read as something else: truth values and whole numbers, and nothing
that could be more than one name in a path. -/

namespace NoteDecor

theorem Text.mem_strip {p : Char → Bool} {s : List Char} {c : Char} (hc : c ∈ s)
    (hp : p c = false) : c ∈ Text.strip p s := by
  have hdrop {s : List Char} (hc : c ∈ s) : c ∈ s.dropWhile p := by
    rw [← List.takeWhile_append_dropWhile (p := p) (l := s), List.mem_append] at hc
    refine hc.resolve_left fun htake => ?_
    have := List.mem_takeWhile_imp htake
    rw [hp] at this
    cases this
  unfold Text.strip
  exact List.mem_reverse.2 (hdrop (List.mem_reverse.2 (hdrop hc)))

namespace Numeral

theorem digits_chars {afterDigit : Bool} {s : List Char} {ds : List Nat}
    (h : digits 10 afterDigit s = some (ds, [])) : ∀ c ∈ s, c = '_' ∨ (digit? 10 c).isSome := by
  induction s generalizing afterDigit ds with
  | nil => nofun
  | cons c r ih =>
    rw [digits] at h
    rw [List.forall_mem_cons]
    split at h
    · next hc =>
      split at h
      · exact ⟨.inl hc, ih h⟩
      · cases h
    · split at h
      · next d hd =>
        obtain ⟨⟨ds', rest⟩, hr, heq⟩ := Option.map_eq_some_iff.1 h
        cases heq
        exact ⟨.inr (by rw [hd]; rfl), ih hr⟩
      · split at h <;> cases h

theorem readInt_chars {s : List Char} {n : Int} (h : readInt 10 s = .ok n) :
    ∀ c ∈ s, isSpace c = true ∨ c = '-' ∨ c = '+' ∨ c = '_' ∨ (digit? 10 c).isSome = true := by
  intro c hc
  by_cases hspace : isSpace c = true
  · exact .inl hspace
  have hstrip := Text.mem_strip hc (Bool.eq_false_iff.2 hspace)
  have hmark (s : List Char) : dropBaseMark 10 s = s := by
    unfold dropBaseMark
    split
    · next hm => simp
    · rfl
  -- behind the sign come the digits; no mark of a base is dropped in front of decimals
  have hbody (s : List Char) (hmem : c ∈ s) : c = '-' ∨ c = '+' ∨ c ∈ (sign s).2 := by
    unfold sign
    split
    · exact (List.mem_cons.1 hmem).imp_right .inr
    · exact .inr (List.mem_cons.1 hmem)
    · exact .inr (.inr hmem)
  unfold readInt at h
  dsimp only at h
  rw [hmark] at h
  rcases hbody _ hstrip with hsign | hsign | hmem
  · exact .inr (.inl hsign)
  · exact .inr (.inr (.inl hsign))
  · cases hd : digits 10 false (sign (Text.strip isSpace s)).2 with
    | none =>
      rw [hd] at h
      cases h
    | some p =>
      obtain ⟨ds, rest⟩ := p
      rw [hd] at h
      dsimp only at h
      split at h
      · cases h
      · cases rest with
        | nil => exact .inr (.inr (.inr (digits_chars hd c hmem)))
        | cons x xs => cases h

end Numeral

theorem Text.mem_lower {s : String} {c : Char} (hc : c ∈ s.toList) (hlower : lowerChar c = [c])
    (hsigma : c.toNat ≠ 931) : c ∈ (Text.lower s).toList := by
  have hfrom (s : List Char) : ∀ before, c ∈ s → c ∈ lowerFrom before s := by
    induction s with
    | nil => nofun
    | cons x r ih =>
      intro before hmem
      rw [lowerFrom, List.mem_append]
      rcases List.mem_cons.1 hmem with rfl | hmem
      · left
        simp [hsigma, hlower]
      · exact .inr (ih _ hmem)
  rw [Text.lower, String.toList_ofList]
  exact hfrom _ _ hc

namespace Settings.Environment

/-- The words for truth values. -/
def truthWords : List String := ["true", "yes", "false", "no"]

theorem value_eq_text_iff (text : String) : value text = .text text ↔
    Text.lower text ∉ truthWords ∧ ∀ n, Numeral.readInt 10 text.toList ≠ .ok n := by
  unfold value truthWords
  dsimp only
  simp only [List.mem_cons, List.not_mem_nil, or_false, not_or]
  split
  · next h =>
    refine iff_of_false nofun fun hno => ?_
    exact h.elim hno.1.1 hno.1.2.1
  · next htrue =>
    split
    · next h =>
      refine iff_of_false nofun fun hno => ?_
      exact h.elim hno.1.2.2.1 hno.1.2.2.2
    · next hfalse =>
      cases hread : Numeral.readInt 10 text.toList with
      | ok n => exact iff_of_false nofun fun hno => hno.2 n rfl
      | error f =>
        rw [not_or] at htrue hfalse
        exact iff_of_true rfl ⟨⟨htrue.1, htrue.2, hfalse.1, hfalse.2⟩, nofun⟩

theorem value_of_fault {text : String} {f : Numeral.Fault} (hword : Text.lower text ∉ truthWords)
    (hread : Numeral.readInt 10 text.toList = .error f) : value text = .text text :=
  (value_eq_text_iff text).2 ⟨hword, fun _ hn => nomatch hread.symm.trans hn⟩

theorem value_cases (text : String) :
    value text = .text text ∨ (∃ b, value text = .bool b) ∨ ∃ n, value text = .int n := by
  unfold value
  dsimp only
  split
  · exact .inr (.inl ⟨true, rfl⟩)
  · split
    · exact .inr (.inl ⟨false, rfl⟩)
    · split
      · next n _ => exact .inr (.inr ⟨n, rfl⟩)
      · exact .inl rfl

theorem value_of_mem {text : String} {c : Char} (hc : c ∈ text.toList)
    (hmark : c = '/' ∨ c = '.' ∨ c = '\x00') : value text = .text text := by
  rw [value_eq_text_iff]
  constructor
  · intro hword
    have hlower : c ∈ (Text.lower text).toList := by
      rcases hmark with rfl | rfl | rfl <;> exact Text.mem_lower hc (by decide) (by decide)
    have hwords : ∀ w ∈ truthWords, '/' ∉ w.toList ∧ '.' ∉ w.toList ∧ '\x00' ∉ w.toList := by
      decide +kernel
    obtain ⟨hslash, hpoint, hnull⟩ := hwords _ hword
    rcases hmark with rfl | rfl | rfl
    · exact hslash hlower
    · exact hpoint hlower
    · exact hnull hlower
  · intro n hn
    have hchars := Numeral.readInt_chars hn c hc
    rcases hmark with rfl | rfl | rfl <;> revert hchars <;> decide +kernel

end Settings.Environment

end NoteDecor
