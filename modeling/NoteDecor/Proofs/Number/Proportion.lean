import NoteDecor.Number.Binary64

/-! Quotients between zero and one. Rounding does not lead beyond either end. -/

namespace NoteDecor.Binary64

def isProportion : Binary64 → Bool
  | .finite s m e => !s && decide ((ratio m e).1 ≤ (ratio m e).2)
  | _ => false

variable {num den : Nat}

theorem roundQuotient_le {q : Nat} (hden : 0 < den) (h : num ≤ den * q) :
    roundQuotient num den ≤ q := by
  have hsum : den * (num / den) + num % den = num := Nat.div_add_mod num den
  have hfloor : num / den ≤ q := by
    have hmul : den * (num / den) ≤ den * q := by omega
    exact Nat.le_of_mul_le_mul_left hmul hden
  have hup (hrest : 0 < num % den) : num / den + 1 ≤ q := by
    have hlt : den * (num / den) < den * q := by omega
    exact Nat.lt_of_mul_lt_mul_left hlt
  unfold roundQuotient
  dsimp only
  split
  · exact hfloor
  · next hhalf =>
    -- Half of the divisor or more is left.
    have hrest : num / den + 1 ≤ q := hup (by omega)
    split
    · exact hrest
    · have hodd : num / den % 2 < 2 := Nat.mod_lt _ Nat.two_pos
      omega

theorem binaryOrder_nonpos (hnum : num ≠ 0) (h : num ≤ den) : binaryOrder num den ≤ 0 := by
  have hlog : num.log2 ≤ den.log2 :=
    (Nat.le_log2 (by omega)).2 (Nat.le_trans (Nat.log2_self_le hnum) h)
  unfold binaryOrder
  dsimp only
  split <;> omega

theorem ratio_of_neg {m : Nat} {e : Int} (he : e < 0) :
    ratio m e = (m, Nat.pow 2 (-e).toNat) := by
  unfold ratio
  rw [if_neg (by omega)]

theorem isProportion_finite {m t : Nat} {e : Int} (he : e < 0) (ht : (-e).toNat = t)
    (hm : m ≤ Nat.pow 2 t) : (finite false m e).isProportion = true := by
  subst ht
  simp only [isProportion, ratio_of_neg he, Bool.not_false, Bool.true_and, decide_eq_true_eq]
  exact hm

theorem isProportion_ofRatio (hden : 0 < den) (h : num ≤ den) :
    (ofRatio false num den).isProportion = true := by
  unfold ofRatio
  split
  · exact isProportion_finite (t := 1074) (by decide) rfl (Nat.zero_le _)
  · next hnum =>
    have horder : binaryOrder num den ≤ 0 := binaryOrder_nonpos hnum h
    dsimp only
    generalize he : max (binaryOrder num den - 52) (-1074) = e
    have hneg : e ≤ -52 := by omega
    -- The quotient is counted in units of two to a negative power.
    have hscaled : scaled num den e = (num * Nat.pow 2 (-e).toNat, den) := by
      unfold scaled
      rw [if_neg (by omega)]
    rw [hscaled]
    dsimp only
    have hm : roundQuotient (num * Nat.pow 2 (-e).toNat) den ≤ Nat.pow 2 (-e).toNat :=
      roundQuotient_le hden (Nat.mul_le_mul_right _ h)
    generalize roundQuotient (num * Nat.pow 2 (-e).toNat) den = m at hm
    by_cases hfull : m = Nat.pow 2 53
    · rw [if_pos hfull]
      dsimp only
      have hwide : 53 ≤ (-e).toNat := by
        rw [hfull] at hm
        exact (Nat.pow_le_pow_iff_right (by decide)).1 hm
      rw [if_neg (by omega)]
      exact isProportion_finite (by omega) rfl (Nat.pow_le_pow_right (by decide) (by omega))
    · rw [if_neg hfull]
      dsimp only
      rw [if_neg (by omega)]
      exact isProportion_finite (by omega) rfl hm

end NoteDecor.Binary64
