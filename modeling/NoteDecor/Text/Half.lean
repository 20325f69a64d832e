import NoteDecor.Text.Basic

/-!
Halves of surrogate pairs. A half on its own is no character, but a text may come with one: it is
kept as a private character, one for each half, and two halves in a row stay two. These private
characters, U+F5800 to U+F5FFF, have no other use here: where octets or an escape name one of them,
it is read as the replacement character.
-/

namespace NoteDecor.Text

def halfStart : Nat := 0xD800
def halfEnd : Nat := 0xDFFF

def halfShift : Nat := 0xE8000

def isHalf (n : Nat) : Bool := halfStart ≤ n && n ≤ halfEnd

theorem isHalf_iff {n : Nat} : isHalf n = true ↔ 0xD800 ≤ n ∧ n ≤ 0xDFFF := by
  rw [isHalf, Bool.and_eq_true, decide_eq_true_eq, decide_eq_true_eq]
  exact Iff.rfl

/-- A code point as a character, also where it is a half. A private character that stands for a half
is no code point of a text. -/
def ofCodePoint (n : Nat) : Char :=
  if isHalf n then Char.ofNat (n + halfShift)
  else if isHalf (n - halfShift) then '\uFFFD'
  else Char.ofNat n

def half? (c : Char) : Option Nat :=
  if isHalf (c.toNat - halfShift) then some (c.toNat - halfShift) else none

theorem toNat_ofNat {n : Nat} (h : n.isValidChar) : (Char.ofNat n).toNat = n := by
  rw [Char.ofNat, dif_pos h]
  rfl

theorem half?_ofCodePoint (n : Nat) :
    half? (ofCodePoint n) = if isHalf n then some n else none := by
  unfold ofCodePoint half?
  by_cases hn : isHalf n = true
  · have hvalid : (n + halfShift).isValidChar := by
      have hbounds := isHalf_iff.1 hn
      exact .inr ⟨by unfold halfShift; omega, by unfold halfShift; omega⟩
    rw [if_pos hn, if_pos hn, toNat_ofNat hvalid, Nat.add_sub_cancel, if_pos hn]
  · rw [if_neg hn, if_neg hn]
    by_cases hprivate : isHalf (n - halfShift) = true
    · rw [if_pos hprivate]
      decide
    · rw [if_neg hprivate]
      by_cases hvalid : n.isValidChar
      · rw [toNat_ofNat hvalid, if_neg hprivate]
      · rw [Char.ofNat, dif_neg hvalid]
        decide
def isOctetHalf (n : Nat) : Bool := 0xDC80 ≤ n && n ≤ 0xDCFF

def isNameless (c : Char) : Bool := (half? c).any fun n => !isOctetHalf n

/-- Where such a half first stands in a text, and how many halves of any kind stand there in a
row. -/
def namelessRun? (s : List Char) : Option (Nat × Nat) :=
  match s.dropWhile fun c => !isNameless c with
  | [] => none
  | rest => some ((s.takeWhile fun c => !isNameless c).length,
      (rest.takeWhile fun c => (half? c).isSome).length)

example : half? (ofCodePoint 0xD83D) = some 0xD83D ∧ half? (ofCodePoint 0x1F600) = none ∧
    namelessRun? ['a', ofCodePoint 0xD800, ofCodePoint 0xDC80] = some (1, 2) := by
  decide +kernel

end NoteDecor.Text
