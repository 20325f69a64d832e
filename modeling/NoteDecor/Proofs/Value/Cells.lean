import Mathlib.Data.List.Basic
import NoteDecor.Value.Basic

/-! What the cells of a knot amount to where they are mentioned. A cell below which every way ends
amounts to the same value however deep it is mentioned: the value of its own contents, filled. Any
other cell stands for the knot. -/

namespace NoteDecor.Value

mutual

theorem fillCells_congr {f g : Nat → Value} :
    ∀ {v : Value}, (∀ n ∈ mentioned v, f n = g n) → fillCells f v = fillCells g v
  | cell n, h => h n (List.mem_singleton_self n)
  | list _, h => congrArg list (fillCellsAll_congr h)
  | tuple _, h => congrArg tuple (fillCellsAll_congr h)
  | map _, h => congrArg map (fillCellsEach_congr h)
  | null, _ | bool _, _ | int _, _ | float _, _ | text _, _ | bytes _, _ | date _, _
  | moment _, _ | set _, _ | sealed _, _ | badge .., _ | outcome .., _ | knot .., _ => rfl

theorem fillCellsAll_congr {f g : Nat → Value} :
    ∀ {xs : List Value}, (∀ n ∈ mentionedInAll xs, f n = g n) →
      fillCellsAll f xs = fillCellsAll g xs
  | [], _ => rfl
  | x :: xs, h => by
    rw [fillCellsAll, fillCellsAll, fillCells_congr fun n hn => h n (List.mem_append_left _ hn),
      fillCellsAll_congr fun n hn => h n (List.mem_append_right _ hn)]

theorem fillCellsEach_congr {f g : Nat → Value} :
    ∀ {es : Entries}, (∀ n ∈ mentionedInEach es, f n = g n) →
      fillCellsEach f es = fillCellsEach g es
  | [], _ => rfl
  | (k, v) :: r, h => by
    rw [fillCellsEach, fillCellsEach, fillCells_congr fun n hn => h n (List.mem_append_left _ hn),
      fillCellsEach_congr fun n hn => h n (List.mem_append_right _ hn)]

end

mutual

theorem fillCells_cell : ∀ v : Value, fillCells cell v = v
  | list xs => congrArg list (fillCellsAll_cell xs)
  | tuple xs => congrArg tuple (fillCellsAll_cell xs)
  | map es => congrArg map (fillCellsEach_cell es)
  | cell _ | null | bool _ | int _ | float _ | text _ | bytes _ | date _ | moment _ | set _
  | sealed _ | badge .. | outcome .. | knot .. => rfl

theorem fillCellsAll_cell : ∀ xs : List Value, fillCellsAll cell xs = xs
  | [] => rfl
  | x :: xs => by rw [fillCellsAll, fillCells_cell x, fillCellsAll_cell xs]

theorem fillCellsEach_cell : ∀ es : Entries, fillCellsEach cell es = es
  | [] => rfl
  | (k, v) :: r => by rw [fillCellsEach, fillCells_cell v, fillCellsEach_cell r]

end

theorem fillCells_of_closed {f : Nat → Value} {v : Value} (h : v.mentioned = []) :
    fillCells f v = v := by
  rw [fillCells_congr (g := cell) fun n hn => absurd hn (by rw [h]; exact List.not_mem_nil),
    fillCells_cell]

theorem mem_fillCellsEach {f : Nat → Value} {es : Entries} {e : Value × Value}
    (h : e ∈ fillCellsEach f es) : ∃ x ∈ es, e.2 = fillCells f x.2 := by
  induction es with
  | nil => cases h
  | cons x r ih =>
    rcases List.mem_cons.1 h with rfl | h
    · exact ⟨x, List.mem_cons_self, rfl⟩
    · obtain ⟨y, hy, he⟩ := ih h
      exact ⟨y, List.mem_cons_of_mem x hy, he⟩

section Cells

variable {cells : List Value}

def endingAfter (cells : List Value) : Nat → List Nat
  | 0 => []
  | r + 1 => cellsOver cells (endingAfter cells r)

theorem mem_cellsOver {known : List Nat} {n : Nat} :
    n ∈ cellsOver cells known ↔
      n < cells.length ∧ ∀ m ∈ (cells.getD n null).mentioned, m ∈ known := by
  simp [cellsOver]

theorem endingAfter_mono {r s : Nat} (h : r ≤ s) : endingAfter cells r ⊆ endingAfter cells s := by
  have hstep (r : Nat) : endingAfter cells r ⊆ endingAfter cells (r + 1) := by
    induction r with
    | zero => exact List.nil_subset _
    | succ r ih =>
      intro n hn
      obtain ⟨hlt, hall⟩ := mem_cellsOver.1 hn
      exact mem_cellsOver.2 ⟨hlt, fun m hm => ih (hall m hm)⟩
  induction h with
  | refl => exact List.Subset.refl _
  | step _ ih => exact List.Subset.trans ih (hstep _)

theorem growEnding_endingAfter (cells : List Value) (fuel r : Nat) :
    ∃ s ≤ r + fuel, growEnding cells fuel (endingAfter cells r) = endingAfter cells s := by
  induction fuel generalizing r with
  | zero => exact ⟨r, Nat.le_refl r, rfl⟩
  | succ fuel ih =>
    unfold growEnding
    dsimp only
    split
    · exact ⟨r, by omega, rfl⟩
    · obtain ⟨s, hs, he⟩ := ih (r + 1)
      exact ⟨s, by omega, he⟩

theorem endingCells_eq (cells : List Value) :
    ∃ r ≤ cells.length, endingCells cells = endingAfter cells r := by
  obtain ⟨r, hr, he⟩ := growEnding_endingAfter cells cells.length 0
  exact ⟨r, by omega, he⟩

theorem endingAfter_sublist (cells : List Value) (r : Nat) :
    (endingAfter cells r).Sublist (endingAfter cells (r + 1)) := by
  cases r with
  | zero => exact List.nil_sublist _
  | succ r =>
    refine List.monotone_filter_right _ fun n hn => ?_
    simp only [List.all_eq_true, List.contains_iff_mem] at hn ⊢
    exact fun m hm => endingAfter_mono (Nat.le_succ r) (hn m hm)

theorem length_cellsOver_le (cells : List Value) (known : List Nat) :
    (cellsOver cells known).length ≤ cells.length :=
  Nat.le_trans (List.length_filter_le _ _) (Nat.le_of_eq List.length_range)

theorem cellsOver_growEnding {fuel r : Nat}
    (h : cells.length ≤ (endingAfter cells r).length + fuel) :
    cellsOver cells (growEnding cells fuel (endingAfter cells r)) =
      growEnding cells fuel (endingAfter cells r) := by
  induction fuel generalizing r with
  | zero =>
    have hfull := Nat.le_trans (length_cellsOver_le cells (endingAfter cells r)) h
    exact ((endingAfter_sublist cells r).eq_of_length_le hfull).symm
  | succ fuel ih =>
    unfold growEnding
    dsimp only
    split
    · next hsame => exact ((endingAfter_sublist cells r).eq_of_length hsame.symm).symm
    · next hmore =>
      have hlt : (endingAfter cells r).length < (endingAfter cells (r + 1)).length :=
        Nat.lt_of_le_of_ne (endingAfter_sublist cells r).length_le fun h => hmore h.symm
      have hnext : cells.length ≤ (endingAfter cells (r + 1)).length + fuel := by omega
      exact ih hnext

theorem mem_endingCells {n : Nat} : n ∈ endingCells cells ↔
    n < cells.length ∧ ∀ m ∈ (cells.getD n null).mentioned, m ∈ endingCells cells := by
  rw [← mem_cellsOver]
  unfold endingCells
  exact (cellsOver_growEnding (r := 0) (Nat.le_add_left cells.length _)).symm ▸ Iff.rfl

def whole (cells : List Value) : Nat → Value := untied cells (endingCells cells) cells.length

theorem untied_stable {ending : List Nat} {r : Nat} (hr : endingAfter cells r ⊆ ending) {n : Nat}
    (hn : n ∈ endingAfter cells r) {a b : Nat} (ha : r ≤ a) (hb : r ≤ b) :
    untied cells ending a n = untied cells ending b n := by
  induction r generalizing n a b with
  | zero => cases hn
  | succ r ih =>
    obtain ⟨a, rfl⟩ := Nat.exists_eq_add_of_le' (Nat.lt_of_lt_of_le (Nat.succ_pos r) ha)
    obtain ⟨b, rfl⟩ := Nat.exists_eq_add_of_le' (Nat.lt_of_lt_of_le (Nat.succ_pos r) hb)
    have hc : ending.contains n = true := List.contains_iff_mem.2 (hr hn)
    rw [untied, untied, if_pos hc, if_pos hc]
    obtain ⟨-, hall⟩ := mem_cellsOver.1 hn
    refine fillCells_congr fun m hm => ?_
    exact ih (List.Subset.trans (endingAfter_mono (Nat.le_succ r)) hr) (hall m hm) (by omega)
      (by omega)

theorem whole_of_mem {n : Nat} (hn : n ∈ endingCells cells) :
    whole cells n = fillCells (whole cells) (cells.getD n null) := by
  obtain ⟨r, hr, he⟩ := endingCells_eq cells
  have hn' := he ▸ hn
  cases r with
  | zero => cases hn'
  | succ r =>
    obtain ⟨-, hall⟩ := mem_cellsOver.1 hn'
    unfold whole
    obtain ⟨len, hlen⟩ := Nat.exists_eq_add_of_le' (Nat.lt_of_lt_of_le (Nat.succ_pos r) hr)
    rw [hlen] at hr
    simp only [hlen]
    rw [untied, if_pos (List.contains_iff_mem.2 hn)]
    refine fillCells_congr fun m hm => untied_stable (r := r) ?_ (hall m hm) (by omega) (by omega)
    rw [he]
    exact endingAfter_mono (Nat.le_succ r)

theorem whole_of_not_mem {n : Nat} (hn : n ∉ endingCells cells) :
    whole cells n = knot cells n := by
  unfold whole
  cases cells.length with
  | zero => rfl
  | succ len =>
    rw [untied, if_neg]
    rwa [List.contains_iff_mem]

end Cells

end NoteDecor.Value
