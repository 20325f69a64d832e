import Mathlib.Logic.Relation
import NoteDecor.Proofs.Value.Cells
import NoteDecor.Proofs.Value.Freezing
import NoteDecor.Proofs.Value.KeyedOnce

/-! A value is grounded if no way down through its mappings goes on for ever. A grounded value can
be merged over any entries: the mappings below a value are no more than are counted in it, and on
the way down none of them is met twice. -/

namespace NoteDecor.Value
open Relation

def Inner (fs es : Entries) : Prop := ∃ e ∈ es, e.2.mapping? = some fs

def Grounded (v : Value) : Prop := ∀ es, v.mapping? = some es → Acc Inner es

mutual

def openings : Value → (Nat → Value) → List Entries
  | map es, f => fillCellsEach f es :: openingsEach es f
  | knot cells _, _ => openingsAll cells (whole cells)
  | _, _ => []

def openingsAll : List Value → (Nat → Value) → List Entries
  | [], _ => []
  | x :: xs, f => openings x f ++ openingsAll xs f

def openingsEach : Entries → (Nat → Value) → List Entries
  | [], _ => []
  | (_, v) :: r, f => openings v f ++ openingsEach r f

end

mutual

theorem length_openings_le : ∀ (v : Value) (f : Nat → Value),
    (openings v f).length ≤ v.mappings
  | map es, f => Nat.succ_le_succ (length_openingsEach_le es f)
  | knot cells _, _ => Nat.le_succ_of_le (length_openingsAll_le cells (whole cells))
  | cell _, _ | null, _ | bool _, _ | int _, _ | float _, _ | text _, _ | bytes _, _ | date _, _
  | moment _, _ | list _, _ | tuple _, _ | set _, _ | sealed _, _ | badge .., _
  | outcome .., _ => Nat.zero_le _

theorem length_openingsAll_le : ∀ (xs : List Value) (f : Nat → Value),
    (openingsAll xs f).length ≤ mappingsInAll xs
  | [], _ => Nat.le_refl 0
  | x :: xs, f => by
    rw [openingsAll, List.length_append]
    exact Nat.add_le_add (length_openings_le x f) (length_openingsAll_le xs f)

theorem length_openingsEach_le : ∀ (es : Entries) (f : Nat → Value),
    (openingsEach es f).length ≤ mappingsInEach es
  | [], _ => Nat.le_refl 0
  | (_, v) :: r, f => by
    rw [openingsEach, List.length_append]
    exact Nat.add_le_add (length_openings_le v f) (length_openingsEach_le r f)

end

theorem openings_subset_all {f : Nat → Value} {x : Value} {xs : List Value} (h : x ∈ xs) :
    openings x f ⊆ openingsAll xs f := by
  induction xs with
  | nil => cases h
  | cons y ys ih =>
    rcases List.mem_cons.1 h with rfl | h
    · exact List.subset_append_left _ _
    · exact List.Subset.trans (ih h) (List.subset_append_right _ _)

theorem openings_subset_each {f : Nat → Value} {e : Value × Value} {es : Entries} (h : e ∈ es) :
    openings e.2 f ⊆ openingsEach es f := by
  induction es with
  | nil => cases h
  | cons y ys ih =>
    rcases List.mem_cons.1 h with rfl | h
    · exact List.subset_append_left _ _
    · exact List.Subset.trans (ih h) (List.subset_append_right _ _)

def isCell : Value → Bool
  | cell _ => true
  | _ => false

theorem mapping?_map (es : Entries) : (map es).mapping? = some es := rfl

theorem mapping?_knot {cells : List Value} {n : Nat} {es : Entries}
    (h : (knot cells n).mapping? = some es) :
    fillCells (whole cells) (cells.getD n null) = map es := opened_of_mapping? h

theorem eq_cell_of_isCell {v : Value} (h : v.isCell = true) : ∃ n, v = cell n := by
  cases v with
  | cell n => exact ⟨n, rfl⟩
  | _ => cases h

theorem getD_mem {cells : List Value} {n : Nat} (h : n < cells.length) :
    cells.getD n null ∈ cells := by
  rw [List.getD_eq_getElem?_getD, List.getElem?_eq_getElem h]
  exact List.getElem_mem h

theorem getD_of_length_le {cells : List Value} {n : Nat} (h : cells.length ≤ n) :
    cells.getD n null = null := by
  rw [List.getD_eq_getElem?_getD, List.getElem?_eq_none h]
  rfl

section Knot

variable {cells : List Value}
  (hcells : ∀ c ∈ cells, c.isCell = false → ∀ es,
    (fillCells (whole cells) c).mapping? = some es → es ∈ openingsAll cells (whole cells))
include hcells

theorem mem_openingsAll_of_ending {r : Nat} (hr : endingAfter cells r ⊆ endingCells cells) {n : Nat}
    (hn : n ∈ endingAfter cells r) {es : Entries} (h : (whole cells n).mapping? = some es) :
    es ∈ openingsAll cells (whole cells) := by
  induction r generalizing n with
  | zero => cases hn
  | succ r ih =>
    obtain ⟨hlt, hall⟩ := mem_cellsOver.1 hn
    rw [whole_of_mem (hr hn)] at h
    cases hc : (cells.getD n null).isCell with
    | false => exact hcells _ (getD_mem hlt) hc es h
    | true =>
      obtain ⟨m, hm⟩ := eq_cell_of_isCell hc
      rw [hm] at h hall
      exact ih (List.Subset.trans (endingAfter_mono (Nat.le_succ r)) hr)
        (hall m (List.mem_singleton_self m)) h

theorem mem_openingsAll_of_endingCell {n : Nat} (hn : n ∈ endingCells cells) {es : Entries}
    (h : (whole cells n).mapping? = some es) : es ∈ openingsAll cells (whole cells) := by
  obtain ⟨r, -, hr⟩ := endingCells_eq cells
  exact mem_openingsAll_of_ending hcells (hr ▸ List.Subset.refl _) (hr ▸ hn) h

theorem mem_openingsAll_of_knot {n : Nat} {es : Entries} (h : (knot cells n).mapping? = some es) :
    es ∈ openingsAll cells (whole cells) := by
  have hopened := mapping?_knot h
  cases hc : (cells.getD n null).isCell with
  | false =>
    by_cases hlt : n < cells.length
    · refine hcells _ (getD_mem hlt) hc es ?_
      rw [hopened, mapping?_map]
    · rw [getD_of_length_le (Nat.le_of_not_lt hlt)] at hopened
      cases hopened
  | true =>
    obtain ⟨m, hm⟩ := eq_cell_of_isCell hc
    rw [hm] at hopened
    have hwhole : whole cells m = map es := hopened
    by_cases hending : m ∈ endingCells cells
    · refine mem_openingsAll_of_endingCell hcells hending ?_
      rw [hwhole, mapping?_map]
    · rw [whole_of_not_mem hending] at hwhole
      cases hwhole

theorem mem_openingsAll_of_whole {n : Nat} {es : Entries}
    (h : (whole cells n).mapping? = some es) : es ∈ openingsAll cells (whole cells) := by
  by_cases hending : n ∈ endingCells cells
  · exact mem_openingsAll_of_endingCell hcells hending h
  · rw [whole_of_not_mem hending] at h
    exact mem_openingsAll_of_knot hcells h

end Knot

mutual

theorem mem_openings : ∀ (v : Value) (f : Nat → Value), v.isCell = false → ∀ es,
    (fillCells f v).mapping? = some es → es ∈ openings v f
  | map _, _, _, _, h => by
    cases h
    exact List.mem_cons_self
  | knot cells _, _, _, _, h =>
    mem_openingsAll_of_knot (fun c hc hcell es hes =>
      openings_subset_all hc (mem_openings_of_mem cells c hc (whole cells) hcell es hes)) h
  | cell _, _, hv, _, _ => by cases hv
  | null, _, _, _, h | bool _, _, _, _, h | int _, _, _, _, h | float _, _, _, _, h
  | text _, _, _, _, h | bytes _, _, _, _, h | date _, _, _, _, h | moment _, _, _, _, h
  | list _, _, _, _, h | tuple _, _, _, _, h | set _, _, _, _, h | sealed _, _, _, _, h
  | badge .., _, _, _, h | outcome .., _, _, _, h => by cases h

theorem mem_openings_of_mem : ∀ (xs : List Value), ∀ x ∈ xs, ∀ (f : Nat → Value),
    x.isCell = false → ∀ es, (fillCells f x).mapping? = some es → es ∈ openings x f
  | x :: xs, y, hy, f, hcell, es, h => by
    rcases List.mem_cons.1 hy with hyx | hy
    · rw [hyx] at hcell h ⊢
      exact mem_openings x f hcell es h
    · exact mem_openings_of_mem xs y hy f hcell es h

end

def OpensTo (f : Nat → Value) (all : List Entries) : Prop :=
  ∀ n es, (f n).mapping? = some es → es ∈ all

theorem opensTo_whole (cells : List Value) :
    OpensTo (whole cells) (openingsAll cells (whole cells)) := by
  intro n es h
  exact mem_openingsAll_of_whole (fun c hc hcell es hes =>
    openings_subset_all hc (mem_openings c (whole cells) hcell es hes)) h

theorem mem_of_mapping?_fillCells {f : Nat → Value} {all : List Entries} (hf : OpensTo f all)
    {v : Value} (hv : openings v f ⊆ all) {es : Entries}
    (h : (fillCells f v).mapping? = some es) : es ∈ all := by
  cases hc : v.isCell with
  | false => exact hv (mem_openings v f hc es h)
  | true =>
    obtain ⟨n, rfl⟩ := eq_cell_of_isCell hc
    exact hf n es h

mutual

theorem inner_mem_openings : ∀ (v : Value) (f : Nat → Value) (all : List Entries),
    OpensTo f all → openings v f ⊆ all → ∀ es ∈ openings v f, ∀ fs, Inner fs es → fs ∈ all
  | map xs, f, all, hf, hall, es, hes, fs, hfs => by
    obtain ⟨-, heach⟩ := List.cons_subset.1 hall
    rcases List.mem_cons.1 hes with rfl | hes
    · obtain ⟨e, he, hopen⟩ := hfs
      obtain ⟨x, hx, hex⟩ := mem_fillCellsEach he
      rw [hex] at hopen
      exact mem_of_mapping?_fillCells hf
        (List.Subset.trans (openings_subset_each hx) heach) hopen
    · exact inner_mem_openingsEach xs f all hf heach es hes fs hfs
  | knot cells _, _, all, _, hall, es, hes, fs, hfs =>
    inner_mem_openingsAll cells (whole cells) all
      (fun n es h => hall (opensTo_whole cells n es h)) hall es hes fs hfs

theorem inner_mem_openingsAll : ∀ (xs : List Value) (f : Nat → Value) (all : List Entries),
    OpensTo f all → openingsAll xs f ⊆ all → ∀ es ∈ openingsAll xs f, ∀ fs, Inner fs es → fs ∈ all
  | x :: xs, f, all, hf, hall, es, hes, fs, hfs => by
    obtain ⟨hx, hxs⟩ := List.append_subset.1 hall
    rcases List.mem_append.1 hes with hes | hes
    · exact inner_mem_openings x f all hf hx es hes fs hfs
    · exact inner_mem_openingsAll xs f all hf hxs es hes fs hfs

theorem inner_mem_openingsEach : ∀ (xs : Entries) (f : Nat → Value) (all : List Entries),
    OpensTo f all → openingsEach xs f ⊆ all → ∀ es ∈ openingsEach xs f, ∀ fs, Inner fs es → fs ∈ all
  | (_, v) :: r, f, all, hf, hall, es, hes, fs, hfs => by
    obtain ⟨hv, hr⟩ := List.append_subset.1 hall
    rcases List.mem_append.1 hes with hes | hes
    · exact inner_mem_openings v f all hf hv es hes fs hfs
    · exact inner_mem_openingsEach r f all hf hr es hes fs hfs

end

theorem exists_below {v : Value} {es : Entries} (h : v.mapping? = some es) :
    ∃ all : List Entries, all.length ≤ v.mappings ∧ ∀ fs, TransGen Inner fs es → fs ∈ all := by
  have hloose : OpensTo cell (openings v cell) := fun n es hn => by cases hn
  have hself : es ∈ openings v cell := by
    refine mem_of_mapping?_fillCells hloose (List.Subset.refl _) ?_
    rw [fillCells_cell]
    exact h
  have hinner := inner_mem_openings v cell _ hloose (List.Subset.refl _)
  refine ⟨openings v cell, length_openings_le v cell, fun fs hfs => ?_⟩
  induction hfs using TransGen.head_induction_on with
  | single hfs => exact hinner es hself _ hfs
  | head hfs _ ih => exact hinner _ ih _ hfs

theorem not_below_self {es : Entries} (h : Acc Inner es) : ¬ TransGen Inner es es := by
  have hacc := h.transGen
  clear h
  induction hacc with
  | intro x _ ih => exact fun hx => ih x hx hx

theorem mergeEntries_ok {fuel : Nat} {es : Entries} (hes : Acc Inner es) (below : List Entries)
    (hbelow : ∀ fs, TransGen Inner fs es → fs ∈ below) (hfuel : below.length < fuel)
    (base : Entries) : ∃ m, mergeEntries fuel base es = .ok m := by
  classical
  induction fuel generalizing es below base with
  | zero => cases hfuel
  | succ fuel ih =>
    unfold mergeEntries
    refine exists_foldlM_eq_ok (fun acc e he => ?_) base
    split
    · next old new hold hnew =>
        have hinner : Inner new es := ⟨e, he, hnew⟩
        -- on the way down the mapping itself is met no more
        have hshorter : (below.filter (· ≠ new)).length < fuel := by
          have hlt : (below.filter (· ≠ new)).length < below.length :=
            List.length_filter_lt_length_iff_exists.2
              ⟨new, hbelow new (.single hinner), by simp⟩
          omega
        obtain ⟨m, hm⟩ := ih (hes.inv hinner) (below.filter (· ≠ new))
          (fun fs hfs => List.mem_filter.2 ⟨hbelow fs (hfs.tail hinner), by
            rw [decide_eq_true_eq]
            rintro rfl
            exact not_below_self (hes.inv hinner) hfs⟩) hshorter old
        exact ⟨_, by rw [hm]; rfl⟩
    · exact ⟨_, rfl⟩

theorem merge_ok_of_grounded {v : Value} {es : Entries} (h : v.mapping? = some es)
    (hv : v.Grounded) (base : Entries) : ∃ m, v.merge base = .ok m := by
  obtain ⟨below, hlength, hbelow⟩ := exists_below h
  have hfuel : v.mappings < ((map base).mappings + 1) * (v.mappings + 1) :=
    Nat.lt_of_lt_of_le (Nat.lt_succ_self _) (Nat.le_mul_of_pos_left _ (Nat.succ_pos _))
  unfold merge
  rw [h]
  exact mergeEntries_ok (hv es h) below hbelow (Nat.lt_of_le_of_lt hlength hfuel) base

mutual

theorem grounded_of_ends : ∀ {v : Value}, v.ends = true → v.Grounded
  | map es, h => by
    rintro fs ⟨⟩
    exact ⟨es, fun gs ⟨e, he, hgs⟩ => groundedEach_of_ends h e he gs hgs⟩
  | knot .., h => by cases h
  | cell _, _ | null, _ | bool _, _ | int _, _ | float _, _ | text _, _ | bytes _, _ | date _, _
  | moment _, _ | list _, _ | tuple _, _ | set _, _ | sealed _, _ | badge .., _
  | outcome .., _ => by rintro es ⟨⟩

theorem groundedEach_of_ends : ∀ {es : Entries}, endsEach es = true → ∀ e ∈ es, e.2.Grounded
  | (_, v) :: r, h, e, he => by
    obtain ⟨hv, hr⟩ := Bool.and_eq_true_iff.1 h
    rcases List.mem_cons.1 he with rfl | he
    · exact grounded_of_ends hv
    · exact groundedEach_of_ends hr e he

end

end NoteDecor.Value
