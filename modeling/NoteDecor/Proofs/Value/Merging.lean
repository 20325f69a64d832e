import NoteDecor.Proofs.Value.KeyedOnce

/-! What a merging leaves under a text key. Entries are merged one after the other and each touches
only what is under its own key, so that one key can be followed without the others. -/

namespace NoteDecor

namespace Value

theorem isKey_eq {k : String} {v : Value} : v.isKey k = true ↔ v = text k := by
  cases v <;> simp [isKey]

theorem isKey_of_same {key v : Value} (h : key.same v = true) (k : String) :
    v.isKey k = key.isKey k := by
  by_cases hk : key.isKey k = true
  · rw [isKey_eq.1 hk, same_text_left] at h
    rw [h, hk]
  · rw [Bool.not_eq_true] at hk
    rw [hk, Bool.eq_false_iff]
    intro hv
    rw [isKey_eq.1 hv, same_text_right, hk] at h
    cases h

theorem isKey_of_not_same {key v : Value} (h : ¬ key.same v = true) {k : String}
    (hv : v.isKey k = true) : key.isKey k = false := by
  rw [isKey_eq.1 hv, same_text_right, Bool.not_eq_true] at h
  exact h

end Value

open Value

namespace Entries

theorem field?_cons (e : Value × Value) (r : Entries) (k : String) :
    field? (e :: r) k = if e.1.isKey k then some e.2 else field? r k := by
  unfold field?
  rw [List.find?_cons]
  cases e.1.isKey k <;> rfl

theorem get?_text (es : Entries) (k : String) : es.get? (text k) = es.field? k := by
  simp only [get?, field?, same_text_left]

theorem field?_put (key v : Value) (es : Entries) (k : String) :
    (put key v es).field? k = if key.isKey k then some v else es.field? k := by
  induction es with
  | nil => exact field?_cons (key, v) [] k
  | cons e r ih =>
    by_cases hs : key.same e.1 = true
    · rw [put, if_pos hs, field?_cons, field?_cons, isKey_of_same hs]
      split <;> rfl
    · rw [put, if_neg hs, field?_cons, field?_cons, ih]
      by_cases he : e.1.isKey k = true
      · rw [if_pos he, if_pos he, isKey_of_not_same hs he]
        rfl
      · rw [if_neg he, if_neg he]

end Entries

namespace Value

def Placed (old : Option Value) (v placed : Value) : Prop :=
  match old.bind mapping?, v.mapping? with
  | some base, some es => ∃ fuel m, mergeEntries fuel base es = .ok m ∧ placed = map m
  | _, _ => placed = v

theorem Placed.eq_of_bare {old : Option Value} {v placed : Value} (h : Placed old v placed)
    (hv : v.mapping? = none) : placed = v := by
  unfold Placed at h
  rw [hv] at h
  split at h
  · next hno => cases hno
  · exact h

theorem Placed.eq_of_bare_below {old : Option Value} {v placed : Value} (h : Placed old v placed)
    (hold : old.bind mapping? = none) : placed = v := by
  unfold Placed at h
  rw [hold] at h
  exact h

theorem Placed.of_mappings {old : Option Value} {v placed : Value} {base es : Entries}
    (h : Placed old v placed) (hold : old.bind mapping? = some base) (hv : v.mapping? = some es) :
    ∃ fuel m, mergeEntries fuel base es = .ok m ∧ placed = map m := by
  unfold Placed at h
  rw [hold, hv] at h
  exact h

def Overlaid (old new merged : Option Value) : Prop :=
  match new with
  | none => merged = old
  | some v => ∃ placed, merged = some placed ∧ Placed old v placed

theorem mergeEntries_nil {fuel : Nat} {base m : Entries}
    (h : mergeEntries fuel base [] = .ok m) : m = base := by
  cases fuel with
  | zero => cases h
  | succ fuel =>
    cases h
    rfl

theorem mergeEntries_cons {fuel : Nat} {base r m : Entries} {e : Value × Value}
    (h : mergeEntries fuel base (e :: r) = .ok m) :
    ∃ v, Placed (base.get? e.1) e.2 v ∧ mergeEntries fuel (base.put e.1 v) r = .ok m := by
  cases fuel with
  | zero => cases h
  | succ fuel =>
    unfold mergeEntries at h ⊢
    rw [List.foldlM_cons] at h
    obtain ⟨acc, hacc, hr⟩ := bind_eq_ok.1 h
    split at hacc
    · next old new hold hnew =>
        obtain ⟨inner, hinner, hput⟩ := bind_eq_ok.1 hacc
        cases hput
        refine ⟨map inner, ?_, hr⟩
        unfold Placed
        rw [hold, hnew]
        exact ⟨fuel, inner, hinner, rfl⟩
    · next hno =>
        cases hacc
        refine ⟨e.2, ?_, hr⟩
        unfold Placed
        split
        · next old new hold hnew => exact (hno old new hold hnew).elim
        · rfl

theorem field?_mergeEntries {fuel : Nat} {base es m : Entries}
    (h : mergeEntries fuel base es = .ok m) (hn : es.names.Nodup) (k : String) :
    Overlaid (base.field? k) (es.field? k) (m.field? k) := by
  induction es generalizing base with
  | nil => exact congrArg (Entries.field? · k) (mergeEntries_nil h)
  | cons e r ih =>
    obtain ⟨v, hv, hr⟩ := mergeEntries_cons h
    have hnames := Entries.names_cons e r
    rw [Entries.field?_cons]
    by_cases he : e.1.isKey k = true
    · -- the rest of the entries names the key no more
      have hkey := isKey_eq.1 he
      rw [hkey] at hnames
      rw [hnames] at hn
      obtain ⟨hout, hrest⟩ := List.nodup_cons.1 hn
      have hm := ih hr hrest
      rw [Entries.field?_eq_none_iff.2 hout, Overlaid, Entries.field?_put, if_pos he] at hm
      rw [hkey, Entries.get?_text] at hv
      rw [if_pos he]
      exact ⟨v, hm, hv⟩
    · have hrest : (Entries.names r).Nodup := by
        rw [hnames] at hn
        split at hn
        · exact (List.nodup_cons.1 hn).2
        · exact hn
      have hm := ih hr hrest
      rw [Entries.field?_put, if_neg he] at hm
      rw [if_neg he]
      exact hm

end Value

end NoteDecor
