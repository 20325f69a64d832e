import NoteDecor.Proofs.Value.Grounded
import NoteDecor.Proofs.Value.KeyPath

/-! What a value shows of itself to some depth. Two values that show the same to every depth hold
the same in every place, whatever knots they are parts of. -/

namespace NoteDecor.Value

def look : Nat → Value → Value
  | 0, _ => null
  | d + 1, v =>
    match v.opened with
    | list xs => list (xs.map (look d))
    | tuple xs => tuple (xs.map (look d))
    | map es => map (es.map fun e => (e.1, look d e.2))
    | u => u

/-- Two values show the same to every depth. -/
def LooksLike (v w : Value) : Prop := ∀ d, look d v = look d w

namespace LooksLike

variable {v w : Value}

theorem refl (v : Value) : v.LooksLike v := fun _ => rfl

theorem symm (h : v.LooksLike w) : w.LooksLike v := fun d => (h d).symm

theorem trans {u : Value} (h : u.LooksLike v) (h' : v.LooksLike w) : u.LooksLike w :=
  fun d => (h d).trans (h' d)

end LooksLike

theorem looksLike_of_opened {v w : Value} (h : v.opened = w.opened) : v.LooksLike w := by
  intro d
  cases d with
  | zero => rfl
  | succ d => rw [look, look, h]

theorem look_of_mapping {v : Value} {es : Entries} (h : v.mapping? = some es) (d : Nat) :
    look (d + 1) v = map (es.map fun e => (e.1, look d e.2)) := by
  rw [look, opened_of_mapping? h]

theorem mapping?_of_look {v : Value} {fs : Entries} {d : Nat} (h : look (d + 1) v = map fs) :
    ∃ es, v.mapping? = some es ∧ es.map (fun e => (e.1, look d e.2)) = fs := by
  unfold look at h
  unfold mapping?
  split at h
  · cases h
  · cases h
  · next es hes =>
    rw [hes]
    exact ⟨es, rfl, map.inj h⟩
  · next hne => exact absurd h (hne _)

theorem field?_looked (es : Entries) (k : String) (d : Nat) :
    Entries.field? (es.map fun e => (e.1, look d e.2)) k = (es.field? k).map (look d) := by
  induction es with
  | nil => rfl
  | cons e r ih =>
    rw [List.map_cons, Entries.field?_cons, Entries.field?_cons, ih]
    split <;> rfl

theorem LooksLike.field? {v w : Value} (h : v.LooksLike w) {es : Entries}
    (hes : v.mapping? = some es) :
    ∃ fs, w.mapping? = some fs ∧ ∀ k, Option.Rel LooksLike (es.field? k) (fs.field? k) := by
  have hlooked (d : Nat) := (h (d + 1)).symm.trans (look_of_mapping hes d)
  obtain ⟨fs, hfs, -⟩ := mapping?_of_look (hlooked 0)
  refine ⟨fs, hfs, fun k => ?_⟩
  have hk (d : Nat) : (fs.field? k).map (look d) = (es.field? k).map (look d) := by
    have hmaps := map.inj ((look_of_mapping hfs d).symm.trans (hlooked d))
    rw [← field?_looked, ← field?_looked, hmaps]
  cases he : es.field? k with
  | none =>
    have h0 := hk 0
    rw [he, Option.map_none, Option.map_eq_none_iff] at h0
    rw [h0]
    exact .none
  | some x =>
    cases hf : fs.field? k with
    | none =>
      have h0 := hk 0
      rw [he, hf] at h0
      cases h0
    | some y =>
      refine .some fun d => ?_
      have hd := hk d
      rw [he, hf] at hd
      exact (Option.some.inj hd).symm

theorem LooksLike.mapping?_eq_none {v w : Value} (h : v.LooksLike w) (hv : v.mapping? = none) :
    w.mapping? = none := by
  cases hw : w.mapping? with
  | none => rfl
  | some fs =>
    obtain ⟨es, hes, -⟩ := h.symm.field? hw
    rw [hv] at hes
    cases hes

theorem LooksLike.at? {v w : Value} (h : v.LooksLike w) (path : List String) :
    Option.Rel LooksLike (v.at? path) (w.at? path) := by
  induction path generalizing v w with
  | nil => exact .some h
  | cons k ks ih =>
    cases hv : v.mapping? with
    | none =>
      rw [at?_cons_of_bare hv, at?_cons_of_bare (h.mapping?_eq_none hv)]
      exact .none
    | some es =>
      obtain ⟨fs, hfs, hfields⟩ := h.field? hv
      have hk := hfields k
      rw [at?_cons hv, at?_cons hfs]
      generalize Entries.field? es k = x, Entries.field? fs k = y at hk ⊢
      cases hk with
      | none => exact .none
      | some hxy => exact ih hxy

end NoteDecor.Value
