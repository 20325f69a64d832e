import NoteDecor.Proofs.Value.Freezing
import NoteDecor.Proofs.Value.KeyPath

/-! Storing a value under a key path: it is there afterwards, what is beside it stays as it was, and
only something on the way that is no mapping keeps it from being stored. One key of the path is
taken after the other. -/

namespace NoteDecor

namespace Entries

variable {es : Entries} {k : String}

theorem field?_setField (k : String) (v : Value) (es : Entries) (j : String) :
    (setField k v es).field? j = if j = k then some v else es.field? j := by
  induction es with
  | nil =>
    rw [setField, field?_cons]
    simp only [Value.isKey, beq_iff_eq, eq_comm (a := k)]
  | cons e r ih =>
    by_cases hk : e.1.isKey k = true
    · have hkey : e.1.isKey j = true ↔ j = k := by
        rw [Value.isKey_eq.1 hk, Value.isKey, beq_iff_eq, eq_comm]
      rw [setField, if_pos hk, field?_cons, field?_cons]
      simp only [hkey]
      split <;> rfl
    · rw [setField, if_neg hk, field?_cons, field?_cons, ih]
      by_cases hj : j = k
      · rw [if_pos hj, hj, if_neg hk, if_pos rfl]
      · rw [if_neg hj, if_neg hj]

theorem field?_setField_self (k : String) (v : Value) (es : Entries) :
    (setField k v es).field? k = some v := by
  rw [field?_setField, if_pos rfl]

theorem field?_setField_of_ne {j : String} (hj : j ≠ k) (v : Value) :
    (setField k v es).field? j = es.field? j := by
  rw [field?_setField, if_neg hj]

theorem setField_setField (k : String) (v w : Value) (es : Entries) :
    setField k w (setField k v es) = setField k w es := by
  induction es with
  | nil => simp only [setField, Value.isKey, beq_self_eq_true, if_true]
  | cons e r ih =>
    by_cases hk : e.1.isKey k = true
    · simp only [setField, if_pos hk]
    · simp only [setField, if_neg hk, ih]

end Entries

namespace Value
open Settings

def Beside (other path : List String) : Prop := ¬ other <+: path ∧ ¬ path <+: other

instance (other path : List String) : Decidable (Beside other path) :=
  inferInstanceAs (Decidable (_ ∧ _))

theorem not_beside_nil (path : List String) : ¬ Beside [] path := fun h => h.1 List.nil_prefix

theorem not_beside_of_nil (other : List String) : ¬ Beside other [] := fun h => h.2 List.nil_prefix

theorem beside_cons {j k : String} {js ks : List String} :
    Beside (j :: js) (k :: ks) ↔ (j = k → Beside js ks) := by
  unfold Beside
  rw [List.cons_prefix_cons, List.cons_prefix_cons, eq_comm (a := k)]
  by_cases hjk : j = k <;> simp [hjk]

def Lawful (R : Value → Value → Prop) (path : List String) (new v : Value) : Prop :=
  match v.setAt path new with
  | .error _ => found path v = .blocked
  | .ok w => found path v ≠ .blocked ∧ w.at? path = some new ∧
      ∀ other, Beside other path → Option.Rel R (v.at? other) (w.at? other)

section Lawful

variable {R : Value → Value → Prop} {v w new : Value} {es fs : Entries} {k : String}
  {path ks : List String}

theorem Lawful.exists_error (h : Lawful R path new v) (hb : found path v = .blocked) :
    ∃ f, v.setAt path new = .error f := by
  unfold Lawful at h
  cases hs : v.setAt path new with
  | error f => exact ⟨f, rfl⟩
  | ok w =>
    rw [hs] at h
    exact absurd hb h.1

theorem Lawful.exists_ok (h : Lawful R path new v) (hb : found path v ≠ .blocked) :
    ∃ w, v.setAt path new = .ok w ∧ w.at? path = some new ∧
      ∀ other, Beside other path → Option.Rel R (v.at? other) (w.at? other) := by
  unfold Lawful at h
  cases hs : v.setAt path new with
  | error f =>
    rw [hs] at h
    exact absurd h hb
  | ok w =>
    rw [hs] at h
    exact ⟨w, rfl, h.2⟩

theorem setAt_nil (v new : Value) : v.setAt [] new = .ok new := by
  cases v <;> rfl

theorem setAt_map_cons (es : Entries) (k : String) (ks : List String) (new : Value) :
    (map es).setAt (k :: ks) new = (((es.field? k).getD (map [])).setAt ks new).map
      fun inner => map (es.setField k inner) := by
  cases ks with
  | nil =>
    rw [setAt_nil]
    rfl
  | cons j js => rfl

theorem found_nil_ne_blocked (v : Value) : found [] v ≠ .blocked := by
  unfold found
  intro h
  split at h <;> cases h

theorem found_made_eq_blocked_iff (es : Entries) (k : String) (ks : List String) :
    found ks ((es.field? k).getD (map [])) = .blocked ↔ found (k :: ks) (map es) = .blocked := by
  rw [found_cons rfl]
  cases es.field? k with
  | some u => exact Iff.rfl
  | none =>
    cases ks with
    | nil => exact iff_of_false (found_nil_ne_blocked _) (by nofun)
    | cons j js => exact iff_of_false (by nofun) (by nofun)

theorem lawful_nil (v new : Value) : Lawful R [] new v := by
  unfold Lawful
  rw [setAt_nil]
  exact ⟨found_nil_ne_blocked v, rfl, fun other h => absurd h (not_beside_of_nil other)⟩

theorem rel_beside {x : Value}
    (hv : v.mapping? = some es) (hw : w.mapping? = some fs)
    (hother : ∀ j ≠ k, ∀ js,
      Option.Rel R ((es.field? j).bind (at? js)) ((fs.field? j).bind (at? js)))
    (hk : fs.field? k = some x)
    (hbelow : ∀ js, Beside js ks → Option.Rel R (((es.field? k).getD (map [])).at? js) (x.at? js))
    {other : List String} (h : Beside other (k :: ks)) :
    Option.Rel R (v.at? other) (w.at? other) := by
  cases other with
  | nil => exact absurd h (not_beside_nil _)
  | cons j js =>
    rw [at?_cons hv, at?_cons hw]
    by_cases hj : j = k
    · have hjs := beside_cons.1 h hj
      have hrel := hbelow js hjs
      rw [hj, hk]
      cases hf : es.field? k with
      | some u =>
        rw [hf] at hrel
        exact hrel
      | none =>
        rw [hf] at hrel
        cases js with
        | nil => exact absurd hjs (not_beside_nil _)
        | cons i is => exact hrel
    · exact hother j hj js

theorem Lawful.cons (hR : ∀ x, R x x) (h : Lawful R ks new ((es.field? k).getD (map []))) :
    Lawful R (k :: ks) new (map es) := by
  unfold Lawful
  rw [setAt_map_cons]
  cases hs : ((es.field? k).getD (map [])).setAt ks new with
  | error f =>
    unfold Lawful at h
    rw [hs] at h
    exact (found_made_eq_blocked_iff es k ks).1 h
  | ok inner =>
    unfold Lawful at h
    rw [hs] at h
    obtain ⟨hopen, hat, hbeside⟩ := h
    refine ⟨fun hb => hopen ((found_made_eq_blocked_iff es k ks).2 hb), ?_, fun other hother => ?_⟩
    · rw [at?_cons rfl, Entries.field?_setField_self]
      exact hat
    · refine rel_beside rfl rfl (fun j hj js => ?_) (Entries.field?_setField_self k inner es)
        hbeside hother
      rw [Entries.field?_setField_of_ne hj]
      cases (es.field? j).bind (at? js) with
      | none => exact .none
      | some x => exact .some (hR x)

theorem lawful_of_bare (hv : v.mapping? = none) (hknot : ∀ cells n, v ≠ knot cells n)
    (path : List String) (new : Value) : Lawful R path new v := by
  cases path with
  | nil => exact lawful_nil v new
  | cons k ks =>
    have hfound : found (k :: ks) v = .blocked := found_cons_of_bare hv
    unfold Lawful
    cases v with
    | map es => cases hv
    | knot cells n => exact absurd rfl (hknot cells n)
    | _ => cases ks <;> exact hfound

theorem ends_field? (h : (map es).ends = true) (k : String) :
    ((es.field? k).getD (map [])).ends = true := by
  cases hf : es.field? k with
  | none => rfl
  | some u =>
    obtain ⟨e, he, rfl⟩ := Entries.mem_of_field? hf
    exact endsEach_iff.1 h e he

theorem lawful_of_ends (h : v.ends = true) (path : List String) (new : Value) :
    Lawful Eq path new v := by
  induction path generalizing v with
  | nil => exact lawful_nil v new
  | cons k ks ih =>
    cases v with
    | map es => exact (ih (ends_field? h k)).cons fun x => rfl
    | knot cells n => cases h
    | _ => exact lawful_of_bare rfl (by nofun) _ _

theorem at?_eq_of_ends (h : v.ends = true) (hopen : found path v ≠ .blocked)
    (hw : v.setAt path new = .ok w) (other : List String) (hother : Beside other path) :
    w.at? other = v.at? other := by
  obtain ⟨u, hu, -, hbeside⟩ := (lawful_of_ends h path new).exists_ok hopen
  rw [hw] at hu
  cases hu
  have hrel := hbeside other hother
  generalize v.at? other = x, w.at? other = y at hrel ⊢
  cases hrel with
  | none => rfl
  | some hxy => rw [hxy]

end Lawful

end Value

end NoteDecor
