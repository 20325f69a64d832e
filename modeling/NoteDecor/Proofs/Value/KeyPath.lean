import NoteDecor.Proofs.Value.Merging

/-! What a key path meets in a value, and what is under it where one value is merged over another:
the value merged over decides, unless the path leaves it through a key that it does not have. -/

namespace NoteDecor.Value

inductive Found where
  | missing
  | blocked
  | branch
  | leaf (v : Value)

def found : List String → Value → Found
  | [], v => if v.mapping?.isSome then .branch else .leaf v
  | k :: ks, v =>
    match v.mapping? with
    | none => .blocked
    | some es =>
      match es.field? k with
      | none => .missing
      | some w => found ks w

section Found

variable {v w : Value} {es : Entries} {k : String} {ks : List String}

theorem found_nil_of_bare (hv : v.mapping? = none) : found [] v = .leaf v := by
  rw [found, hv]
  rfl

theorem found_nil_of_mapping (hv : v.mapping? = some es) : found [] v = .branch := by
  rw [found, hv]
  rfl

theorem found_cons_of_bare (hv : v.mapping? = none) : found (k :: ks) v = .blocked := by
  rw [found, hv]

theorem found_cons (hv : v.mapping? = some es) :
    found (k :: ks) v = match es.field? k with
      | none => .missing
      | some w => found ks w := by
  rw [found, hv]

theorem at?_cons_of_bare (hv : v.mapping? = none) : at? (k :: ks) v = none := by
  rw [at?, hv]
  rfl

theorem at?_cons (hv : v.mapping? = some es) :
    at? (k :: ks) v = (es.field? k).bind (at? ks) := by
  rw [at?, hv]
  rfl

theorem at?_append (front rest : List String) (v : Value) :
    at? (front ++ rest) v = (at? front v).bind (at? rest) := by
  induction front generalizing v with
  | nil => rfl
  | cons k ks ih =>
    cases hv : v.mapping? with
    | none => rw [List.cons_append, at?_cons_of_bare hv, at?_cons_of_bare hv, Option.bind_none]
    | some es =>
      rw [List.cons_append, at?_cons hv, at?_cons hv, Option.bind_assoc]
      exact congrArg _ (funext ih)

theorem found_map (hv : v.mapping? = some es) (path : List String) :
    found path v = found path (map es) := by
  have hmap : (map es).mapping? = some es := rfl
  cases path with
  | nil => rw [found_nil_of_mapping hv, found_nil_of_mapping hmap]
  | cons k ks => rw [found_cons hv, found_cons hmap]

end Found

def Shows (below : Option Value) : Found → Option Value → Prop
  | .missing, o => o = below
  | .blocked, o => o = none
  | .branch, o => ∃ w es, o = some w ∧ w.mapping? = some es
  | .leaf v, o => o = some v ∧ v.mapping? = none

theorem shows_found (path : List String) (v : Value) : Shows none (found path v) (at? path v) := by
  induction path generalizing v with
  | nil =>
    cases hv : v.mapping? with
    | none =>
      rw [found_nil_of_bare hv]
      exact ⟨rfl, hv⟩
    | some es =>
      rw [found_nil_of_mapping hv]
      exact ⟨v, es, rfl, hv⟩
  | cons k ks ih =>
    cases hv : v.mapping? with
    | none =>
      rw [found_cons_of_bare hv, at?_cons_of_bare hv]
      rfl
    | some es =>
      rw [found_cons hv, at?_cons hv]
      cases es.field? k with
      | none => rfl
      | some w => exact ih w

theorem found_append {way : List String} {v w : Value} (h : at? way v = some w)
    (rest : List String) : found (way ++ rest) v = found rest w := by
  induction way generalizing v with
  | nil =>
    cases h
    rfl
  | cons k ks ih =>
    cases hv : v.mapping? with
    | none =>
      rw [at?_cons_of_bare hv] at h
      cases h
    | some es =>
      rw [at?_cons hv] at h
      obtain ⟨u, hu, hw⟩ := Option.bind_eq_some_iff.1 h
      rw [List.cons_append, found_cons hv, hu]
      exact ih hw

theorem found_of_at? {path : List String} {v w : Value} (h : at? path v = some w) :
    found path v = found [] w := by
  rw [← found_append h [], List.append_nil]

theorem found_eq_blocked_iff {path : List String} {v : Value} :
    found path v = .blocked ↔
      ∃ front w, front <+: path ∧ front ≠ path ∧ at? front v = some w ∧ w.mapping? = none := by
  -- what blocks a path is met at once or below the field that the path goes through
  induction path generalizing v with
  | nil =>
    refine iff_of_false (fun h => ?_) ?_
    · rw [found] at h
      split at h <;> cases h
    · rintro ⟨front, w, hfront, hne, -, -⟩
      exact hne (List.prefix_nil.1 hfront)
  | cons k ks ih =>
    cases hv : v.mapping? with
    | none =>
      exact iff_of_true (found_cons_of_bare hv)
        ⟨[], v, List.nil_prefix, by simp, rfl, hv⟩
    | some es =>
      rw [found_cons hv]
      constructor
      · intro h
        cases hf : es.field? k with
        | none =>
          rw [hf] at h
          cases h
        | some u =>
          rw [hf] at h
          obtain ⟨front, w, hfront, hne, hat, hw⟩ := ih.1 h
          refine ⟨k :: front, w, List.cons_prefix_cons.2 ⟨rfl, hfront⟩, by simpa using hne, ?_, hw⟩
          rw [at?_cons hv, hf]
          exact hat
      · rintro ⟨front, w, hfront, hne, hat, hw⟩
        cases front with
        | nil =>
          cases hat
          rw [hv] at hw
          cases hw
        | cons j front =>
          obtain ⟨rfl, hrest⟩ := List.cons_prefix_cons.1 hfront
          rw [at?_cons hv] at hat
          obtain ⟨u, hu, hat⟩ := Option.bind_eq_some_iff.1 hat
          rw [hu]
          exact ih.2 ⟨front, w, hrest, by simpa using hne, hat, hw⟩

theorem Shows.of_below {below below' o : Option Value} {f : Found} (h : Shows below f o)
    (hb : f = .missing → below = below') : Shows below' f o := by
  cases f with
  | missing => exact h.trans (hb rfl)
  | blocked => exact h
  | branch => exact h
  | leaf v => exact h

theorem found_nil_ne_missing (v : Value) : found [] v ≠ .missing := by
  unfold found
  split <;> nofun

theorem shows_mergeEntries {fuel : Nat} {base es m : Entries}
    (h : mergeEntries fuel base es = .ok m) (hk : (map es).keyedOnce = true)
    (path : List String) :
    Shows (at? path (map base)) (found path (map es)) (at? path (map m)) := by
  induction path generalizing fuel base es m with
  | nil => exact ⟨map m, m, rfl, rfl⟩
  | cons k ks ih =>
    obtain ⟨hnames, hvalues⟩ := keyedOnce_map.1 hk
    have hkey := field?_mergeEntries h hnames k
    rw [found_cons rfl, at?_cons rfl, at?_cons rfl]
    cases hf : es.field? k with
    | none =>
      rw [hf] at hkey
      exact congrArg (Option.bind · (at? ks)) hkey
    | some w =>
      rw [hf] at hkey
      obtain ⟨placed, hm, hplaced⟩ := hkey
      rw [hm]
      cases hw : w.mapping? with
      | none =>
        rw [hplaced.eq_of_bare hw]
        cases ks with
        | nil => exact (shows_found [] w).of_below fun hno => absurd hno (found_nil_ne_missing w)
        | cons j js =>
          refine (shows_found (j :: js) w).of_below fun hno => ?_
          rw [found_cons_of_bare hw] at hno
          cases hno
      | some new =>
        cases hold : (base.field? k).bind mapping? with
        | none =>
          rw [hplaced.eq_of_bare_below hold]
          refine (shows_found ks w).of_below fun hno => ?_
          cases ks with
          | nil => exact absurd hno (found_nil_ne_missing w)
          | cons j js =>
            cases hb : base.field? k with
            | none => rfl
            | some p =>
              rw [hb] at hold
              exact (at?_cons_of_bare hold).symm
        | some old =>
          -- two mappings: the rest of the path is followed in what they are merged to
          obtain ⟨fuel', m', hm', rfl⟩ := hplaced.of_mappings hold hw
          obtain ⟨p, hb, hp⟩ := Option.bind_eq_some_iff.1 hold
          have hwk : w.keyedOnce = true := by
            obtain ⟨e, he, rfl⟩ := Entries.mem_of_field? hf
            exact hvalues e he
          rw [hb]
          change Shows (at? ks p) (found ks w) (at? ks (map m'))
          rw [found_map hw]
          refine (ih hm' (keyedOnce_mapping? hwk hw)).of_below fun hno => ?_
          cases ks with
          | nil => exact absurd hno (found_nil_ne_missing (map new))
          | cons j js =>
            rw [at?_cons rfl]
            exact (at?_cons hp).symm

end NoteDecor.Value
