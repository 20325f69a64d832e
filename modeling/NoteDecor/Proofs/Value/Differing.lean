import NoteDecor.Proofs.Value.Storing

/-! Two records that differ by one value under a key path. Whatever is stored beside the path keeps
it so, and it is stored in the one exactly if it is stored in the other. -/

namespace NoteDecor.Value
open Settings

def DiffersBy (a : Value) : List String → Value → Value → Prop
  | [], _, w => w = a
  | k :: ks, v, w => ∃ fs gs inner, v = record fs ∧ w = record gs ∧
      (∀ j, j ≠ k → valueAt? j gs = valueAt? j fs) ∧ valueAt? k gs = some inner ∧
      DiffersBy a ks ((valueAt? k fs).getD (record [])) inner

section Differing

variable {a v w : Value} {p q : List String}

theorem Tidy.differsBy_setAt (hv : v.Tidy) (h : v.setAt p a = .ok w) : DiffersBy a p v w := by
  induction p generalizing v w with
  | nil =>
    rw [setAt_nil] at h
    cases h
    exact rfl
  | cons k ks ih =>
    obtain ⟨fs, inner, rfl, hinner, rfl⟩ := hv.setAt_cons_eq_ok h
    refine ⟨fs, NoteDecor.assign k inner fs, inner, rfl, rfl, fun j hj => ?_, ?_, ?_⟩
    · rw [valueAt?_assign, if_neg hj.symm]
    · rw [valueAt?_assign, if_pos rfl]
    · exact ih (tidy_made fs k hv) hinner

theorem at?_getD_nothing (hq : q ≠ []) (o : Option Value) :
    at? q (o.getD (record [])) = o.bind (at? q) := by
  obtain ⟨k, ks, rfl⟩ := List.exists_cons_of_ne_nil hq
  cases o <;> rfl

theorem at?_record_cons (fs : List (String × Value)) (k : String) (ks : List String) :
    at? (k :: ks) (record fs) = (valueAt? k fs).bind (at? ks) := by
  rw [at?_cons (mapping?_record fs), Entries.field?_fields]

theorem ne_nil_of_beside (h : Beside q p) : q ≠ [] := fun hq => h.1 (hq ▸ List.nil_prefix)

theorem DiffersBy.at?_self (h : DiffersBy a p v w) : w.at? p = some a := by
  induction p generalizing v w with
  | nil => exact congrArg some h
  | cons k ks ih =>
    obtain ⟨fs, gs, inner, rfl, rfl, -, hk, hbelow⟩ := h
    rw [at?_record_cons, hk]
    exact ih hbelow

theorem DiffersBy.at?_beside (h : DiffersBy a p v w) (hq : Beside q p) : w.at? q = v.at? q := by
  induction p generalizing q v w with
  | nil => exact absurd hq (not_beside_of_nil q)
  | cons k ks ih =>
    obtain ⟨fs, gs, inner, rfl, rfl, hothers, hk, hbelow⟩ := h
    obtain ⟨j, js, rfl⟩ := List.exists_cons_of_ne_nil (ne_nil_of_beside hq)
    rw [at?_record_cons, at?_record_cons]
    by_cases hj : j = k
    · subst hj
      have hrest : Beside js ks := beside_cons.1 hq rfl
      rw [hk, ← at?_getD_nothing (ne_nil_of_beside hrest) (valueAt? j fs)]
      exact ih hbelow hrest
    · rw [hothers j hj]

theorem DiffersBy.setAt (h : DiffersBy a p v w) (hq : Beside q p) (new : Value) :
    (∃ f, v.setAt q new = .error f ∧ w.setAt q new = .error f) ∨
    ∃ v' w', v.setAt q new = .ok v' ∧ w.setAt q new = .ok w' ∧ DiffersBy a p v' w' := by
  -- either both ways start with one key and go on below it, or they part at once
  induction p generalizing q v w with
  | nil => exact absurd hq (not_beside_of_nil q)
  | cons k ks ih =>
    obtain ⟨fs, gs, inner, rfl, rfl, hothers, hk, hbelow⟩ := h
    obtain ⟨j, js, rfl⟩ := List.exists_cons_of_ne_nil (ne_nil_of_beside hq)
    rw [setAt_cons, setAt_cons]
    by_cases hj : j = k
    · subst hj
      rw [hk, Option.getD_some]
      rcases ih hbelow (beside_cons.1 hq rfl) with ⟨f, hv, hw⟩ | ⟨v', w', hv, hw, hrest⟩
      · rw [hv, hw]
        exact .inl ⟨f, rfl, rfl⟩
      · rw [hv, hw]
        refine .inr ⟨_, _, rfl, rfl, _, _, w', rfl, rfl, fun i hi => ?_, ?_, ?_⟩
        · rw [valueAt?_assign, valueAt?_assign, if_neg hi.symm, if_neg hi.symm, hothers i hi]
        · rw [valueAt?_assign, if_pos rfl]
        · rw [valueAt?_assign, if_pos rfl]
          exact hrest
    · rw [hothers j hj]
      cases ((valueAt? j fs).getD (record [])).setAt js new with
      | error f => exact .inl ⟨f, rfl, rfl⟩
      | ok u =>
        refine .inr ⟨_, _, rfl, rfl, _, _, inner, rfl, rfl, fun i hi => ?_, ?_, ?_⟩
        · rw [valueAt?_assign, valueAt?_assign, hothers i hi]
        · rw [valueAt?_assign, if_neg hj, hk]
        · rw [valueAt?_assign, if_neg hj]
          exact hbelow

end Differing

section Several

variable {a : Value} {p : List String} {before after : List (List String × Value)}

def StoredApart (a : Value) (p : List String) (x y : Except PathFault Value) : Prop :=
  (∃ f, x = .error f ∧ y = .error f) ∨ ∃ v w, x = .ok v ∧ y = .ok w ∧ DiffersBy a p v w

theorem DiffersBy.storeAll {v w : Value} (h : DiffersBy a p v w)
    (hafter : ∀ b ∈ after, Beside b.1 p) :
    StoredApart a p (storeAll after v) (storeAll after w) := by
  induction after generalizing v w with
  | nil => exact .inr ⟨v, w, rfl, rfl, h⟩
  | cons b bs ih =>
    obtain ⟨hb, hbs⟩ := List.forall_mem_cons.1 hafter
    rw [Value.storeAll, Value.storeAll, List.foldlM_cons, List.foldlM_cons]
    rcases h.setAt hb b.2 with ⟨f, hv, hw⟩ | ⟨v', w', hv, hw, hrest⟩
    · rw [hv, hw]
      exact .inl ⟨f, rfl, rfl⟩
    · rw [hv, hw]
      exact ih hrest hbs

theorem storeAll_append (v : Value) :
    Value.storeAll (before ++ after) v = Value.storeAll before v >>= Value.storeAll after :=
  List.foldlM_append

theorem storeAll_apart (hleaves : Leaves before)
    (hbefore : ∀ b ∈ before, ¬ (b.1 <+: p ∧ b.1 ≠ p)) (hafter : ∀ b ∈ after, Beside b.1 p) :
    StoredApart a p (Value.storeAll (before ++ after) (record []))
      (Value.storeAll (before ++ (p, a) :: after) (record [])) := by
  rw [storeAll_append, storeAll_append]
  cases hv : Value.storeAll before (record []) with
  | error f => exact .inl ⟨f, rfl, rfl⟩
  | ok v =>
    obtain ⟨htidy, hfound⟩ := found_storeAll tidy_nothing hleaves hv
    have hunblocked : Unblocked before := (storeAll_ok_iff hleaves).1 ⟨v, hv⟩
    have hfree : found p v ≠ .blocked := by
      rw [hfound, Ne, getD_latest_eq_blocked_iff, latest_eq_blocked_iff hunblocked]
      rintro ⟨b, hb, hblocks⟩
      exact hbefore b hb hblocks
    obtain ⟨w, hw⟩ := htidy.setAt_ok_iff.2 hfree
    have hstored : Value.storeAll ((p, a) :: after) v = Value.storeAll after w := by
      rw [Value.storeAll, List.foldlM_cons, hw]
      rfl
    change StoredApart a p (Value.storeAll after v) (Value.storeAll ((p, a) :: after) v)
    rw [hstored]
    exact (htidy.differsBy_setAt hw).storeAll hafter

theorem met_of_beside {q : List String} (h : Beside q p) : met a q p = none := by
  cases hm : met a q p with
  | none => rfl
  | some f =>
    by_cases hf : f = .blocked
    · subst hf
      exact absurd (met_eq_blocked_iff.1 hm).1 h.1
    · exact absurd (prefix_of_met hm hf) h.2

theorem at?_storeAll_of_beside {bs : List (List String × Value)} {v : Value}
    (hleaves : Leaves bs) (hp : p ≠ []) (hbs : ∀ b ∈ bs, Beside b.1 p)
    (h : Value.storeAll bs (record []) = .ok v) : v.at? p = none := by
  have hnone : latest bs p = none := by
    refine List.findSome?_eq_none_iff.2 fun b hb => ?_
    exact met_of_beside (hbs b (List.mem_reverse.1 hb))
  obtain ⟨k, ks, rfl⟩ := List.exists_cons_of_ne_nil hp
  have hfound : found (k :: ks) v = .missing := by
    rw [(found_storeAll tidy_nothing hleaves h).2, hnone]
    rfl
  have hshows := shows_found (k :: ks) v
  rw [hfound] at hshows
  exact hshows

end Several

end NoteDecor.Value
