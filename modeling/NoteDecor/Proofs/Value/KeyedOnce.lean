import NoteDecor.Proofs.Steps
import NoteDecor.Settings.Layers

/-! Mappings that hold each text once among their keys, as far as key paths lead. Whatever is stored
under a key path keeps them so, and a container that is opened is one of them. -/

namespace NoteDecor

namespace Entries

def names (es : Entries) : List String := es.filterMap fun e => e.1.text?

theorem isKey_iff {k : String} {v : Value} : v.isKey k = true ↔ v.text? = some k := by
  cases v <;> simp [Value.isKey, Value.text?]

theorem names_cons (e : Value × Value) (r : Entries) :
    names (e :: r) = (match e.1.text? with
      | some k => k :: names r
      | none => names r) := by
  rw [names, List.filterMap_cons]
  cases e.1.text? <;> rfl

theorem field?_eq_none_iff {es : Entries} {k : String} : es.field? k = none ↔ k ∉ es.names := by
  simp only [field?, names, Option.map_eq_none_iff, List.find?_eq_none, isKey_iff,
    List.mem_filterMap, not_exists, not_and]

theorem mem_of_field? {es : Entries} {k : String} {v : Value} (h : es.field? k = some v) :
    ∃ e ∈ es, e.2 = v := by
  obtain ⟨e, he, rfl⟩ := Option.map_eq_some_iff.1 h
  exact ⟨e, List.mem_of_find?_eq_some he, rfl⟩

theorem names_setField (k : String) (v : Value) (es : Entries) :
    names (setField k v es) = if k ∈ es.names then es.names else es.names ++ [k] := by
  induction es with
  | nil => rfl
  | cons e r ih =>
    by_cases he : e.1.isKey k = true
    · have ht := isKey_iff.1 he
      have hk : k ∈ names (e :: r) := by
        rw [names_cons, ht]
        exact List.mem_cons_self
      rw [setField, if_pos he, if_pos hk, names_cons, names_cons]
    · rw [setField, if_neg he]
      cases ht : e.1.text? with
      | none => simp only [names_cons, ht, ih]
      | some j =>
        have hj : k ≠ j := fun hj => he (isKey_iff.2 (hj ▸ ht))
        simp only [names_cons, ht, ih, List.mem_cons, hj, false_or]
        split <;> rfl

theorem nodup_setField {es : Entries} (h : es.names.Nodup) (k : String) (v : Value) :
    (setField k v es).names.Nodup := by
  rw [names_setField]
  split
  · exact h
  · next hk => exact List.nodup_append.2 ⟨h, by simp,
      fun a ha b hb => (List.mem_singleton.1 hb) ▸ fun he => hk (he ▸ ha)⟩

theorem mem_setField {es : Entries} {k : String} {v : Value} {e : Value × Value}
    (h : e ∈ setField k v es) : e.2 = v ∨ e ∈ es := by
  induction es with
  | nil => exact .inl (by rw [List.mem_singleton.1 h])
  | cons x r ih =>
    by_cases hx : x.1.isKey k = true
    · rw [setField, if_pos hx] at h
      rcases List.mem_cons.1 h with rfl | h
      · exact .inl rfl
      · exact .inr (List.mem_cons_of_mem _ h)
    · rw [setField, if_neg hx] at h
      rcases List.mem_cons.1 h with rfl | h
      · exact .inr List.mem_cons_self
      · exact (ih h).imp_right (List.mem_cons_of_mem _)

theorem names_fields (fs : List (String × Value)) : (fields fs).names = fs.map Prod.fst := by
  induction fs with
  | nil => rfl
  | cons f fs ih => exact congrArg (f.1 :: ·) ih

end Entries

namespace Value

theorem same_text_left (k : String) (v : Value) : (text k).same v = v.isKey k := by
  cases v <;> simp [same, sameAmount, amount?, isKey, Bool.beq_comm (a := k)]

theorem same_text_right (k : String) (v : Value) : v.same (text k) = v.isKey k := by
  cases v <;> simp [same, sameAmount, amount?, isKey]

mutual

def keyedOnce : Value → Bool
  | map es => decide (Entries.names es).Nodup && keyedOnceEach es
  | knot cells _ => keyedOnceAll cells
  | _ => true

def keyedOnceAll : List Value → Bool
  | [] => true
  | x :: xs => keyedOnce x && keyedOnceAll xs

def keyedOnceEach : Entries → Bool
  | [] => true
  | (_, v) :: r => keyedOnce v && keyedOnceEach r

end

theorem keyedOnceAll_iff {xs : List Value} :
    keyedOnceAll xs = true ↔ ∀ x ∈ xs, x.keyedOnce = true := by
  induction xs with
  | nil => simp [keyedOnceAll]
  | cons x xs ih => simp [keyedOnceAll, ih]

theorem keyedOnceEach_iff {es : Entries} :
    keyedOnceEach es = true ↔ ∀ e ∈ es, e.2.keyedOnce = true := by
  induction es with
  | nil => simp [keyedOnceEach]
  | cons e r ih => simp [keyedOnceEach, ih]

theorem keyedOnce_map {es : Entries} :
    (map es).keyedOnce = true ↔ es.names.Nodup ∧ ∀ e ∈ es, e.2.keyedOnce = true := by
  simp only [keyedOnce, Bool.and_eq_true, decide_eq_true_eq, keyedOnceEach_iff]

theorem keyedOnce_record {fs : List (String × Value)} :
    (record fs).keyedOnce = true ↔
      (fs.map Prod.fst).Nodup ∧ ∀ f ∈ fs, f.2.keyedOnce = true := by
  rw [record, keyedOnce_map, Entries.names_fields]
  simp only [Entries.fields, List.forall_mem_map]

theorem keyedOnce_knot {cells : List Value} {n : Nat} :
    (knot cells n).keyedOnce = true ↔ ∀ x ∈ cells, x.keyedOnce = true := by
  rw [keyedOnce, keyedOnceAll_iff]

theorem keyedOnce_getD {cells : List Value} (h : ∀ x ∈ cells, x.keyedOnce = true) (n : Nat) :
    (cells.getD n null).keyedOnce = true := by
  rw [List.getD_eq_getElem?_getD]
  cases hn : cells[n]? with
  | none => rfl
  | some x => exact h x (List.mem_of_getElem? hn)

theorem names_fillCellsEach (f : Nat → Value) (es : Entries) :
    Entries.names (fillCellsEach f es) = es.names := by
  induction es with
  | nil => rfl
  | cons e r ih => simp only [fillCellsEach, Entries.names_cons, ih]

mutual

theorem keyedOnce_fillCells {f : Nat → Value} (hf : ∀ n, (f n).keyedOnce = true) :
    ∀ {v : Value}, v.keyedOnce = true → (fillCells f v).keyedOnce = true
  | cell n, _ => hf n
  | list _, _ | tuple _, _ => rfl
  | map es, hv => by
    obtain ⟨hn, he⟩ := Bool.and_eq_true_iff.1 hv
    rw [fillCells, keyedOnce, names_fillCellsEach, hn, keyedOnceEach_fillCellsEach hf he]
    rfl
  | null, hv | bool _, hv | int _, hv | float _, hv | text _, hv | bytes _, hv | date _, hv
  | moment _, hv | set _, hv | sealed _, hv | badge .., hv | outcome .., hv | knot .., hv => hv

theorem keyedOnceEach_fillCellsEach {f : Nat → Value} (hf : ∀ n, (f n).keyedOnce = true) :
    ∀ {es : Entries}, keyedOnceEach es = true → keyedOnceEach (fillCellsEach f es) = true
  | [], _ => rfl
  | (k, v) :: r, hall => by
    obtain ⟨hv, hr⟩ := Bool.and_eq_true_iff.1 hall
    rw [fillCellsEach, keyedOnceEach, keyedOnce_fillCells hf hv, keyedOnceEach_fillCellsEach hf hr]
    rfl

end

theorem keyedOnce_untied {cells : List Value} (h : ∀ x ∈ cells, x.keyedOnce = true)
    (ending : List Nat) (fuel n : Nat) : (untied cells ending fuel n).keyedOnce = true := by
  induction fuel generalizing n with
  | zero => exact keyedOnce_knot.2 h
  | succ fuel ih =>
    unfold untied
    split
    · exact keyedOnce_fillCells ih (keyedOnce_getD h n)
    · exact keyedOnce_knot.2 h

theorem keyedOnce_opened {v : Value} (hv : v.keyedOnce = true) : v.opened.keyedOnce = true := by
  unfold opened
  split
  · next cells n =>
      have hc := keyedOnce_knot.1 hv
      exact keyedOnce_fillCells (keyedOnce_untied hc _ _) (keyedOnce_getD hc n)
  · exact hv

theorem opened_of_mapping? {v : Value} {es : Entries} (h : v.mapping? = some es) :
    v.opened = map es := by
  unfold mapping? at h
  split at h
  · next fs hfs =>
      cases h
      exact hfs
  · cases h

theorem keyedOnce_mapping? {v : Value} {es : Entries} (hv : v.keyedOnce = true)
    (h : v.mapping? = some es) : (map es).keyedOnce = true := by
  have ho := keyedOnce_opened hv
  rw [opened_of_mapping? h] at ho
  exact ho

theorem keyedOnce_setField {es : Entries} {v : Value} (he : (map es).keyedOnce = true)
    (hv : v.keyedOnce = true) (k : String) :
    (map (Entries.setField k v es)).keyedOnce = true := by
  obtain ⟨hn, hall⟩ := keyedOnce_map.1 he
  refine keyedOnce_map.2 ⟨Entries.nodup_setField hn k v, fun e hmem => ?_⟩
  rcases Entries.mem_setField hmem with h | h
  · rw [h]
    exact hv
  · exact hall e h

theorem keyedOnce_field {es : Entries} (he : (map es).keyedOnce = true) {k : String} :
    ((Entries.field? es k).getD (map [])).keyedOnce = true := by
  cases hf : Entries.field? es k with
  | none => rfl
  | some v =>
    obtain ⟨e, hmem, rfl⟩ := Entries.mem_of_field? hf
    exact (keyedOnce_map.1 he).2 e hmem

theorem keyedOnce_set {cells : List Value} {v : Value} (h : ∀ x ∈ cells, x.keyedOnce = true)
    (hv : v.keyedOnce = true) (n : Nat) : ∀ x ∈ cells.set n v, x.keyedOnce = true := by
  intro x hx
  rcases List.mem_or_eq_of_mem_set hx with hx | rfl
  · exact h x hx
  · exact hv

theorem keyedOnce_setInCell {new : Value} (hnew : new.keyedOnce = true) (path : List String)
    (cells : List Value) (n : Nat) {cells' : List Value} (h : ∀ x ∈ cells, x.keyedOnce = true)
    (hs : setInCell cells n path new = .ok cells') : ∀ x ∈ cells', x.keyedOnce = true := by
  fun_induction setInCell cells n path new with
  | case1 cells n =>
    cases hs
    exact h
  | case2 cells n k es hc =>
    cases hs
    exact keyedOnce_set h (keyedOnce_setField (hc ▸ keyedOnce_getD h n) hnew k) n
  | case3 cells n k ks es hks hc m hm ih => exact ih h hs
  | case4 cells n k ks es hks hc m hm ih =>
    -- what lies under the key becomes a cell of its own and the key now leads there
    have he := hc ▸ keyedOnce_getD h n
    refine ih (fun x hx => ?_) hs
    rcases List.mem_append.1 hx with hx | hx
    · exact keyedOnce_set h (keyedOnce_setField he rfl k) n x hx
    · rw [List.mem_singleton.1 hx]
      exact keyedOnce_field he
  | case5 cells n k hc => cases hs
  | case6 cells n k k' ks hc => cases hs

theorem keyedOnce_setAt {new : Value} (hnew : new.keyedOnce = true) (v : Value)
    (path : List String) {v' : Value} (hv : v.keyedOnce = true)
    (hs : v.setAt path new = .ok v') : v'.keyedOnce = true := by
  fun_induction setAt v path new generalizing v' with
  | case1 v =>
    cases hs
    exact hnew
  | case2 path cells n hp =>
    obtain ⟨cells', hc, hv'⟩ := bind_eq_ok.1 hs
    cases hv'
    exact keyedOnce_knot.2 (keyedOnce_setInCell hnew path cells n (keyedOnce_knot.1 hv) hc)
  | case3 k es =>
    cases hs
    exact keyedOnce_setField hv hnew k
  | case4 k ks es hks ih =>
    obtain ⟨inner, hi, hv'⟩ := bind_eq_ok.1 hs
    cases hv'
    exact keyedOnce_setField hv (ih (keyedOnce_field hv) hi) k
  | case5 v k hk hm => cases hs
  | case6 v k k' ks hk hm => cases hs

end Value

end NoteDecor
