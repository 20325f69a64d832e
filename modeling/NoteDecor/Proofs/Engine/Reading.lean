import Mathlib.Data.List.Induction
import NoteDecor.Proofs.Assignment
import NoteDecor.SourceCache

/-! Texts of rule files in the order in which they came in, and what a cache holds of them: a text
that was read by force takes the place of what is there, and one that was loaded on demand stays out
when there is one already. -/

namespace NoteDecor

namespace SourceCache

theorem put_eq_assign (path source : String) (es : List (String × String)) :
    put path source es = assign path source es := by
  induction es with
  | nil => rfl
  | cons e r ih => rw [put, assign, ih]

theorem find?_eq (c : SourceCache) (path : String) : c.find? path = valueAt? path c.entries := rfl

@[simp] theorem count_entries (c : SourceCache) (path : String) :
    (c.count path).entries = c.entries := by
  unfold count
  split <;> rfl

end SourceCache

inductive Reading where
  | preloaded (path source : String)
  | fetched (path source : String)

namespace Reading

def path : Reading → String
  | preloaded path _ | fetched path _ => path

def source : Reading → String
  | preloaded _ source | fetched _ source => source

def storeIn (es : List (String × String)) : Reading → List (String × String)
  | preloaded path source => SourceCache.put path source es
  | fetched path source =>
    if (valueAt? path es).isSome then es else SourceCache.put path source es

def stored (rs : List Reading) (es : List (String × String)) : List (String × String) :=
  rs.foldl storeIn es

def lastPreloaded? (path : String) : List Reading → Option String
  | [] => none
  | preloaded p source :: rs => (lastPreloaded? path rs).or (if p = path then some source else none)
  | fetched .. :: rs => lastPreloaded? path rs

def firstFetched? (path : String) : List Reading → Option String
  | [] => none
  | fetched p source :: rs => if p = path then some source else firstFetched? path rs
  | preloaded .. :: rs => firstFetched? path rs

theorem stored_append (rs rs' : List Reading) (es : List (String × String)) :
    stored (rs ++ rs') es = stored rs' (stored rs es) := List.foldl_append

theorem lastPreloaded?_of_not_mem {path : String} {rs : List Reading}
    (h : ∀ x ∈ rs, x.path ≠ path) : lastPreloaded? path rs = none := by
  induction rs with
  | nil => rfl
  | cons x rs ih =>
    have hx := h x List.mem_cons_self
    have hrs := ih fun y hy => h y (List.mem_cons_of_mem x hy)
    cases x with
    | preloaded p source =>
      have hp : p ≠ path := hx
      rw [lastPreloaded?, hrs, if_neg hp, Option.none_or]
    | fetched p source => exact hrs

theorem firstFetched?_of_not_mem {path : String} {rs : List Reading}
    (h : ∀ x ∈ rs, x.path ≠ path) : firstFetched? path rs = none := by
  induction rs with
  | nil => rfl
  | cons x rs ih =>
    have hx := h x List.mem_cons_self
    have hrs := ih fun y hy => h y (List.mem_cons_of_mem x hy)
    cases x with
    | preloaded p source => exact hrs
    | fetched p source =>
      have hp : p ≠ path := hx
      rw [firstFetched?, if_neg hp, hrs]

theorem valueAt?_storeIn (path : String) (x : Reading) (es : List (String × String)) :
    valueAt? path (x.storeIn es) = match x with
      | preloaded p source => (if p = path then some source else none).or (valueAt? path es)
      | fetched p source => (valueAt? path es).or (if p = path then some source else none) := by
  cases x with
  | preloaded p source =>
    rw [storeIn, SourceCache.put_eq_assign, valueAt?_assign]
    by_cases hp : p = path <;> simp [hp]
  | fetched p source =>
    by_cases hs : (valueAt? p es).isSome
    · rw [storeIn, if_pos hs]
      by_cases hp : p = path
      · subst hp
        obtain ⟨old, ho⟩ := Option.isSome_iff_exists.1 hs
        simp [ho]
      · simp [hp]
    · rw [storeIn, if_neg hs, SourceCache.put_eq_assign, valueAt?_assign]
      by_cases hp : p = path
      · subst hp
        simp [Option.not_isSome_iff_eq_none.1 hs]
      · simp [hp]

theorem valueAt?_stored (path : String) (rs : List Reading) (es : List (String × String)) :
    valueAt? path (stored rs es) =
      (lastPreloaded? path rs).or ((valueAt? path es).or (firstFetched? path rs)) := by
  induction rs generalizing es with
  | nil => simp [stored, lastPreloaded?, firstFetched?]
  | cons x rs ih =>
    have hs : stored (x :: rs) es = stored rs (x.storeIn es) := rfl
    rw [hs, ih, valueAt?_storeIn]
    cases x with
    | preloaded p source => simp only [lastPreloaded?, firstFetched?, Option.or_assoc]
    | fetched p source =>
      simp only [lastPreloaded?, firstFetched?, Option.or_assoc]
      split <;> simp

theorem keys_storeIn (x : Reading) (es : List (String × String)) :
    (x.storeIn es).map Prod.fst =
      if x.path ∈ es.map Prod.fst then es.map Prod.fst else es.map Prod.fst ++ [x.path] := by
  cases x with
  | preloaded p source => rw [storeIn, SourceCache.put_eq_assign, keys_assign, path]
  | fetched p source =>
    rw [storeIn, SourceCache.put_eq_assign]
    by_cases hp : p ∈ es.map Prod.fst
    · rw [if_pos ((valueAt?_isSome p es).2 hp), path, if_pos hp]
    · rw [if_neg (hp ∘ (valueAt?_isSome p es).1), keys_assign, path]

theorem keys_stored (rs : List Reading) :
    (stored rs []).map Prod.fst = (rs.map path).eraseDups := by
  induction rs using List.reverseRecOn with
  | nil => rfl
  | append_singleton rs x ih =>
    have hs : stored (rs ++ [x]) [] = x.storeIn (stored rs []) := stored_append rs [x] []
    rw [hs, keys_storeIn, ih, List.map_append, List.map_singleton, eraseDups_concat]
    simp only [List.mem_eraseDups]

theorem nodup_keys_storeIn (x : Reading) {es : List (String × String)}
    (h : (es.map Prod.fst).Nodup) : ((x.storeIn es).map Prod.fst).Nodup := by
  cases x with
  | preloaded p source =>
    rw [storeIn, SourceCache.put_eq_assign]
    exact nodup_keys_assign h p source
  | fetched p source =>
    rw [storeIn, SourceCache.put_eq_assign]
    split
    · exact h
    · exact nodup_keys_assign h p source

theorem nodup_keys_stored (rs : List Reading) {es : List (String × String)}
    (h : (es.map Prod.fst).Nodup) : ((stored rs es).map Prod.fst).Nodup := by
  induction rs generalizing es with
  | nil => exact h
  | cons x rs ih => exact ih (nodup_keys_storeIn x h)

end Reading

end NoteDecor
