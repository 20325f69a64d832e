import NoteDecor.Proofs.Assignment
import NoteDecor.Proofs.Value.Grounded
import NoteDecor.Proofs.Value.KeyPath

/-! Records of records, down to values that equal themselves. Two of them are equal, whatever the
order of their keys, if they hold equal values at every key path. Merging records gives records
again. -/

namespace NoteDecor

namespace Entries
open Value

theorem field?_fields (fs : List (String × Value)) (k : String) :
    (fields fs).field? k = valueAt? k fs := by
  induction fs with
  | nil => rfl
  | cons f fs ih =>
    rw [show fields (f :: fs) = (text f.1, f.2) :: fields fs from rfl, field?_cons, valueAt?_cons,
      ih]
    simp only [isKey, beq_iff_eq]

theorem setField_fields (k : String) (v : Value) (fs : List (String × Value)) :
    setField k v (fields fs) = fields (assign k v fs) := by
  induction fs with
  | nil => rfl
  | cons f fs ih =>
    rw [show fields (f :: fs) = (text f.1, f.2) :: fields fs from rfl, setField, assign]
    by_cases hf : f.1 = k
    · simp [isKey, hf, fields]
    · simp only [isKey, beq_iff_eq, hf, if_false, ih]
      rfl

theorem put_fields (k : String) (v : Value) (fs : List (String × Value)) :
    put (text k) v (fields fs) = fields (assign k v fs) := by
  rw [← setField_fields]
  induction fields fs with
  | nil => rfl
  | cons e r ih => rw [put, setField, same_text_left, ih]

theorem fields_inj {fs gs : List (String × Value)} : fields fs = fields gs ↔ fs = gs := by
  refine List.map_inj_right fun f g h => ?_
  obtain ⟨hk, hv⟩ := Prod.mk.inj h
  exact Prod.ext (text.inj hk) hv

end Entries

namespace Value

inductive Tidy : Value → Prop
  | leaf {v : Value} : v.entries? = none → v.same v = true → Tidy v
  | record {fs : List (String × Value)} :
      (fs.map Prod.fst).Nodup → (∀ f ∈ fs, Tidy f.2) → Tidy (record fs)

theorem mapping?_record (fs : List (String × Value)) :
    (record fs).mapping? = some (Entries.fields fs) := rfl

theorem mapping?_of_entries? {v : Value} (h : v.entries? = none) : v.mapping? = none := by
  unfold mapping?
  unfold entries? at h
  split
  · next es hes =>
      rw [hes] at h
      cases h
  · rfl

theorem Tidy.of_mapping? {v : Value} {es : Entries} (hv : v.Tidy) (h : v.mapping? = some es) :
    ∃ fs, v = Value.record fs ∧ es = Entries.fields fs ∧ (fs.map Prod.fst).Nodup ∧
      ∀ f ∈ fs, Tidy f.2 := by
  cases hv with
  | leaf hleaf =>
    rw [mapping?_of_entries? hleaf] at h
    cases h
  | @record fs hnodup hall =>
    cases h
    exact ⟨fs, rfl, rfl, hnodup, hall⟩

theorem tidy_record_iff {fs : List (String × Value)} :
    (Value.record fs).Tidy ↔ (fs.map Prod.fst).Nodup ∧ ∀ f ∈ fs, f.2.Tidy := by
  constructor
  · intro h
    obtain ⟨gs, -, hgs, hnodup, hall⟩ := h.of_mapping? (mapping?_record fs)
    rw [Entries.fields_inj.1 hgs]
    exact ⟨hnodup, hall⟩
  · rintro ⟨hnodup, hall⟩
    exact .record hnodup hall

theorem tidy_nothing : (record []).Tidy := tidy_record_iff.2 ⟨.nil, by simp⟩

theorem Tidy.keyedOnce {v : Value} (hv : v.Tidy) : v.keyedOnce = true := by
  induction hv with
  | @leaf v hleaf hself =>
    cases v with
    | map es => cases hleaf
    | knot cells n => simp [same, sameAmount, amount?] at hself
    | _ => rfl
  | record hnodup _ ih => exact keyedOnce_record.2 ⟨hnodup, ih⟩

theorem Tidy.grounded {v : Value} (hv : v.Tidy) : v.Grounded := by
  induction hv with
  | leaf hleaf =>
    intro es hes
    rw [mapping?_of_entries? hleaf] at hes
    cases hes
  | @record fs hnodup hall ih =>
    rintro es ⟨⟩
    refine ⟨_, fun gs ⟨e, he, hgs⟩ => ?_⟩
    obtain ⟨f, hf, rfl⟩ := List.mem_map.1 he
    exact ih f hf gs hgs

theorem Tidy.at? {path : List String} {v w : Value} (hv : v.Tidy) (h : at? path v = some w) :
    w.Tidy := by
  induction path generalizing v with
  | nil =>
    cases h
    exact hv
  | cons k ks ih =>
    cases hm : v.mapping? with
    | none =>
      rw [at?_cons_of_bare hm] at h
      cases h
    | some es =>
      obtain ⟨fs, rfl, rfl, -, hall⟩ := hv.of_mapping? hm
      rw [at?_cons hm] at h
      obtain ⟨u, hu, hw⟩ := Option.bind_eq_some_iff.1 h
      rw [Entries.field?_fields] at hu
      exact ih (hall _ (mem_of_valueAt? hu)) hw

theorem same_record_iff {fs gs : List (String × Value)} :
    (record fs).same (record gs) = true ↔ fs.length = gs.length ∧
      ∀ f ∈ fs, ∃ g ∈ gs, g.1 = f.1 ∧ f.2.same g.2 = true := by
  have hentries (fs : List (String × Value)) : sameEntries (Entries.fields fs) (Entries.fields gs) =
      true ↔ ∀ f ∈ fs, ∃ g ∈ gs, g.1 = f.1 ∧ f.2.same g.2 = true := by
    induction fs with
    | nil => simp [Entries.fields, sameEntries]
    | cons f fs ih =>
      rw [List.forall_mem_cons, ← ih]
      simp [Entries.fields, sameEntries, same_text_left, isKey]
  rw [record, record, same, Bool.and_eq_true, hentries]
  simp [Entries.fields]

inductive Alike : Option Value → Option Value → Prop
  | nothing : Alike none none
  | mappings {v w : Value} {es fs : Entries} :
      v.mapping? = some es → w.mapping? = some fs → Alike (some v) (some w)
  | leaves {v w : Value} :
      v.mapping? = none → w.mapping? = none → v.same w = true → Alike (some v) (some w)

inductive Found.Alike : Found → Found → Prop
  | missing : Alike .missing .missing
  | blocked : Alike .blocked .blocked
  | branch : Alike .branch .branch
  | leaf {v w : Value} : v.same w = true → Alike (.leaf v) (.leaf w)

theorem Found.Alike.shown {f g : Found} (h : f.Alike g) {below below' o o' : Option Value}
    (hbelow : Value.Alike below below') (ho : Shows below f o) (ho' : Shows below' g o') :
    Value.Alike o o' := by
  cases h with
  | missing =>
    rw [show o = below from ho, show o' = below' from ho']
    exact hbelow
  | blocked =>
    rw [show o = none from ho, show o' = none from ho']
    exact .nothing
  | branch =>
    obtain ⟨v, es, rfl, hv⟩ := ho
    obtain ⟨w, fs, rfl, hw⟩ := ho'
    exact .mappings hv hw
  | leaf hs =>
    obtain ⟨rfl, hv⟩ := ho
    obtain ⟨rfl, hw⟩ := ho'
    exact .leaves hv hw hs

theorem Alike.isSome_eq {o o' : Option Value} (h : Alike o o') : o.isSome = o'.isSome := by
  cases h <;> rfl

theorem Alike.of_bare {v w : Value} (h : Alike (some v) (some w)) (hv : v.mapping? = none) :
    v.same w = true := by
  cases h with
  | mappings hm =>
    rw [hm] at hv
    cases hv
  | leaves _ _ hs => exact hs

theorem Alike.of_mapping {v w : Value} {es : Entries} (h : Alike (some v) (some w))
    (hv : v.mapping? = some es) : ∃ fs, w.mapping? = some fs := by
  cases h with
  | mappings _ hw => exact ⟨_, hw⟩
  | leaves hbare =>
    rw [hbare] at hv
    cases hv

theorem Tidy.same_self {v : Value} (hv : v.Tidy) (hbare : v.mapping? = none) :
    v.same v = true := by
  cases hv with
  | leaf _ hself => exact hself
  | record => cases hbare

theorem Tidy.found_alike {v : Value} (hv : v.Tidy) (path : List String) :
    (found path v).Alike (found path v) := by
  have hshows := shows_found path v
  cases hf : found path v with
  | missing => exact .missing
  | blocked => exact .blocked
  | branch => exact .branch
  | leaf w =>
    rw [hf] at hshows
    exact .leaf ((hv.at? hshows.1).same_self hshows.2)

theorem Tidy.same_of_alike {v w : Value} (hv : v.Tidy) (hw : w.Tidy)
    (h : ∀ path, Alike (Value.at? path v) (Value.at? path w)) : v.same w = true := by
  induction hv generalizing w with
  | leaf hleaf => exact (h []).of_bare (mapping?_of_entries? hleaf)
  | @record fs hnodup hall ih =>
    obtain ⟨es, hes⟩ := (h []).of_mapping (mapping?_record fs)
    obtain ⟨gs, rfl, rfl, hnodup', hall'⟩ := hw.of_mapping? hes
    have hat (k : String) (ks : List String) :
        Alike ((valueAt? k fs).bind (Value.at? ks)) ((valueAt? k gs).bind (Value.at? ks)) := by
      have hk := h (k :: ks)
      rwa [at?_cons (mapping?_record fs), at?_cons (mapping?_record gs), Entries.field?_fields,
        Entries.field?_fields] at hk
    have hsome (k : String) : (valueAt? k fs).isSome = (valueAt? k gs).isSome := by
      have hk := (hat k []).isSome_eq
      rwa [show Value.at? [] = some from rfl, Option.bind_fun_some, Option.bind_fun_some] at hk
    refine same_record_iff.2 ⟨?_, fun f hf => ?_⟩
    · have hkeys : (fs.map Prod.fst).Perm (gs.map Prod.fst) := by
        refine (List.perm_ext_iff_of_nodup hnodup hnodup').2 fun k => ?_
        rw [← valueAt?_isSome, ← valueAt?_isSome, hsome]
      simpa using hkeys.length_eq
    · have hf' := valueAt?_of_mem hnodup hf
      have hg : (valueAt? f.1 gs).isSome := by
        rw [← hsome, hf']
        rfl
      obtain ⟨w, hw⟩ := Option.isSome_iff_exists.1 hg
      have hmem := mem_of_valueAt? hw
      refine ⟨(f.1, w), hmem, rfl, ih f hf (hall' _ hmem) fun ks => ?_⟩
      have hk := hat f.1 ks
      rwa [hf', hw] at hk

theorem Tidy.record_of_same {fs : List (String × Value)} {w : Value} (hw : w.Tidy)
    (h : (Value.record fs).same w = true) :
    ∃ gs, w = Value.record gs ∧ (gs.map Prod.fst).Nodup ∧ ∀ g ∈ gs, Tidy g.2 := by
  cases hw with
  | leaf hleaf =>
    cases w with
    | map es => cases hleaf
    | «sealed» es => cases hleaf
    | _ => simp [Value.record, same, sameAmount, amount?] at h
  | @record gs hnodup hall => exact ⟨gs, rfl, hnodup, hall⟩

theorem Tidy.same_at? {path : List String} {v w a : Value} (hv : v.Tidy) (hw : w.Tidy)
    (h : v.same w = true) (ha : Value.at? path v = some a) :
    ∃ b, Value.at? path w = some b ∧ a.same b = true := by
  induction path generalizing v w with
  | nil =>
    cases ha
    exact ⟨w, rfl, h⟩
  | cons k ks ih =>
    cases hm : v.mapping? with
    | none =>
      rw [at?_cons_of_bare hm] at ha
      cases ha
    | some es =>
      obtain ⟨fs, rfl, rfl, hnodup, hall⟩ := hv.of_mapping? hm
      rw [at?_cons hm, Entries.field?_fields] at ha
      obtain ⟨u, hu, hua⟩ := Option.bind_eq_some_iff.1 ha
      obtain ⟨gs, rfl, hnodup', hall'⟩ := hw.record_of_same h
      obtain ⟨-, hmembers⟩ := same_record_iff.1 h
      obtain ⟨⟨j, x⟩, hg, rfl, hs⟩ := hmembers _ (mem_of_valueAt? hu)
      rw [at?_cons (mapping?_record gs), Entries.field?_fields, valueAt?_of_mem hnodup' hg]
      exact ih (hall _ (mem_of_valueAt? hu)) (hall' _ hg) hs hua

theorem Tidy.assign {fs : List (String × Value)} (h : (Value.record fs).Tidy) {v : Value}
    (hv : v.Tidy) (k : String) : (Value.record (NoteDecor.assign k v fs)).Tidy := by
  obtain ⟨hnodup, hall⟩ := tidy_record_iff.1 h
  refine .record (nodup_keys_assign hnodup k v) fun f hf => ?_
  have hf' := (mem_assign hnodup k v f).1 hf
  split at hf'
  · rw [hf']
    exact hv
  · exact hall f hf'

theorem Tidy.valueAt? {fs : List (String × Value)} (h : (Value.record fs).Tidy) {k : String}
    {v : Value} (hv : NoteDecor.valueAt? k fs = some v) : v.Tidy :=
  (tidy_record_iff.1 h).2 _ (mem_of_valueAt? hv)

theorem tidy_mergeEntries {fs : List (String × Value)}
    (hplaced : ∀ f ∈ fs, ∀ old placed, (∀ p, old = some p → p.Tidy) → Placed old f.2 placed →
      placed.Tidy) {fuel : Nat} {bs : List (String × Value)} (hbs : (Value.record bs).Tidy)
    {m : Entries} (h : mergeEntries fuel (Entries.fields bs) (Entries.fields fs) = .ok m) :
    (map m).Tidy := by
  induction fs generalizing bs with
  | nil =>
    rw [mergeEntries_nil h]
    exact hbs
  | cons f fs ih =>
    obtain ⟨hf, hfs⟩ := List.forall_mem_cons.1 hplaced
    obtain ⟨v, hv, hrest⟩ := mergeEntries_cons h
    rw [Entries.get?_text, Entries.field?_fields] at hv
    rw [Entries.put_fields] at hrest
    have hvtidy := hf _ v (fun p hp => hbs.valueAt? hp) hv
    exact ih hfs (hbs.assign hvtidy f.1) hrest

theorem Tidy.placed {v : Value} (hv : v.Tidy) {old : Option Value} {placed : Value}
    (hold : ∀ p, old = some p → p.Tidy) (h : Placed old v placed) : placed.Tidy := by
  induction hv generalizing old placed with
  | leaf hleaf hself =>
    rw [h.eq_of_bare (mapping?_of_entries? hleaf)]
    exact .leaf hleaf hself
  | @record fs hnodup hall ih =>
    cases hbase : old.bind mapping? with
    | none =>
      rw [h.eq_of_bare_below hbase]
      exact .record hnodup hall
    | some base =>
      obtain ⟨fuel, m, hm, rfl⟩ := h.of_mappings hbase (mapping?_record fs)
      obtain ⟨p, hp, hpm⟩ := Option.bind_eq_some_iff.1 hbase
      obtain ⟨bs, rfl, rfl, -, -⟩ := (hold p hp).of_mapping? hpm
      exact tidy_mergeEntries (fun f hf old placed => ih f hf) (hold _ hp) hm

theorem Tidy.merge {v : Value} (hv : v.Tidy) {base m : Entries} (hbase : (map base).Tidy)
    (h : v.merge base = .ok m) : (map m).Tidy := by
  unfold Value.merge at h
  split at h
  · next es hes =>
      obtain ⟨fs, rfl, rfl, -, hall⟩ := hv.of_mapping? hes
      obtain ⟨bs, -, rfl, -, -⟩ := hbase.of_mapping? rfl
      exact tidy_mergeEntries (fun f hf old placed hold => (hall f hf).placed hold) hbase h
  · cases h

end Value

end NoteDecor
