import Mathlib.Data.List.Induction
import NoteDecor.Proofs.Value.Placing
import NoteDecor.Proofs.Value.Tidy

/-! What is under a key path after values that are no mappings are stored in a record one after the
other: the last one that lies on the path decides. -/

namespace NoteDecor.Value
open Settings

def met (a : Value) : (stored path : List String) → Option Found
  | [], [] => some (.leaf a)
  | [], _ :: _ => some .blocked
  | _ :: _, [] => some .branch
  | j :: js, k :: ks => if j = k then met a js ks else none

section Met

variable {a : Value} {q path : List String}

theorem met_self (a : Value) (q : List String) : met a q q = some (.leaf a) := by
  induction q with
  | nil => rfl
  | cons k ks ih => rw [met, if_pos rfl, ih]

theorem met_eq_blocked_iff : met a q path = some .blocked ↔ q <+: path ∧ q ≠ path := by
  induction q generalizing path with
  | nil => cases path <;> simp [met]
  | cons j js ih =>
    cases path with
    | nil => simp [met]
    | cons k ks =>
      rw [met, List.cons_prefix_cons]
      by_cases hk : j = k
      · rw [if_pos hk, ih]
        simp [hk]
      · simp [hk]

theorem prefix_of_met {f : Found} (h : met a q path = some f) (hf : f ≠ .blocked) : path <+: q := by
  induction q generalizing path with
  | nil =>
    cases path with
    | nil => exact List.prefix_rfl
    | cons k ks =>
      cases h
      exact absurd rfl hf
  | cons j js ih =>
    cases path with
    | nil => exact List.nil_prefix
    | cons k ks =>
      obtain ⟨rfl, hjs⟩ := Option.ite_none_right_eq_some.1 h
      exact List.cons_prefix_cons.2 ⟨rfl, ih hjs⟩

end Met

section Storing

variable {v w new : Value} {q : List String}

theorem setAt_cons (fs : List (String × Value)) (k : String) (ks : List String) (new : Value) :
    (record fs).setAt (k :: ks) new =
      (((valueAt? k fs).getD (record [])).setAt ks new).map
        fun inner => record (assign k inner fs) := by
  have hrecord (inner : Value) :
      map (Entries.setField k inner (Entries.fields fs)) = record (assign k inner fs) :=
    congrArg map (Entries.setField_fields k inner fs)
  rw [← Entries.field?_fields]
  simp only [← hrecord]
  exact setAt_map_cons (Entries.fields fs) k ks new

theorem Tidy.setAt_of_bare (hv : v.Tidy) (hbare : v.mapping? = none) (k : String)
    (ks : List String) (new : Value) : ∃ e, v.setAt (k :: ks) new = .error e := by
  cases hv with
  | @leaf _ hleaf hself =>
    cases v with
    | map es => cases hleaf
    | knot cells n => simp [same, sameAmount, amount?] at hself
    | _ => cases ks <;> exact ⟨_, rfl⟩
  | record => cases hbare

theorem Tidy.setAt_cons_eq_ok (hv : v.Tidy) {k : String} {ks : List String}
    (h : v.setAt (k :: ks) new = .ok w) :
    ∃ fs inner, v = Value.record fs ∧
      ((NoteDecor.valueAt? k fs).getD (Value.record [])).setAt ks new = .ok inner ∧
      Value.record (NoteDecor.assign k inner fs) = w := by
  cases hm : v.mapping? with
  | none =>
    obtain ⟨e, he⟩ := hv.setAt_of_bare hm k ks new
    rw [he] at h
    cases h
  | some es =>
    obtain ⟨fs, rfl, -, -, -⟩ := hv.of_mapping? hm
    rw [setAt_cons] at h
    obtain ⟨inner, hinner, hw⟩ := map_eq_ok.1 h
    exact ⟨fs, inner, rfl, hinner, hw⟩

theorem found_record_cons (fs : List (String × Value)) (k : String) (ks : List String) :
    found (k :: ks) (record fs) =
      ((valueAt? k fs).map (found ks)).getD .missing := by
  rw [found_cons (mapping?_record fs), Entries.field?_fields]
  cases valueAt? k fs <;> rfl

section Way

variable (fs : List (String × Value)) (k : String) (ks : List String)

theorem found_made :
    found ks ((valueAt? k fs).getD (record [])) = found (k :: ks) (record fs) ∨
    ks = [] ∧ found ks ((valueAt? k fs).getD (record [])) = .branch ∧
      found (k :: ks) (record fs) = .missing := by
  rw [found_record_cons]
  cases valueAt? k fs with
  | some u => exact .inl rfl
  | none =>
    cases ks with
    | nil => exact .inr ⟨rfl, rfl, rfl⟩
    | cons j js => exact .inl rfl

theorem tidy_made (h : (record fs).Tidy) : ((valueAt? k fs).getD (record [])).Tidy := by
  cases hk : valueAt? k fs with
  | none => exact tidy_nothing
  | some u => exact h.valueAt? hk

end Way

theorem Tidy.setAt_ok_iff (hv : v.Tidy) : (∃ w, v.setAt q new = .ok w) ↔ found q v ≠ .blocked := by
  induction q generalizing v with
  | nil =>
    refine iff_of_true ⟨new, setAt_nil v new⟩ fun h => ?_
    obtain ⟨front, -, hfront, hne, -⟩ := found_eq_blocked_iff.1 h
    exact hne (List.prefix_nil.1 hfront)
  | cons k ks ih =>
    cases hm : v.mapping? with
    | none =>
      obtain ⟨e, he⟩ := hv.setAt_of_bare hm k ks new
      rw [he, found_cons_of_bare hm]
      simp
    | some es =>
      obtain ⟨fs, rfl, -, -, -⟩ := hv.of_mapping? hm
      have hmade : found ks ((NoteDecor.valueAt? k fs).getD (Value.record [])) = .blocked ↔
          found (k :: ks) (Value.record fs) = .blocked := by
        rw [← Entries.field?_fields]
        exact found_made_eq_blocked_iff (Entries.fields fs) k ks
      rw [setAt_cons, Ne, ← hmade, ← Ne, ← ih (tidy_made fs k hv)]
      constructor
      · rintro ⟨w, hw⟩
        obtain ⟨inner, hinner, -⟩ := map_eq_ok.1 hw
        exact ⟨inner, hinner⟩
      · rintro ⟨inner, hinner⟩
        exact ⟨_, map_eq_ok.2 ⟨inner, hinner, rfl⟩⟩

theorem Tidy.setAt (hv : v.Tidy) (hnew : new.Tidy) (h : v.setAt q new = .ok w) : w.Tidy := by
  induction q generalizing v w with
  | nil =>
    rw [setAt_nil] at h
    cases h
    exact hnew
  | cons k ks ih =>
    obtain ⟨fs, inner, rfl, hinner, rfl⟩ := hv.setAt_cons_eq_ok h
    exact hv.assign (ih (tidy_made fs k hv) hinner) k

theorem found_setAt (hv : v.Tidy) (hnew : new.mapping? = none) (h : v.setAt q new = .ok w)
    (path : List String) : found path w = (met new q path).getD (found path v) := by
  induction q generalizing v w path with
  | nil =>
    rw [setAt_nil] at h
    cases h
    cases path with
    | nil => exact found_nil_of_bare hnew
    | cons i is => exact found_cons_of_bare hnew
  | cons k ks ih =>
    obtain ⟨fs, inner, rfl, hinner, rfl⟩ := hv.setAt_cons_eq_ok h
    cases path with
    | nil => exact found_nil_of_mapping (mapping?_record _)
    | cons i is =>
      rw [found_record_cons (assign k inner fs), valueAt?_assign, met]
      by_cases hi : k = i
      · rw [if_pos hi, if_pos hi, ← hi]
        refine (ih (tidy_made fs k hv) hinner is).trans ?_
        rcases found_made fs k is with hmade | ⟨rfl, -, -⟩
        · rw [hmade]
        · cases ks <;> rfl
      · rw [if_neg hi, if_neg hi]
        exact (found_record_cons fs i is).symm

end Storing

section Several

variable {bs : List (List String × Value)} {b : List String × Value} {v w : Value}
  {path : List String}

def storeAll (bs : List (List String × Value)) (v : Value) : Except PathFault Value :=
  bs.foldlM (fun v b => v.setAt b.1 b.2) v

theorem storeAll_append_singleton :
    storeAll (bs ++ [b]) v = .ok w ↔ ∃ u, storeAll bs v = .ok u ∧ u.setAt b.1 b.2 = .ok w := by
  rw [storeAll, List.foldlM_append, bind_eq_ok]
  simp [storeAll]

def latest (bs : List (List String × Value)) (path : List String) : Option Found :=
  bs.reverse.findSome? fun b => met b.2 b.1 path

theorem latest_append_singleton :
    latest (bs ++ [b]) path = (met b.2 b.1 path).or (latest bs path) := by
  rw [latest, List.reverse_append, List.reverse_singleton, List.singleton_append,
    List.findSome?_cons]
  cases met b.2 b.1 path <;> rfl

def Leaves (bs : List (List String × Value)) : Prop :=
  ∀ b ∈ bs, b.2.mapping? = none ∧ b.2.Tidy

theorem found_storeAll (hv : v.Tidy) (hbs : Leaves bs) (h : storeAll bs v = .ok w) :
    w.Tidy ∧ ∀ path, found path w = (latest bs path).getD (found path v) := by
  induction bs using List.reverseRecOn generalizing w with
  | nil =>
    cases h
    exact ⟨hv, fun path => rfl⟩
  | append_singleton bs b ih =>
    obtain ⟨u, hu, hw⟩ := storeAll_append_singleton.1 h
    obtain ⟨hearlier, hb⟩ := List.forall_mem_append.1 hbs
    obtain ⟨hbare, htidy⟩ := hb b (List.mem_singleton_self b)
    obtain ⟨hutidy, hufound⟩ := ih hearlier hu
    refine ⟨hutidy.setAt htidy hw, fun path => ?_⟩
    rw [found_setAt hutidy hbare hw, hufound, latest_append_singleton]
    cases met b.2 b.1 path <;> rfl

theorem found_nothing_ne_blocked (path : List String) : found path (record []) ≠ .blocked := by
  cases path <;> nofun

theorem getD_latest_eq_blocked_iff :
    (latest bs path).getD (found path (record [])) = .blocked ↔
      latest bs path = some .blocked := by
  cases latest bs path with
  | none => exact iff_of_false (found_nothing_ne_blocked path) (by nofun)
  | some f => simp

theorem exists_record_storeAll (hbs : Leaves bs)
    (hpaths : ∀ b ∈ bs, b.1 ≠ []) (h : storeAll bs (record []) = .ok w) :
    ∃ fs, w = record fs ∧ (record fs).Tidy ∧
      ∀ path, found path (record fs) = (latest bs path).getD (found path (record [])) := by
  obtain ⟨htidy, hfound⟩ := found_storeAll tidy_nothing hbs h
  have hbranch : found [] w = .branch := by
    rw [hfound]
    cases hl : latest bs [] with
    | none => rfl
    | some f =>
      obtain ⟨b, hb, hf⟩ := List.exists_of_findSome?_eq_some hl
      obtain ⟨k, ks, hk⟩ := List.exists_cons_of_ne_nil (hpaths b (List.mem_reverse.1 hb))
      rw [hk] at hf
      cases hf
      rfl
  cases hm : w.mapping? with
  | none =>
    rw [found_nil_of_bare hm] at hbranch
    cases hbranch
  | some es =>
    obtain ⟨fs, rfl, -, -, -⟩ := htidy.of_mapping? hm
    exact ⟨fs, rfl, htidy, hfound⟩

def Unblocked (bs : List (List String × Value)) : Prop :=
  bs.Pairwise fun b c => ¬ (b.1 <+: c.1 ∧ b.1 ≠ c.1)

theorem unblocked_append_singleton :
    Unblocked (bs ++ [b]) ↔ Unblocked bs ∧ ∀ c ∈ bs, ¬ (c.1 <+: b.1 ∧ c.1 ≠ b.1) := by
  simp [Unblocked, List.pairwise_append]

theorem latest_eq_blocked_iff (h : Unblocked bs) :
    latest bs path = some .blocked ↔ ∃ b ∈ bs, b.1 <+: path ∧ b.1 ≠ path := by
  induction bs using List.reverseRecOn with
  | nil => simp [latest]
  | append_singleton bs b ih =>
    obtain ⟨hbs, hb⟩ := unblocked_append_singleton.1 h
    -- what lies above the path of a value lies above everything that is stored below it
    have hnone (hpath : path <+: b.1) : ¬ ∃ c ∈ bs ++ [b], c.1 <+: path ∧ c.1 ≠ path := by
      rintro ⟨c, hc, hcpath, hne⟩
      rcases List.mem_append.1 hc with hc | hc
      · refine hb c hc ⟨hcpath.trans hpath, fun heq => hne ?_⟩
        exact hcpath.eq_of_length_le (heq ▸ hpath.length_le)
      · rw [List.mem_singleton.1 hc] at hcpath hne
        exact hne (hcpath.eq_of_length_le hpath.length_le)
    rw [latest_append_singleton]
    cases hm : met b.2 b.1 path with
    | none =>
      have hno : ¬ (b.1 <+: path ∧ b.1 ≠ path) := by
        rw [← met_eq_blocked_iff (a := b.2), hm]
        nofun
      rw [Option.none_or, ih hbs]
      simp only [List.mem_append, List.mem_singleton, or_and_right, exists_or, exists_eq_left, hno,
        or_false]
    | some f =>
      rw [Option.some_or]
      by_cases hf : f = .blocked
      · rw [hf] at hm ⊢
        exact iff_of_true rfl ⟨b, by simp, met_eq_blocked_iff.1 hm⟩
      · exact iff_of_false (by simpa using hf) (hnone (prefix_of_met hm hf))

theorem storeAll_ok_iff (hbs : Leaves bs) :
    (∃ w, storeAll bs (record []) = .ok w) ↔ Unblocked bs := by
  induction bs using List.reverseRecOn with
  | nil => exact iff_of_true ⟨_, rfl⟩ .nil
  | append_singleton bs b ih =>
    obtain ⟨hearlier, -⟩ := List.forall_mem_append.1 hbs
    have hlast (u : Value) (hu : storeAll bs (record []) = .ok u) :
        (∃ w, u.setAt b.1 b.2 = .ok w) ↔ ∀ c ∈ bs, ¬ (c.1 <+: b.1 ∧ c.1 ≠ b.1) := by
      obtain ⟨hutidy, hufound⟩ := found_storeAll tidy_nothing hearlier hu
      rw [hutidy.setAt_ok_iff, hufound, Ne, getD_latest_eq_blocked_iff,
        latest_eq_blocked_iff ((ih hearlier).1 ⟨u, hu⟩)]
      simp only [not_exists, not_and]
    simp only [storeAll_append_singleton, unblocked_append_singleton]
    constructor
    · rintro ⟨w, u, hu, hw⟩
      exact ⟨(ih hearlier).1 ⟨u, hu⟩, (hlast u hu).1 ⟨w, hw⟩⟩
    · rintro ⟨hunblocked, hb⟩
      obtain ⟨u, hu⟩ := (ih hearlier).2 hunblocked
      obtain ⟨w, hw⟩ := (hlast u hu).2 hb
      exact ⟨w, u, hu, hw⟩

def Compatible (bs : List (List String × Value)) : Prop :=
  ∀ b ∈ bs, ∀ c ∈ bs, b.1 <+: c.1 → b.1 = c.1 ∧ b.2.same c.2 = true

theorem Compatible.unblocked (h : Compatible bs) : Unblocked bs :=
  List.Pairwise.imp_of_mem (fun hb hc _ ⟨hfront, hne⟩ => hne (h _ hb _ hc hfront).1)
    (List.pairwise_of_forall fun _ _ => trivial)

theorem Compatible.of_mem (h : Compatible bs) {cs : List (List String × Value)}
    (hcs : ∀ c ∈ cs, c ∈ bs) : Compatible cs :=
  fun b hb c hc => h b (hcs b hb) c (hcs c hc)

theorem met_alike {a b : Value} {q r path : List String}
    (hqr : q <+: r → q = r ∧ a.same b = true) (hrq : r <+: q → r = q ∧ b.same a = true)
    {f g : Found} (hf : met a q path = some f) (hg : met b r path = some g) : f.Alike g := by
  -- the path is compared with both ways at once; compatible ways part or end together
  induction path generalizing q r with
  | nil =>
    cases q with
    | nil =>
      obtain ⟨rfl, hs⟩ := hqr List.nil_prefix
      cases hf
      cases hg
      exact .leaf hs
    | cons j js =>
      cases r with
      | nil => cases (hrq List.nil_prefix).1
      | cons i is =>
        cases hf
        cases hg
        exact .branch
  | cons k ks ih =>
    cases q with
    | nil =>
      obtain ⟨rfl, -⟩ := hqr List.nil_prefix
      cases hf
      cases hg
      exact .blocked
    | cons j js =>
      cases r with
      | nil => cases (hrq List.nil_prefix).1
      | cons i is =>
        obtain ⟨rfl, hjs⟩ := Option.ite_none_right_eq_some.1 hf
        obtain ⟨rfl, his⟩ := Option.ite_none_right_eq_some.1 hg
        simp only [List.cons_prefix_cons, List.cons.injEq, true_and] at hqr hrq
        exact ih hqr hrq hjs his

theorem latest_alike (h : Compatible bs) {cs : List (List String × Value)} (hperm : cs.Perm bs)
    (path : List String) : Option.Rel Found.Alike (latest bs path) (latest cs path) := by
  unfold latest
  cases hb : bs.reverse.findSome? fun b => met b.2 b.1 path with
  | none =>
    have hc : cs.reverse.findSome? (fun b => met b.2 b.1 path) = none := by
      rw [List.findSome?_eq_none_iff] at hb ⊢
      exact fun c hc => hb c (List.mem_reverse.2 (hperm.mem_iff.1 (List.mem_reverse.1 hc)))
    rw [hc]
    exact .none
  | some f =>
    obtain ⟨b, hbmem, hbf⟩ := List.exists_of_findSome?_eq_some hb
    rw [List.mem_reverse] at hbmem
    cases hc : cs.reverse.findSome? fun b => met b.2 b.1 path with
    | none =>
      rw [List.findSome?_eq_none_iff] at hc
      rw [hc b (List.mem_reverse.2 (hperm.mem_iff.2 hbmem))] at hbf
      cases hbf
    | some g =>
      obtain ⟨c, hcmem, hcg⟩ := List.exists_of_findSome?_eq_some hc
      have hcbs := hperm.mem_iff.1 (List.mem_reverse.1 hcmem)
      exact .some (met_alike (h b hbmem c hcbs) (h c hcbs b hbmem) hbf hcg)

end Several

end NoteDecor.Value
