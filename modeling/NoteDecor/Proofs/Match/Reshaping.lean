import Mathlib.Data.Set.Basic
import Mathlib.Logic.Relation
import NoteDecor.Proofs.Match.Frontmatter
import NoteDecor.Proofs.Value.Tidy

/-! A search through frontmatter does not see in which shape a value comes, and criteria and
document may change places. What depends on the order of the keys is whether a number that is too
long is met before a key is found. -/

namespace NoteDecor.Frontmatter
open Value Relation

inductive Reshapes : Value → Value → Prop
  | wrap {v : Value} (h : v.items? = none) : Reshapes v (.list [v])
  | reorder {v w : Value} {xs ys : List Value} (hv : v.items? = some xs) (hw : w.items? = some ys)
      (h : xs.Perm ys) : Reshapes v w
  | insert {v w x : Value} {before after : List Value} (hv : v.items? = some (before ++ after))
      (hw : w.items? = some (before ++ x :: after))
      (hx : x ∈ before ++ after ∨ x.comparable? = none) : Reshapes v w

/-- One of the values of a mapping is reshaped. -/
inductive Revalues : List (String × Value) → List (String × Value) → Prop
  | mk {before after : List (String × Value)} {k : String} {v w : Value} (h : Reshapes v w) :
      Revalues (before ++ (k, v) :: after) (before ++ (k, w) :: after)

/-- One of the values of a mapping is reshaped, or its keys change places. -/
inductive Rewrites : List (String × Value) → List (String × Value) → Prop
  | value {ps ps' : List (String × Value)} (h : Revalues ps ps') : Rewrites ps ps'
  | keys {ps ps' : List (String × Value)} (h : ps.Perm ps') : Rewrites ps ps'

variable {v v' w w' : Value} {ps ps' qs qs' : List (String × Value)} {k : String}
  {R : Value → Value → Prop}

/-- Under some key both mappings hold a value, and the two are related. -/
def Share (R : Value → Value → Prop) (ps qs : List (String × Value)) : Prop :=
  ∃ k v w, (k, v) ∈ ps ∧ (k, w) ∈ qs ∧ R v w

/-- A number in one of the two values is too long. -/
def Overlong (v w : Value) : Prop := ¬ (Legible v ∧ Legible w)

theorem Share.symm (hR : ∀ {v w}, R v w → R w v) (h : Share R ps qs) : Share R qs ps := by
  obtain ⟨k, v, w, hv, hw, hrel⟩ := h
  exact ⟨k, w, v, hw, hv, hR hrel⟩

theorem Overlong.symm (h : Overlong v w) : Overlong w v := fun hl => h hl.symm

def seen (v : Value) : Set String × Prop := ({t | t ∈ texts v}, Legible v)

def Blind (R : Value → Value → Prop) : Prop :=
  ∀ {v v' w w'}, seen v = seen v' → seen w = seen w' → R v w → R v' w'

theorem seen_eq (h : ∀ x : Value, x.comparable? ≠ none → (x ∈ Rule.parts v ↔ x ∈ Rule.parts w)) :
    seen v = seen w := by
  have htexts (t : String) : t ∈ texts v ↔ t ∈ texts w := by
    unfold texts
    simp only [List.mem_filterMap]
    refine exists_congr fun x => and_congr_left ?_
    intro hx
    exact h x (by simp [hx])
  have hlegible : Legible v ↔ Legible w := by
    unfold Legible
    refine forall_congr' fun n => imp_congr_left ?_
    exact h (int n) nofun
  exact Prod.ext (Set.ext htexts) (propext hlegible)

theorem blind_agree : Blind Agree := by
  intro v v' w w' hv hw hagree
  have htexts (v w : Value) : Agree v w ↔ ((seen v).1 ∩ (seen w).1).Nonempty := Iff.rfl
  rw [htexts, ← hv, ← hw]
  exact hagree

theorem blind_overlong : Blind Overlong := by
  intro v v' w w' hv hw hlong
  have hlegible (v w : Value) : Overlong v w ↔ ¬ ((seen v).2 ∧ (seen w).2) := Iff.rfl
  rw [hlegible, ← hv, ← hw]
  exact hlong

theorem Reshapes.seen_eq (h : Reshapes v w) : seen v = seen w := by
  have hparts {v : Value} {xs : List Value} (hv : v.items? = some xs) : Rule.parts v = xs := by
    rw [Rule.parts, hv, Option.getD_some]
  apply Frontmatter.seen_eq
  intro y hy
  cases h with
  | wrap h =>
    rw [Rule.parts, h]
    rfl
  | reorder hv hw h => rw [hparts hv, hparts hw, h.mem_iff]
  | @insert _ x before after hv hw hx =>
    rw [hparts hv, hparts hw]
    have hmem : y = x → y ∈ before ++ after := by
      rintro rfl
      rcases hx with hx | hx
      · exact hx
      · exact absurd hx hy
    simp only [List.mem_append, List.mem_cons] at hmem ⊢
    tauto

def outline (ps : List (String × Value)) : List (String × (Set String × Prop)) :=
  ps.map fun p => (p.1, seen p.2)

theorem Revalues.outline_eq (h : Revalues ps ps') : outline ps = outline ps' := by
  cases h with
  | mk h => simp only [outline, List.map_append, List.map_cons, h.seen_eq]

theorem Rewrites.outline_perm (h : Rewrites ps ps') : (outline ps).Perm (outline ps') := by
  cases h with
  | value h => rw [h.outline_eq]
  | keys h => exact h.map _

theorem outline_eq_of_eqvGen (h : EqvGen Revalues ps ps') : outline ps = outline ps' := by
  induction h with
  | rel ps ps' h => exact h.outline_eq
  | refl ps => rfl
  | symm ps ps' h ih => exact ih.symm
  | trans ps qs ps' h h' ih ih' => exact ih.trans ih'

theorem outline_perm_of_eqvGen (h : EqvGen Rewrites ps ps') :
    (outline ps).Perm (outline ps') := by
  induction h with
  | rel ps ps' h => exact h.outline_perm
  | refl ps => exact .refl _
  | symm ps ps' h ih => exact ih.symm
  | trans ps qs ps' h h' ih ih' => exact ih.trans ih'

theorem nodup_of_outline_perm (h : (outline ps).Perm (outline ps'))
    (hn : (ps.map Prod.fst).Nodup) : (ps'.map Prod.fst).Nodup := by
  have hnames (ps : List (String × Value)) : (outline ps).map Prod.fst = ps.map Prod.fst := by
    unfold outline
    rw [List.map_map]
    rfl
  rw [← hnames] at hn ⊢
  exact (h.map Prod.fst).nodup_iff.1 hn

theorem exists_mem_of_outline_perm (h : (outline ps).Perm (outline ps')) (hv : (k, v) ∈ ps) :
    ∃ w, (k, w) ∈ ps' ∧ seen v = seen w := by
  have hmem : (k, seen v) ∈ outline ps' := h.subset (List.mem_map_of_mem hv)
  obtain ⟨⟨k', w⟩, hw, heq⟩ := List.mem_map.1 hmem
  rw [Prod.mk.injEq] at heq
  obtain ⟨rfl, hseen⟩ := heq
  exact ⟨w, hw, hseen.symm⟩

theorem Share.of_outline_perm (hR : Blind R) (hp : (outline ps).Perm (outline ps'))
    (hq : (outline qs).Perm (outline qs')) (h : Share R ps qs) : Share R ps' qs' := by
  obtain ⟨k, v, w, hv, hw, hrel⟩ := h
  obtain ⟨v', hv', hseen⟩ := exists_mem_of_outline_perm hp hv
  obtain ⟨w', hw', hseen'⟩ := exists_mem_of_outline_perm hq hw
  exact ⟨k, v', w', hv', hw', hR hseen hseen' hrel⟩

theorem share_iff_of_outline_perm (hR : Blind R) (hp : (outline ps).Perm (outline ps'))
    (hq : (outline qs).Perm (outline qs')) : Share R ps qs ↔ Share R ps' qs' :=
  ⟨.of_outline_perm hR hp hq, .of_outline_perm hR hp.symm hq.symm⟩

theorem get?_fields_eq_some_iff (hn : (qs.map Prod.fst).Nodup) :
    (Entries.fields qs).get? (.text k) = some w ↔ (k, w) ∈ qs := by
  rw [Entries.get?_text, Entries.field?_fields]
  exact ⟨mem_of_valueAt?, valueAt?_of_mem hn⟩

theorem exists_fields_iff (hn : (qs.map Prod.fst).Nodup) :
    (∃ e ∈ Entries.fields ps, ∃ found, (Entries.fields qs).get? e.1 = some found ∧ R e.2 found) ↔
      Share R ps qs := by
  unfold Share
  constructor
  · rintro ⟨e, he, w, hw, hrel⟩
    obtain ⟨⟨k, v⟩, hv, rfl⟩ := List.mem_map.1 he
    exact ⟨k, v, w, hv, (get?_fields_eq_some_iff hn).1 hw, hrel⟩
  · rintro ⟨k, v, w, hv, hw, hrel⟩
    exact ⟨(.text k, v), List.mem_map_of_mem hv, w, (get?_fields_eq_some_iff hn).2 hw, hrel⟩

theorem found_of_outline_perm (hR : Blind R) (hn : (qs.map Prod.fst).Nodup)
    (hq : (outline qs).Perm (outline qs')) (hv : seen v = seen v')
    (h : ∃ found, (Entries.fields qs).get? (.text k) = some found ∧ R v found) :
    ∃ found, (Entries.fields qs').get? (.text k) = some found ∧ R v' found := by
  obtain ⟨w, hw, hrel⟩ := h
  rw [get?_fields_eq_some_iff hn] at hw
  obtain ⟨w', hw', hseen⟩ := exists_mem_of_outline_perm hq hw
  have hn' := nodup_of_outline_perm hq hn
  exact ⟨w', (get?_fields_eq_some_iff hn').2 hw', hR hv hseen hrel⟩

theorem found_iff_of_outline_perm (hR : Blind R) (hn : (qs.map Prod.fst).Nodup)
    (hq : (outline qs).Perm (outline qs')) (hv : seen v = seen v') :
    (∃ found, (Entries.fields qs).get? (.text k) = some found ∧ R v found) ↔
      ∃ found, (Entries.fields qs').get? (.text k) = some found ∧ R v' found :=
  ⟨found_of_outline_perm hR hn hq hv,
    found_of_outline_perm hR (nodup_of_outline_perm hq hn) hq.symm hv.symm⟩

theorem search_fields_eq_none_iff (hn : (qs.map Prod.fst).Nodup) :
    search (Entries.fields ps) (Entries.fields qs) = .ok none ↔
      ¬ Share Overlong ps qs ∧ ¬ Share Agree ps qs := by
  rw [search_eq_ok_none_iff, ← exists_fields_iff hn, ← exists_fields_iff hn]
  push Not
  unfold Blocks Agrees Overlong
  push Not
  exact forall₂_and

/-- A search finds some key. -/
def Finds (expected actual : Entries) : Prop := ∃ key, search expected actual = .ok (some key)

theorem finds_fields_iff (hn : (qs.map Prod.fst).Nodup) (h : ¬ Share Overlong ps qs) :
    Finds (Entries.fields ps) (Entries.fields qs) ↔ Share Agree ps qs := by
  rw [← exists_fields_iff hn] at h ⊢
  push Not at h
  refine exists_search_eq_ok_some_iff ?_
  rintro e he ⟨found, hfound, hlong⟩
  exact h e he found hfound hlong

theorem search_eq_of_outline (hn : (qs.map Prod.fst).Nodup) (hp : outline ps = outline ps')
    (hq : (outline qs).Perm (outline qs')) :
    search (Entries.fields ps) (Entries.fields qs) =
      search (Entries.fields ps') (Entries.fields qs') := by
  have hsame : List.Forall₂ (fun p p' : String × Value => (p.1, seen p.2) = (p'.1, seen p'.2))
      ps ps' := by
    rw [← List.forall₂_map_right_iff, ← List.forall₂_map_left_iff, List.forall₂_eq_eq_eq]
    exact hp
  apply search_congr
  unfold Entries.fields
  rw [List.forall₂_map_left_iff, List.forall₂_map_right_iff]
  refine hsame.imp ?_
  rintro ⟨k, v⟩ ⟨k', v'⟩ heq
  obtain ⟨hk, hseen⟩ := Prod.mk.inj heq
  subst hk
  exact ⟨rfl, found_iff_of_outline_perm blind_overlong hn hq hseen,
    found_iff_of_outline_perm blind_agree hn hq hseen⟩

/-- Reshaping values on either side and moving keys of the document changes nothing about a search.
Moving keys of the criteria too, or searching the criteria for the document, never makes a
difference to whether the search ends without a key, nor to whether it finds one, unless a number
that is too long stands under a key of both. -/
theorem search_reshaped (hp : (ps.map Prod.fst).Nodup) (hq : (qs.map Prod.fst).Nodup) :
    (∀ ps' qs', EqvGen Revalues ps ps' → EqvGen Rewrites qs qs' →
      search (Entries.fields ps') (Entries.fields qs') =
        search (Entries.fields ps) (Entries.fields qs)) ∧
    (∀ ps' qs', EqvGen Rewrites ps ps' → EqvGen Rewrites qs qs' →
      (search (Entries.fields ps') (Entries.fields qs') = .ok none ↔
        search (Entries.fields ps) (Entries.fields qs) = .ok none) ∧
      (¬ Share Overlong ps qs → (Finds (Entries.fields ps') (Entries.fields qs') ↔
        Finds (Entries.fields ps) (Entries.fields qs)))) ∧
    (search (Entries.fields qs) (Entries.fields ps) = .ok none ↔
      search (Entries.fields ps) (Entries.fields qs) = .ok none) ∧
    (¬ Share Overlong ps qs → (Finds (Entries.fields qs) (Entries.fields ps) ↔
      Finds (Entries.fields ps) (Entries.fields qs))) ∧
    (¬ Share Overlong ps qs → Finds (Entries.fields ps) (Entries.fields qs) ∨
      search (Entries.fields ps) (Entries.fields qs) = .ok none) := by
  -- to share a key with agreeing values, or with one that is too long, is symmetric
  have hagree : Share Agree qs ps ↔ Share Agree ps qs := ⟨.symm Agree.symm, .symm Agree.symm⟩
  have hlong : Share Overlong qs ps ↔ Share Overlong ps qs :=
    ⟨.symm Overlong.symm, .symm Overlong.symm⟩
  refine ⟨?_, ?_, ?_, ?_, ?_⟩
  · intro ps' qs' hps hqs
    exact (search_eq_of_outline hq (outline_eq_of_eqvGen hps) (outline_perm_of_eqvGen hqs)).symm
  · intro ps' qs' hps hqs
    have hps' := outline_perm_of_eqvGen hps
    have hqs' := outline_perm_of_eqvGen hqs
    have hq' := nodup_of_outline_perm hqs' hq
    have hagree' := share_iff_of_outline_perm blind_agree hps' hqs'
    have hlong' := share_iff_of_outline_perm blind_overlong hps' hqs'
    refine ⟨?_, ?_⟩
    · rw [search_fields_eq_none_iff hq', search_fields_eq_none_iff hq, hagree', hlong']
    · intro h
      rw [finds_fields_iff hq' (mt hlong'.2 h), finds_fields_iff hq h, hagree']
  · rw [search_fields_eq_none_iff hp, search_fields_eq_none_iff hq, hagree, hlong]
  · intro h
    rw [finds_fields_iff hp (mt hlong.1 h), finds_fields_iff hq h, hagree]
  · intro h
    rw [finds_fields_iff hq h, search_fields_eq_none_iff hq]
    tauto

theorem search_reshaped_status :
    (["status"].Nodup ∧ ["done", "status"].Nodup) ∧
    Finds (Entries.fields [("status", .list [.null, .text "open"])])
      (Entries.fields [("status", .text "open"), ("done", .bool true)]) := by
  have hshort : ¬ Share Overlong [("status", .text "open")]
      [("done", .bool true), ("status", .text "open")] := by
    rintro ⟨k, v, w, hv, hw, hlong⟩
    have hlegible : ∀ u ∈ [Value.text "open", .bool true], Legible u := by
      simp only [List.forall_mem_cons, ← canCompare_iff]
      exact ⟨rfl, rfl, nofun⟩
    simp only [List.mem_cons, List.not_mem_nil, or_false, Prod.mk.injEq] at hv hw
    exact hlong ⟨hlegible v (by simp [hv]), hlegible w (by rcases hw with hw | hw <;> simp [hw])⟩
  have hagree : Share Agree [("status", .text "open")]
      [("done", .bool true), ("status", .text "open")] :=
    ⟨"status", .text "open", .text "open", by simp, by simp, "open", List.mem_cons_self,
      List.mem_cons_self⟩
  have hlist : Rewrites [("status", .text "open")] [("status", .list [.text "open"])] :=
    .value (@Revalues.mk [] [] _ _ _ (.wrap rfl))
  have hnull : Rewrites [("status", .list [.text "open"])]
      [("status", .list [.null, .text "open"])] :=
    .value (@Revalues.mk [] [] _ _ _ (@Reshapes.insert _ _ _ [] _ rfl rfl (.inr rfl)))
  have hmoved : Rewrites [("done", .bool true), ("status", .text "open")]
      [("status", .text "open"), ("done", .bool true)] := .keys (.swap ..)
  have hreshaped := (search_reshaped (by decide) (by decide)).2.1 _ _
    (.trans _ _ _ (.rel _ _ hlist) (.rel _ _ hnull)) (.rel _ _ hmoved)
  exact ⟨by decide, (hreshaped.2 hshort).2 ((finds_fields_iff (by decide) hshort).2 hagree)⟩

def ones : List (String × Value) := [("a", .int 1), ("b", .int 1)]

def oneAndLong : List (String × Value) := [("a", .int 1), ("b", tooLong)]

theorem search_moved : ones.Perm ones.reverse ∧
    Finds (Entries.fields ones) (Entries.fields oneAndLong) ∧
    ¬ Finds (Entries.fields ones.reverse) (Entries.fields oneAndLong) := by
  have hn : (oneAndLong.map Prod.fst).Nodup := by decide
  have hone : (Entries.fields oneAndLong).get? (.text "a") = some (.int 1) :=
    (get?_fields_eq_some_iff hn).2 (by simp [oneAndLong])
  have hlong : (Entries.fields oneAndLong).get? (.text "b") = some tooLong :=
    (get?_fields_eq_some_iff hn).2 (by simp [oneAndLong])
  refine ⟨(List.reverse_perm ones).symm, ⟨.text "a", ?_⟩, ?_⟩
  · refine search_cons_of_agrees _ ?_ ⟨_, hone, "1", List.mem_cons_self, List.mem_cons_self⟩
    rintro ⟨found, hfound, hblocked⟩
    rw [hone, Option.some.injEq] at hfound
    subst hfound
    have hlegible : Legible (.int 1) := (canCompare_iff _).1 (by decide +kernel)
    exact hblocked ⟨hlegible, hlegible⟩
  · rintro ⟨key, hkey⟩
    have hblocks : Blocks (Entries.fields oneAndLong) (.text "b", .int 1) :=
      ⟨_, hlong, fun h => not_legible_tooLong h.2⟩
    have hstop : search (Entries.fields ones.reverse) (Entries.fields oneAndLong) =
        .error .unwritable := search_cons_of_blocks _ hblocks
    rw [hstop] at hkey
    cases hkey

end NoteDecor.Frontmatter
