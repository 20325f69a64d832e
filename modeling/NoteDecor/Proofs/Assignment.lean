import Mathlib.Data.List.Induction

/-! Lists of values by key, in which an assignment takes the place of the entry with its key and
comes last where there is none. Of many assignments every key is there once, where it comes first,
with the value that comes last. -/

namespace NoteDecor

variable {α β γ : Type} [DecidableEq α]

def assign (k : α) (v : β) : List (α × β) → List (α × β)
  | [] => [(k, v)]
  | e :: r => if e.1 = k then (k, v) :: r else e :: assign k v r

theorem keys_assign (k : α) (v : β) (es : List (α × β)) :
    (assign k v es).map Prod.fst =
      if k ∈ es.map Prod.fst then es.map Prod.fst else es.map Prod.fst ++ [k] := by
  induction es with
  | nil => rfl
  | cons e r ih =>
    by_cases he : e.1 = k
    · subst he
      simp [assign]
    · simp only [assign, if_neg he, List.map_cons, ih, List.mem_cons, Ne.symm he, false_or]
      split <;> rfl

theorem nodup_keys_assign {es : List (α × β)} (h : (es.map Prod.fst).Nodup) (k : α) (v : β) :
    ((assign k v es).map Prod.fst).Nodup := by
  rw [keys_assign]
  split
  · exact h
  · next hk =>
      refine List.nodup_append.2 ⟨h, List.pairwise_singleton .., fun a ha b hb hab => hk ?_⟩
      rwa [← List.mem_singleton.1 hb, ← hab]

theorem mem_assign {es : List (α × β)} (h : (es.map Prod.fst).Nodup) (k : α) (v : β) (e : α × β) :
    e ∈ assign k v es ↔ if e.1 = k then e.2 = v else e ∈ es := by
  induction es with
  | nil =>
    simp only [assign, List.mem_singleton, List.not_mem_nil, Prod.ext_iff]
    split <;> simp_all
  | cons g r ih =>
    obtain ⟨hout, hrest⟩ := List.nodup_cons.1 h
    by_cases hg : g.1 = k
    · have hr : ∀ x ∈ r, x.1 ≠ k := fun x hx hxk =>
        hout (hg.trans hxk.symm ▸ List.mem_map_of_mem hx)
      simp only [assign, if_pos hg, List.mem_cons, Prod.ext_iff]
      split
      · next he =>
          exact ⟨fun h => h.elim And.right fun hm => absurd he (hr e hm), fun h => .inl ⟨he, h⟩⟩
      · next he =>
          have hge : ¬ (e.1 = g.1 ∧ e.2 = g.2) := fun h => he (h.1.trans hg)
          simp only [he, hge, false_and, false_or]
    · simp only [assign, if_neg hg, List.mem_cons, ih hrest]
      split
      · next he =>
          have hne : e ≠ g := fun h => hg (h ▸ he)
          simp only [hne, false_or]
      · exact Iff.rfl

theorem assign_of_mem {es : List (α × β)} (h : (es.map Prod.fst).Nodup) {k : α} {v : β}
    (hm : (k, v) ∈ es) : assign k v es = es := by
  induction es with
  | nil => cases hm
  | cons e r ih =>
    obtain ⟨hout, hrest⟩ := List.nodup_cons.1 h
    rcases List.mem_cons.1 hm with rfl | hm
    · simp only [assign, if_true]
    · have he : e.1 ≠ k := fun he => hout (he ▸ List.mem_map_of_mem hm)
      rw [assign, if_neg he, ih hrest hm]

theorem assign_of_not_mem {k : α} {es : List (α × β)} (h : k ∉ es.map Prod.fst) (v : β) :
    assign k v es = es ++ [(k, v)] := by
  induction es with
  | nil => rfl
  | cons e r ih =>
    rw [List.map_cons, List.mem_cons, not_or] at h
    rw [assign, if_neg (Ne.symm h.1), ih h.2, List.cons_append]

theorem map_assign (g : β → γ) (k : α) (v : β) (es : List (α × β)) :
    (assign k v es).map (fun p => (p.1, g p.2)) = assign k (g v) (es.map fun p => (p.1, g p.2)) := by
  induction es with
  | nil => rfl
  | cons e es ih =>
    rw [assign, List.map_cons, assign, ← ih]
    split <;> rfl

theorem map_foldl_assign (g : β → γ) (ps done : List (α × β)) :
    (ps.foldl (fun es p => assign p.1 p.2 es) done).map (fun p => (p.1, g p.2)) =
      (ps.map fun p => (p.1, g p.2)).foldl (fun es p => assign p.1 p.2 es)
        (done.map fun p => (p.1, g p.2)) := by
  induction ps generalizing done with
  | nil => rfl
  | cons p ps ih => rw [List.foldl_cons, ih, map_assign, List.map_cons, List.foldl_cons]

theorem foldl_assign_of_nodup {es ps : List (α × β)} (h : ((es ++ ps).map Prod.fst).Nodup) :
    ps.foldl (fun es p => assign p.1 p.2 es) es = es ++ ps := by
  induction ps generalizing es with
  | nil => exact (List.append_nil es).symm
  | cons p ps ih =>
    have hnew : p.1 ∉ es.map Prod.fst := by
      rw [List.map_append, List.map_cons] at h
      intro hmem
      exact (List.nodup_append.1 h).2.2 _ hmem _ (.head _) rfl
    rw [List.append_cons] at h
    rw [List.foldl_cons, assign_of_not_mem hnew, ih h, ← List.append_cons]

/-- The value under a key. -/
def valueAt? (k : α) (es : List (α × β)) : Option β := (es.find? fun e => e.1 == k).map Prod.snd

theorem valueAt?_cons (k : α) (e : α × β) (es : List (α × β)) :
    valueAt? k (e :: es) = if e.1 = k then some e.2 else valueAt? k es := by
  by_cases he : e.1 = k <;> simp [valueAt?, he]

theorem valueAt?_append (k : α) (es fs : List (α × β)) :
    valueAt? k (es ++ fs) = (valueAt? k es).or (valueAt? k fs) := by
  unfold valueAt?
  rw [List.find?_append]
  cases es.find? fun e => e.1 == k <;> rfl

theorem valueAt?_assign (q k : α) (v : β) (es : List (α × β)) :
    valueAt? q (assign k v es) = if k = q then some v else valueAt? q es := by
  induction es with
  | nil => rw [assign, valueAt?_cons]
  | cons e r ih =>
    by_cases he : e.1 = k
    · rw [assign, if_pos he, valueAt?_cons, valueAt?_cons, he]
      split <;> rfl
    · rw [assign, if_neg he, valueAt?_cons, valueAt?_cons, ih]
      by_cases hk : k = q
      · simp only [if_pos hk, if_neg (hk ▸ he)]
      · simp only [if_neg hk]

theorem valueAt?_isSome (k : α) (es : List (α × β)) :
    (valueAt? k es).isSome ↔ k ∈ es.map Prod.fst := by
  simp only [valueAt?, Option.isSome_map, List.find?_isSome, beq_iff_eq, List.mem_map]

theorem mem_of_valueAt? {k : α} {v : β} {es : List (α × β)}
    (h : valueAt? k es = some v) : (k, v) ∈ es := by
  obtain ⟨e, he, rfl⟩ := Option.map_eq_some_iff.1 h
  have hk : e.1 = k := by simpa using List.find?_some he
  exact hk ▸ List.mem_of_find?_eq_some he

theorem valueAt?_of_mem {k : α} {v : β} {es : List (α × β)}
    (hn : (es.map Prod.fst).Nodup) (h : (k, v) ∈ es) : valueAt? k es = some v := by
  rw [← assign_of_mem hn h, valueAt?_assign, if_pos rfl]

theorem map_valueAt? {es : List (α × β)} (h : (es.map Prod.fst).Nodup) (default : β) :
    (es.map Prod.fst).map (fun k => (k, (valueAt? k es).getD default)) = es := by
  rw [List.map_map]
  refine (List.map_congr_left fun e he => ?_).trans (List.map_id es)
  rw [Function.comp_apply, valueAt?_of_mem h he, Option.getD_some, id]

theorem eraseDups_concat (ks : List α) (k : α) :
    (ks ++ [k]).eraseDups = if k ∈ ks then ks.eraseDups else ks.eraseDups ++ [k] := by
  rw [List.eraseDups_append]
  by_cases hk : k ∈ ks <;> simp [List.removeAll, hk, List.eraseDups_cons]

theorem nodup_eraseDups (ks : List α) : ks.eraseDups.Nodup := by
  induction ks using List.reverseRecOn with
  | nil => exact List.nodup_nil
  | append_singleton ks k ih =>
    rw [eraseDups_concat]
    split
    · exact ih
    · next hk =>
      have hlast : k ∉ ks.eraseDups := fun h => hk (List.mem_eraseDups.1 h)
      exact List.nodup_append.2 ⟨ih, List.pairwise_singleton .., fun a ha b hb =>
        ne_of_mem_of_not_mem ha (List.mem_singleton.1 hb ▸ hlast)⟩

theorem keys_foldl_assign (ps : List (α × β)) :
    (ps.foldl (fun es p => assign p.1 p.2 es) []).map Prod.fst = (ps.map Prod.fst).eraseDups := by
  induction ps using List.reverseRecOn with
  | nil => rfl
  | append_singleton ps p ih =>
    rw [List.foldl_append, List.foldl_cons, List.foldl_nil, keys_assign, ih, List.map_append,
      List.map_singleton, eraseDups_concat]
    simp only [List.mem_eraseDups]

theorem nodup_keys_foldl_assign (ps : List (α × β)) :
    ((ps.foldl (fun es p => assign p.1 p.2 es) []).map Prod.fst).Nodup :=
  keys_foldl_assign ps ▸ nodup_eraseDups _

theorem valueAt?_foldl_assign (k : α) (ps : List (α × β)) :
    valueAt? k (ps.foldl (fun es p => assign p.1 p.2 es) []) = valueAt? k ps.reverse := by
  induction ps using List.reverseRecOn with
  | nil => rfl
  | append_singleton ps p ih =>
    rw [List.foldl_append, List.foldl_cons, List.foldl_nil, valueAt?_assign, ih,
      List.reverse_append, List.reverse_singleton, List.singleton_append, valueAt?_cons]

theorem mem_of_mem_foldl_assign {ps : List (α × β)} {p : α × β}
    (h : p ∈ ps.foldl (fun es p => assign p.1 p.2 es) []) : p ∈ ps := by
  have hvalue := valueAt?_of_mem (nodup_keys_foldl_assign ps) h
  rw [valueAt?_foldl_assign] at hvalue
  exact List.mem_reverse.1 (mem_of_valueAt? hvalue)

end NoteDecor
