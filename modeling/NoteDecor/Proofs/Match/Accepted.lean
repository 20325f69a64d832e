import NoteDecor.Proofs.Match.Deciding
import NoteDecor.Proofs.Match.Reshaping
import NoteDecor.Proofs.Rule.Persistence
import NoteDecor.Proofs.Value.KeyedOnce

/-! Whatever the settings accept as frontmatter criteria can be met: by a document that has it as
its own frontmatter, and by one that has no more than a single value that is asked for. -/

namespace NoteDecor

namespace Frontmatter
open Value Rule

variable {v w x u : Value} {k : String} {actual : Entries}

/-- A scalar or a list of scalars, and no number in it is too long. -/
structure Accepted (v : Value) : Prop where
  criterion : IsCriterion v
  legible : Legible v

theorem accepted_of_checkEntry {key : Value} (h : Criteria.checkEntry (key, v) = .ok ()) :
    (∃ k, key = text k) ∧ Accepted v := by
  obtain ⟨⟨hkey, hcriterion⟩, -, hwritable⟩ := (checkEntry_decides (key, v)).ok_iff.1 ⟨(), h⟩
  refine ⟨hkey, hcriterion, ?_⟩
  intro n hn
  have hn' := hwritable (int n) hn
  rwa [isWritable, writable] at hn'

theorem isScalar_of_mem_parts (h : IsCriterion v) (hx : x ∈ Rule.parts v) : IsScalar x := by
  rcases h with h | ⟨vs, hvs, hall⟩
  · rw [Rule.parts, items?_of_isScalar h] at hx
    rw [List.mem_singleton.1 hx]
    exact h
  · rw [Rule.parts, hvs] at hx
    exact hall x hx

theorem comparable?_of_isScalar (h : IsScalar v) : ∃ t, v.comparable? = some t := by
  cases v <;> first | exact ⟨_, rfl⟩ | exact h.elim

theorem freezeList_of_isScalar {vs : List Value} (h : ∀ v ∈ vs, IsScalar v) :
    freezeList vs = vs := by
  induction vs with
  | nil => rfl
  | cons v vs ih =>
    rw [List.forall_mem_cons] at h
    have hv : freeze v = v := by
      cases v <;> first | rfl | exact h.1.elim
    rw [freezeList, hv, ih h.2]

theorem parts_freeze (h : IsCriterion v) : Rule.parts (freeze v) = Rule.parts v := by
  rcases h with h | ⟨vs, hvs, hall⟩
  · cases v <;> first | rfl | exact h.elim
  · cases v with
    | list xs | tuple xs =>
      cases hvs
      exact freezeList_of_isScalar hall
    | map _ | «sealed» _ => cases hvs
    | _ => rfl

theorem seen_freeze (h : IsCriterion v) : seen (freeze v) = seen v := by
  apply seen_eq
  intro x hx
  rw [parts_freeze h]

theorem freezeEntries_fields (ps : List (String × Value)) :
    freezeEntries (Entries.fields ps) = Entries.fields (ps.map fun p => (p.1, freeze p.2)) := by
  induction ps with
  | nil => rfl
  | cons p ps ih => exact congrArg ((text p.1, freeze p.2) :: ·) ih

theorem agree_of_mem_parts (h : IsCriterion v) (hx : x ∈ Rule.parts v) : Agree v x := by
  have hscalar := isScalar_of_mem_parts h hx
  obtain ⟨t, ht⟩ := comparable?_of_isScalar hscalar
  refine ⟨t, List.mem_filterMap.2 ⟨x, hx, ht⟩, List.mem_filterMap.2 ⟨x, ?_, ht⟩⟩
  rw [Rule.parts, items?_of_isScalar hscalar]
  exact List.mem_singleton_self x

theorem not_blocks_of_accepted (hw : Accepted w) (hu : Accepted u)
    (hfound : ∀ found, actual.get? (.text k) = some found → found = freeze u) :
    ¬ Blocks actual (.text k, freeze w) := by
  rintro ⟨found, hget, hlong⟩
  cases hfound found hget
  exact blind_overlong (seen_freeze hw.criterion) (seen_freeze hu.criterion) hlong
    ⟨hw.legible, hu.legible⟩

theorem agrees_of_agree (hw : IsCriterion w) (hu : IsCriterion u)
    (hget : actual.get? (.text k) = some (freeze u)) (h : Agree w u) :
    Agrees actual (.text k, freeze w) :=
  ⟨freeze u, hget, blind_agree (seen_freeze hw).symm (seen_freeze hu).symm h⟩

theorem not_agrees_of_empty (hw : w.items? = some []) : ¬ Agrees actual (.text k, freeze w) := by
  rintro ⟨found, -, t, ht, -⟩
  have hseen := seen_freeze (v := w) (.inr ⟨[], hw, nofun⟩)
  have hnone : texts w = [] := by
    rw [texts, Rule.parts, hw]
    rfl
  have hmem : t ∈ (seen (freeze w)).1 := ht
  rw [hseen] at hmem
  have hmem' : t ∈ texts w := hmem
  rw [hnone] at hmem'
  cases hmem'

theorem parts_ne_nil (hw : w.items? ≠ some []) : ∃ x, x ∈ Rule.parts w := by
  unfold Rule.parts
  cases h : w.items? with
  | none => exact ⟨w, List.mem_singleton_self w⟩
  | some xs =>
    cases xs with
    | nil => exact absurd h hw
    | cons x xs => exact ⟨x, List.mem_cons_self⟩

variable {ps before after : List (String × Value)}

theorem search_frozen (hps : ps = before ++ (k, w) :: after)
    (hbefore : ∀ p ∈ before, ¬ Blocks actual (.text p.1, freeze p.2) ∧
      ¬ Agrees actual (.text p.1, freeze p.2))
    (hblocks : ¬ Blocks actual (.text k, freeze w)) (hagrees : Agrees actual (.text k, freeze w)) :
    search (freezeEntries (Entries.fields ps)) actual = .ok (some (.text k)) := by
  have hsplit : freezeEntries (Entries.fields ps) = freezeEntries (Entries.fields before) ++
      (.text k, freeze w) :: freezeEntries (Entries.fields after) := by
    simp only [hps, freezeEntries_fields]
    simp [Entries.fields]
  have hpast : ∀ d ∈ freezeEntries (Entries.fields before),
      ¬ Blocks actual d ∧ ¬ Agrees actual d := by
    rw [freezeEntries_fields, Entries.fields, List.map_map, List.forall_mem_map]
    exact hbefore
  rw [hsplit, search_append_of_neither _ hpast, search_cons_of_agrees _ hblocks hagrees]

theorem search_itself (hps : ps = before ++ (k, w) :: after) (hn : (ps.map Prod.fst).Nodup)
    (hall : ∀ p ∈ ps, Accepted p.2) (hempty : ∀ p ∈ before, p.2.items? = some [])
    (hw : w.items? ≠ some []) :
    search (freezeEntries (Entries.fields ps)) (freezeEntries (Entries.fields ps)) =
      .ok (some (.text k)) := by
  have hget {k : String} {v : Value} (hv : (k, v) ∈ ps) :
      (freezeEntries (Entries.fields ps)).get? (.text k) = some (freeze v) := by
    rw [freezeEntries_fields, get?_fields_eq_some_iff]
    · exact List.mem_map.2 ⟨(k, v), hv, rfl⟩
    · rw [List.map_map]
      exact hn
  have hblocks {k : String} {v : Value} (hv : (k, v) ∈ ps) :
      ¬ Blocks (freezeEntries (Entries.fields ps)) (.text k, freeze v) := by
    refine not_blocks_of_accepted (hall _ hv) (hall _ hv) ?_
    intro found hfound
    rw [hget hv, Option.some.injEq] at hfound
    exact hfound.symm
  have hmem : (k, w) ∈ ps := by simp [hps]
  obtain ⟨x, hx⟩ := parts_ne_nil hw
  have hself : Agree w w := by
    obtain ⟨t, ht, -⟩ := agree_of_mem_parts (hall _ hmem).criterion hx
    exact ⟨t, ht, ht⟩
  have hagrees := agrees_of_agree (hall _ hmem).criterion (hall _ hmem).criterion (hget hmem) hself
  refine search_frozen hps ?_ (hblocks hmem) hagrees
  intro p hp
  have hp' : p ∈ ps := by simp [hps, hp]
  exact ⟨hblocks hp', not_agrees_of_empty (hempty p hp)⟩

theorem accepted_of_mem_parts (hw : Accepted w) (hx : x ∈ Rule.parts w)
    (hu : u = x ∨ u = .list [x]) : Accepted u ∧ Agree w u := by
  have hscalar := isScalar_of_mem_parts hw.criterion hx
  have hparts : Rule.parts x = [x] := by
    rw [Rule.parts, items?_of_isScalar hscalar]
    rfl
  have hlegible : Legible x := by
    intro n hn
    rw [hparts, List.mem_singleton] at hn
    exact hw.legible n (hn ▸ hx)
  have hagree := agree_of_mem_parts hw.criterion hx
  rcases hu with rfl | rfl
  · exact ⟨⟨.inl hscalar, hlegible⟩, hagree⟩
  · have hseen : seen x = seen (.list [x]) := (Reshapes.wrap (items?_of_isScalar hscalar)).seen_eq
    have hcriterion : IsCriterion (.list [x]) := .inr ⟨[x], rfl, by simpa using hscalar⟩
    have hlegible' : Legible (.list [x]) := (iff_of_eq (congrArg Prod.snd hseen)).1 hlegible
    exact ⟨⟨hcriterion, hlegible'⟩, blind_agree rfl hseen hagree⟩

theorem search_single (hps : ps = before ++ (k, w) :: after) (hn : (ps.map Prod.fst).Nodup)
    (hall : ∀ p ∈ ps, Accepted p.2) (hx : x ∈ Rule.parts w) (hu : u = x ∨ u = .list [x]) :
    search (freezeEntries (Entries.fields ps)) (freezeEntries [(.text k, u)]) =
      .ok (some (.text k)) := by
  have hget {k' : String} {found : Value} :
      Entries.get? (freezeEntries [(.text k, u)]) (.text k') = some found ↔
        (k', found) ∈ [(k, freeze u)] := by
    rw [show freezeEntries [(.text k, u)] = Entries.fields [(k, freeze u)] from rfl]
    exact get?_fields_eq_some_iff (by simp)
  have hw : Accepted w := hall (k, w) (by simp [hps])
  obtain ⟨hu, hagree⟩ := accepted_of_mem_parts hw hx hu
  refine search_frozen hps ?_ ?_ ?_
  · intro p hp
    have hne : p.1 ≠ k := by
      rw [hps, List.map_append, List.nodup_append] at hn
      exact hn.2.2 p.1 (List.mem_map_of_mem hp) k (by simp)
    refine ⟨?_, ?_⟩ <;>
    · rintro ⟨found, hfound, -⟩
      have hkey := hget.1 hfound
      simp [hne] at hkey
  · refine not_blocks_of_accepted hw hu ?_
    intro found hfound
    simpa using hget.1 hfound
  · exact agrees_of_agree hw.criterion hu.criterion (hget.2 List.mem_cons_self) hagree

theorem exists_first {P : Value → Prop} (h : ∃ p ∈ ps, P p.2) :
    ∃ before k w after, ps = before ++ (k, w) :: after ∧ P w ∧ ∀ p ∈ before, ¬ P p.2 := by
  induction ps with
  | nil => simp at h
  | cons p ps ih =>
    by_cases hp : P p.2
    · exact ⟨[], p.1, p.2, ps, rfl, hp, nofun⟩
    · have hrest : ∃ q ∈ ps, P q.2 := by simpa [hp] using h
      obtain ⟨before, k, w, after, rfl, hw, hbefore⟩ := ih hrest
      refine ⟨p :: before, k, w, after, rfl, hw, ?_⟩
      rw [List.forall_mem_cons]
      exact ⟨hp, hbefore⟩

theorem exists_fields_of_checkFrontmatter {es : Entries}
    (h : Criteria.checkFrontmatter v = .ok es) :
    ∃ ps, es = Entries.fields ps ∧ ∀ p ∈ ps, Accepted p.2 := by
  replace h := (Criteria.checkFrontmatter_eq_ok.1 h).2
  induction es with
  | nil => exact ⟨[], rfl, nofun⟩
  | cons e es ih =>
    rw [List.forall_mem_cons] at h
    obtain ⟨⟨key, hkey⟩, haccepted⟩ := accepted_of_checkEntry h.1
    obtain ⟨ps, rfl, hall⟩ := ih h.2
    refine ⟨(key, e.2) :: ps, ?_, ?_⟩
    · rw [show e = (text key, e.2) from Prod.ext hkey rfl]
      rfl
    · rw [List.forall_mem_cons]
      exact ⟨haccepted, hall⟩

end Frontmatter

namespace Engine
open Value

/-- Frontmatter that the settings accept matches a document that has it itself, unless all its
values are empty lists, and the key that is noted is the first whose value is none. It matches as
well each document that has one of the values that are asked for, alone or in a list, under the key,
and nothing else. -/
theorem evaluateCriteria_accepted {v : Value} {es : Entries}
    (hc : Criteria.checkFrontmatter v = .ok es) (hkeys : es.names.Nodup) :
    ((∃ x ∈ es, x.2.items? ≠ some []) → ∃ before key w after,
      es = before ++ (key, w) :: after ∧ w.items? ≠ some [] ∧
      (∀ x ∈ before, x.2.items? = some []) ∧
      ∀ (e : Engine) path tags title,
        e.evaluateCriteria (.make [] [] [] es) (.build path tags es title) =
          (e.note .debug "frontmatter matched" [("path", .text path), ("key", key)],
            .ok (some .empty))) ∧
    ∀ key w, (key, w) ∈ es → ∀ x ∈ Rule.parts w, ∀ u, u = x ∨ u = .list [x] →
      ∀ (e : Engine) path tags title,
        e.evaluateCriteria (.make [] [] [] es) (.build path tags [(key, u)] title) =
          (e.note .debug "frontmatter matched" [("path", .text path), ("key", key)],
            .ok (some .empty)) := by
  obtain ⟨ps, rfl, hall⟩ := Frontmatter.exists_fields_of_checkFrontmatter hc
  rw [Entries.names_fields] at hkeys
  refine ⟨?_, ?_⟩
  · intro hsome
    have hsome' : ∃ p ∈ ps, p.2.items? ≠ some [] := by
      obtain ⟨x, hx, hne⟩ := hsome
      obtain ⟨p, hp, rfl⟩ := List.mem_map.1 hx
      exact ⟨p, hp, hne⟩
    -- fields before the first value that is asked for find nothing
    obtain ⟨before, k, w, after, hps, hw, hbefore⟩ :=
      Frontmatter.exists_first (P := fun u => u.items? ≠ some []) hsome'
    simp only [not_not] at hbefore
    have hfound := Frontmatter.search_itself hps hkeys hall hbefore hw
    refine ⟨Entries.fields before, text k, w, Entries.fields after, ?_, hw, ?_, ?_⟩
    · simp [hps, Entries.fields]
    · unfold Entries.fields
      rw [List.forall_mem_map]
      exact hbefore
    · intro e path tags title
      exact evaluateCriteria_of_found (Criteria.silent_make ..) rfl hfound
  · intro key w hmem x hx u hu e path tags title
    obtain ⟨⟨k, w'⟩, hw, heq⟩ := List.mem_map.1 hmem
    cases heq
    obtain ⟨before, after, hps⟩ := List.append_of_mem hw
    have hfound := Frontmatter.search_single hps hkeys hall hx hu
    exact evaluateCriteria_of_found (Criteria.silent_make ..) rfl hfound

def listed : Entries :=
  [(.text "tags", .list []), (.text "due", .list [.date ⟨2024, 1, 31⟩, .bool true]),
    (.text "size", .int 1)]

theorem checkFrontmatter_listed : Criteria.checkFrontmatter (.map listed) = .ok listed := by
  refine Criteria.checkFrontmatter_eq_ok.2 ⟨rfl, ?_⟩
  simp only [listed, List.forall_mem_cons]
  have hshort : (int 1).isWritable = true := by decide +kernel
  have hnumber : Criteria.checkEntry (.text "size", .int 1) = .ok () := by
    unfold Criteria.checkEntry Criteria.checkValue
    exact Criteria.checkScalar_eq_ok.2 ⟨rfl, hshort⟩
  exact ⟨rfl, rfl, hnumber, nofun⟩

theorem evaluateCriteria_listed :
    (Criteria.checkFrontmatter (.map listed) = .ok listed ∧ listed.names.Nodup) ∧
    ((start [] .debug).evaluateCriteria (.make [] [] [] listed)
      (.build "x.md" [] listed none)).2 = .ok (some .empty) ∧
    ((start [] .debug).evaluateCriteria (.make [] [] [] listed)
      (.build "x.md" [] [(.text "due", .date ⟨2024, 1, 31⟩)] none)).2 = .ok (some .empty) := by
  have hkeys : listed.names.Nodup := by decide
  have hmem : (.text "due", .list [.date ⟨2024, 1, 31⟩, .bool true]) ∈ listed := by simp [listed]
  obtain ⟨hitself, hsingle⟩ := evaluateCriteria_accepted checkFrontmatter_listed hkeys
  obtain ⟨_, _, _, _, -, -, -, hmatch⟩ := hitself ⟨_, hmem, nofun⟩
  refine ⟨⟨checkFrontmatter_listed, hkeys⟩, ?_, ?_⟩
  · rw [hmatch]
  · rw [hsingle _ _ hmem (.date ⟨2024, 1, 31⟩) List.mem_cons_self _ (.inl rfl)]

end Engine

end NoteDecor
