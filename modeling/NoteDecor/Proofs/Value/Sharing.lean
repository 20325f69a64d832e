import NoteDecor.Proofs.Value.Contents

/-! Storing in a mapping that may be held in several places. The key path leads to the last mapping
that is there already, which is the only cell to change; what lies below it is made anew. If one
route alone leads to that cell, nothing beside the path shows the change. -/

namespace NoteDecor.Value
open Settings

theorem isTree_field? {es : Entries} (hes : (map es).IsTree) (k : String) :
    ((es.field? k).getD (map [])).IsTree := by
  cases hf : es.field? k with
  | none => exact ⟨rfl, rfl⟩
  | some v =>
    obtain ⟨e, he, rfl⟩ := Entries.mem_of_field? hf
    exact isTree_map.1 hes e he

theorem ne_cell_of_closed {v : Value} (h : v.mentioned = []) (m : Nat) : v ≠ cell m := by
  rintro rfl
  cases h

section Step

variable {cells : List Value} {n m : Nat} {es : Entries} {k : String} {ks : List String}
  {new : Value}

theorem setInCell_of_bare (hn : ∀ es, cells.getD n null ≠ map es) (k : String)
    (ks : List String) (new : Value) : ∃ f, setInCell cells n (k :: ks) new = .error f := by
  unfold setInCell
  split
  · next h => cases h
  · next hes => exact absurd hes (hn _)
  · next hes => exact absurd hes (hn _)
  · exact ⟨_, rfl⟩
  · exact ⟨_, rfl⟩

theorem setInCell_one (hn : cells.getD n null = map es) (k : String) (new : Value) :
    setInCell cells n [k] new = .ok (cells.set n (map (Entries.setField k new es))) := by
  rw [setInCell.eq_def, hn]

theorem setInCell_cell (hn : cells.getD n null = map es) (hk : Entries.field? es k = some (cell m))
    (hks : ks ≠ []) (new : Value) :
    setInCell cells n (k :: ks) new = setInCell cells m ks new := by
  obtain ⟨j, js, rfl⟩ := List.exists_cons_of_ne_nil hks
  rw [setInCell.eq_def, hn]
  simp only [hk, Option.getD_some]

theorem setInCell_inner (hn : cells.getD n null = map es)
    (hk : ∀ m, (Entries.field? es k).getD (map []) ≠ cell m) (hks : ks ≠ []) (new : Value) :
    setInCell cells n (k :: ks) new =
      setInCell (cells.set n (map (Entries.setField k (cell cells.length) es)) ++
        [(Entries.field? es k).getD (map [])]) cells.length ks new := by
  obtain ⟨j, js, rfl⟩ := List.exists_cons_of_ne_nil hks
  rw [setInCell.eq_def, hn]
  dsimp only
  split
  · next m hm => exact absurd hm (hk m)
  · rfl

end Step

theorem set_length_append (base : List Value) (x y : Value) :
    (base ++ [x]).set base.length y = base ++ [y] := by
  rw [List.set_append_right _ _ (Nat.le_refl _), Nat.sub_self]
  rfl

theorem getD_length_append (base : List Value) (x : Value) (extra : List Value) :
    (base ++ x :: extra).getD base.length null = x := by
  rw [List.getD_eq_getElem?_getD, List.getElem?_append_right (Nat.le_refl _), Nat.sub_self]
  rfl

theorem eq_beside {cells : List Value} {n : Nat} {es : Entries} {k : String} {ks : List String}
    {y : Value} (hes : (map es).IsTree) (hn : cells.getD n null = map (Entries.setField k y es))
    (hbelow : ∀ other, Beside other ks → Option.Rel Eq
      (((es.field? k).getD (map [])).at? other) ((fillCells (whole cells) y).at? other))
    {other : List String} (h : Beside other (k :: ks)) :
    Option.Rel Eq ((map es).at? other) ((whole cells n).at? other) := by
  refine rel_beside rfl (mapping?_whole_of_map hn) (fun j hj js => ?_) ?_ hbelow h
  · rw [field?_fillCellsEach, Entries.field?_setField_of_ne hj]
    cases hf : es.field? j with
    | none => exact .none
    | some x =>
      obtain ⟨e, he, rfl⟩ := Entries.mem_of_field? hf
      rw [Option.map_some, fillCells_of_closed (isTree_map.1 hes e he).1]
      cases (some e.2).bind (at? js) with
      | none => exact .none
      | some u => exact .some rfl
  · rw [field?_fillCellsEach, Entries.field?_setField_self, Option.map_some]

theorem setInCell_fresh {inner : Value} (hinner : inner.IsTree) (new : Value) {ks : List String}
    (hks : ks ≠ []) (base : List Value) :
    match setInCell (base ++ [inner]) base.length ks new with
    | .error _ => found ks inner = .blocked
    | .ok cells => found ks inner ≠ .blocked ∧ ∃ extra, cells = base ++ extra ∧
        (whole cells base.length).at? ks = some (fillCells (whole cells) new) ∧
        ∀ other, Beside other ks →
          Option.Rel Eq (inner.at? other) ((whole cells base.length).at? other) := by
  induction ks generalizing inner base with
  | nil => exact absurd rfl hks
  | cons k ks ih =>
    have hget : (base ++ [inner]).getD base.length null = inner := getD_length_append base inner []
    cases inner with
    | knot cells n => cases hinner.2
    | map es =>
      by_cases hlast : ks = []
      · subst hlast
        have hn := getD_length_append base (map (Entries.setField k new es)) []
        rw [setInCell_one hget, set_length_append]
        refine ⟨?_, _, rfl, ?_, fun other hother => ?_⟩
        · rw [Ne, ← found_made_eq_blocked_iff]
          exact found_nil_ne_blocked _
        · rw [at?_whole_cons hn, Entries.field?_setField_self]
          rfl
        · exact eq_beside hinner hn (fun js hjs => absurd hjs (not_beside_of_nil js)) hother
      · -- what is under the key is a tree as well and becomes the next cell
        have hfield := isTree_field? hinner k
        have hnext := ih hfield hlast
          (base ++ [map (Entries.setField k (cell (base.length + 1)) es)])
        rw [setInCell_inner hget (ne_cell_of_closed hfield.1) hlast, List.length_append,
          List.length_singleton, set_length_append]
        rw [List.length_append, List.length_singleton] at hnext
        cases hs : setInCell (base ++ [map (Entries.setField k (cell (base.length + 1)) es)] ++
            [(Entries.field? es k).getD (map [])]) (base.length + 1) ks new with
        | error f =>
          rw [hs] at hnext
          exact (found_made_eq_blocked_iff es k ks).1 hnext
        | ok cells =>
          rw [hs] at hnext
          obtain ⟨hopen, extra, rfl, hat, hbeside⟩ := hnext
          have hn := getD_length_append base (map (Entries.setField k (cell (base.length + 1)) es))
            extra
          rw [List.append_assoc base _ extra, List.singleton_append] at hat hbeside ⊢
          refine ⟨fun h => hopen ((found_made_eq_blocked_iff es k ks).2 h), _, rfl, ?_,
            fun other hother => eq_beside hinner hn hbeside hother⟩
          rw [at?_whole_cons hn, Entries.field?_setField_self]
          exact hat
    | _ =>
      obtain ⟨f, hf⟩ := setInCell_of_bare (fun es h => by rw [hget] at h; cases h) k ks new
      rw [hf]
      exact found_cons_of_bare rfl

section Way

variable {cells cells' : List Value} {n t : Nat} {front rest : List String} {new : Value}

theorem setInCell_lead (h : lead cells front n = some t) (hrest : rest ≠ []) (new : Value) :
    setInCell cells n (front ++ rest) new = setInCell cells t rest new := by
  induction front generalizing n with
  | nil =>
    cases h
    rfl
  | cons k ks ih =>
    obtain ⟨es, m, hn, hk, h⟩ := lead_cons_eq_some.1 h
    rw [List.cons_append, setInCell_cell hn hk (List.append_ne_nil_of_right_ne_nil ks hrest)]
    exact ih h

theorem at?_lead (h : lead cells front n = some t) (rest : List String) :
    (whole cells n).at? (front ++ rest) = (whole cells t).at? rest := by
  induction front generalizing n with
  | nil =>
    cases h
    rfl
  | cons k ks ih =>
    obtain ⟨es, m, hn, hk, h⟩ := lead_cons_eq_some.1 h
    rw [List.cons_append, at?_whole_cons hn, hk]
    exact ih h

theorem found_lead (h : lead cells front n = some t) (rest : List String) :
    found (front ++ rest) (whole cells n) = found rest (whole cells t) := by
  induction front generalizing n with
  | nil =>
    cases h
    rfl
  | cons k ks ih =>
    obtain ⟨es, m, hn, hk, h⟩ := lead_cons_eq_some.1 h
    rw [List.cons_append, found_whole_cons hn, hk]
    exact ih h

theorem exists_lead (cells : List Value) (n : Nat) {path : List String} (hpath : path ≠ []) :
    ∃ front k ks t, path = front ++ k :: ks ∧ lead cells front n = some t ∧
      (ks ≠ [] → ∀ es m, cells.getD t null = map es → Entries.field? es k ≠ some (cell m)) := by
  induction path generalizing n with
  | nil => exact absurd rfl hpath
  | cons k ks ih =>
    by_cases hon : ks ≠ [] ∧
        ∃ es m, cells.getD n null = map es ∧ Entries.field? es k = some (cell m)
    · obtain ⟨hks, es, m, hn, hk⟩ := hon
      obtain ⟨front, j, js, t, rfl, hlead, hlast⟩ := ih m hks
      exact ⟨k :: front, j, js, t, rfl, lead_cons_eq_some.2 ⟨es, m, hn, hk, hlead⟩, hlast⟩
    · refine ⟨[], k, ks, n, rfl, rfl, fun hks es m hn hk => hon ⟨hks, es, m, hn, hk⟩⟩

end Way

section Target

variable {cells cells' : List Value} {n t : Nat} {es fs : Entries} {k : String}
  {ks front : List String} {new y : Value}

theorem tree_field? (hc : AreContents cells) (ht : cells.getD t null = map es)
    (hk : ∀ m, Entries.field? es k ≠ some (cell m)) :
    ((Entries.field? es k).getD (map [])).IsTree := by
  cases hf : Entries.field? es k with
  | none => exact ⟨rfl, rfl⟩
  | some v =>
    rcases hc.isPart_field? ht hf with ⟨m, -, rfl⟩ | htree
    · exact absurd hf (hk m)
    · exact htree

theorem field?_target (hc : AreContents cells) (ht : cells.getD t null = map es)
    (hk : ∀ m, es.field? k ≠ some (cell m)) (f : Nat → Value) :
    ((fillCellsEach f es).field? k).getD (map []) = (es.field? k).getD (map []) := by
  obtain ⟨hclosed, -⟩ := tree_field? hc ht hk
  rw [field?_fillCellsEach]
  cases hf : es.field? k with
  | none => rfl
  | some v =>
    rw [hf] at hclosed
    exact fillCells_of_closed hclosed

theorem found_target (hc : AreContents cells) (ht : cells.getD t null = map es)
    (hk : ks ≠ [] → ∀ m, es.field? k ≠ some (cell m)) :
    found (k :: ks) (whole cells t) = .blocked ↔
      found ks ((es.field? k).getD (map [])) = .blocked := by
  rw [found_map (mapping?_whole_of_map ht), ← found_made_eq_blocked_iff]
  by_cases hks : ks = []
  · subst hks
    exact iff_of_false (found_nil_ne_blocked _) (found_nil_ne_blocked _)
  · rw [field?_target hc ht (hk hks)]

theorem setInCell_target (hc : AreContents cells) (ht : cells.getD t null = map es)
    (hk : ks ≠ [] → ∀ m, Entries.field? es k ≠ some (cell m)) (new : Value) :
    match setInCell cells t (k :: ks) new with
    | .error _ => found ks ((es.field? k).getD (map [])) = .blocked
    | .ok cells' => found ks ((es.field? k).getD (map [])) ≠ .blocked ∧ ∃ y extra,
        cells' = cells.set t (map (Entries.setField k y es)) ++ extra ∧
        (fillCells (whole cells') y).at? ks = some (fillCells (whole cells') new) ∧
        ∀ other, Beside other ks → Option.Rel Eq
          (((es.field? k).getD (map [])).at? other) ((fillCells (whole cells') y).at? other) := by
  by_cases hks : ks = []
  · subst hks
    rw [setInCell_one ht]
    exact ⟨found_nil_ne_blocked _, new, [], (List.append_nil _).symm, rfl,
      fun other hother => absurd hother (not_beside_of_nil other)⟩
  · have hinner := tree_field? hc ht (hk hks)
    have hfresh := setInCell_fresh hinner new hks
      (cells.set t (map (Entries.setField k (cell cells.length) es)))
    rw [List.length_set] at hfresh
    rw [setInCell_inner ht (ne_cell_of_closed hinner.1) hks]
    split
    · next f hs =>
      rw [hs] at hfresh
      exact hfresh
    · next cells' hs =>
      rw [hs] at hfresh
      obtain ⟨hopen, extra, rfl, hat, hbeside⟩ := hfresh
      exact ⟨hopen, cell cells.length, extra, rfl, hat, hbeside⟩

theorem getD_set_append {c : Value} (extra : List Value) {m : Nat} (hm : m < cells.length) :
    (cells.set t c ++ extra).getD m null = if m = t then c else cells.getD m null := by
  rw [List.getD_eq_getElem?_getD, List.getElem?_append_left (by rwa [List.length_set]),
    List.getElem?_set]
  by_cases hmt : t = m
  · rw [if_pos hmt, if_pos hmt.symm, if_pos (hmt ▸ hm)]
    rfl
  · rw [if_neg hmt, if_neg (Ne.symm hmt), List.getD_eq_getElem?_getD]

end Target

section Beside

variable {cells cells' : List Value} {n t : Nat} {es fs : Entries} {k : String}
  {ks front : List String}
  (hc : AreContents cells)
  (hsame : ∀ m < cells.length, m ≠ t → cells'.getD m null = cells.getD m null)
include hc hsame

theorem rel_other (hn : cells.getD n null = map es) (hfs : ∀ j ≠ k, fs.field? j = es.field? j)
    (haway : ∀ j ≠ k, ∀ m, es.field? j = some (cell m) → Away cells m t) :
    ∀ j ≠ k, ∀ js, Option.Rel LooksLike
      (((fillCellsEach (whole cells) es).field? j).bind (at? js))
      (((fillCellsEach (whole cells') fs).field? j).bind (at? js)) := by
  intro j hj js
  rw [field?_fillCellsEach, field?_fillCellsEach, hfs j hj]
  cases hf : es.field? j with
  | none => exact .none
  | some x =>
    rcases hc.isPart_field? hn hf with ⟨m, hm, rfl⟩ | ⟨hclosed, -⟩
    · exact (looksLike_of_away hc hsame hm (haway j hj m hf)).at? js
    · rw [Option.map_some, Option.map_some, fillCells_of_closed hclosed,
        fillCells_of_closed hclosed]
      exact (LooksLike.refl x).at? js

theorem at?_beside (hsole : Sole cells n t) (hlead : lead cells front n = some t)
    (hbelow : ∀ other, Beside other ks →
      Option.Rel LooksLike ((whole cells t).at? other) ((whole cells' t).at? other))
    {other : List String} (h : Beside other (front ++ ks)) :
    Option.Rel LooksLike ((whole cells n).at? other) ((whole cells' n).at? other) := by
  induction front generalizing n other with
  | nil =>
    cases hlead
    exact hbelow other h
  | cons i front ih =>
    obtain ⟨es, m, hn, hi, hlead⟩ := lead_cons_eq_some.1 hlead
    obtain ⟨p, hp, hkey⟩ := exists_hop hn hi
    obtain ⟨is, his⟩ := exists_follow hlead
    have hn' : cells'.getD n null = map es :=
      (hsame n (lt_length_of_getD_map hn) (hsole.ne_of_hop hp his)).trans hn
    have haway (j : String) (hj : j ≠ i) (m' : Nat) (hm' : Entries.field? es j = some (cell m')) :
        Away cells m' t := by
      obtain ⟨q, hq, hkey'⟩ := exists_hop hn hm'
      refine hsole.away hp his hq fun hqp => hj (key_eq_of_position hkey' ?_)
      rwa [hqp]
    have hfill (f : Nat → Value) : (fillCellsEach f es).field? i = some (f m) := by
      rw [field?_fillCellsEach, hi]
      rfl
    refine rel_beside (mapping?_whole_of_map hn) (mapping?_whole_of_map hn')
      (rel_other hc hsame hn (fun _ _ => rfl) haway) (hfill _) (fun js hjs => ?_) h
    rw [hfill, Option.getD_some]
    exact ih (hsole.of_hop hp) hlead hjs

omit hc in
theorem lead_of_sole (hsole : Sole cells n t) (hlead : lead cells front n = some t) :
    lead cells' front n = some t := by
  induction front generalizing n with
  | nil => exact hlead
  | cons i front ih =>
    obtain ⟨es, m, hn, hi, hlead⟩ := lead_cons_eq_some.1 hlead
    obtain ⟨p, hp, -⟩ := exists_hop hn hi
    obtain ⟨is, his⟩ := exists_follow hlead
    have hn' : cells'.getD n null = map es :=
      (hsame n (lt_length_of_getD_map hn) (hsole.ne_of_hop hp his)).trans hn
    exact lead_cons_eq_some.2 ⟨es, m, hn', hi, ih (hsole.of_hop hp) hlead⟩

theorem stored_knot {new y : Value} (hsole : Sole cells n t) (hlead : lead cells front n = some t)
    (ht : cells.getD t null = map es) (ht' : cells'.getD t null = map (Entries.setField k y es))
    (hk : ks ≠ [] → ∀ m, es.field? k ≠ some (cell m))
    (hat : (fillCells (whole cells') y).at? ks = some new)
    (hbeside : ∀ other, Beside other ks → Option.Rel Eq
      (((es.field? k).getD (map [])).at? other) ((fillCells (whole cells') y).at? other)) :
    (knot cells' n).at? (front ++ k :: ks) = some new ∧
    ∀ other, Beside other (front ++ k :: ks) →
      Option.Rel LooksLike ((knot cells n).at? other) ((knot cells' n).at? other) := by
  have hopen :
      ∀ f, (fillCells f (cells'.getD n null)).opened = fillCells f (cells'.getD n null) := by
    by_cases hnt : n = t
    · rw [hnt, ht']
      exact fun f => rfl
    · rw [hsame n (lt_length_of_lead hlead (lt_length_of_getD_map ht)) hnt]
      exact (hc.getD n).opened_fillCells
  have hfield : (fillCellsEach (whole cells') (Entries.setField k y es)).field? k =
      some (fillCells (whole cells') y) := by
    rw [field?_fillCellsEach, Entries.field?_setField_self]
    rfl
  -- what is beside the way is told by the frame lemma, down to the cell that changes
  refine ⟨?_, fun other hother => ?_⟩
  · rw [at?_knot hopen (by simp), at?_lead (lead_of_sole hsame hsole hlead),
      at?_whole_cons ht', Entries.field?_setField_self]
    exact hat
  · have hne : other ≠ [] := by
      rintro rfl
      exact not_beside_nil _ hother
    rw [at?_knot (hc.getD n).opened_fillCells hne, at?_knot hopen hne]
    refine at?_beside hc hsame hsole hlead (fun js hjs => ?_) hother
    have haway (j : String) (hj : j ≠ k) (m : Nat) (hm : es.field? j = some (cell m)) :
        Away cells m t := by
      obtain ⟨i, hi, -⟩ := exists_hop ht hm
      exact (hsole.of_lead hlead).away_self hi
    refine rel_beside (mapping?_whole_of_map ht) (mapping?_whole_of_map ht')
      (rel_other hc hsame ht (fun j hj => Entries.field?_setField_of_ne hj y) haway) hfield
      (fun is his => ?_) hjs
    have hks : ks ≠ [] := by
      rintro rfl
      exact not_beside_of_nil is his
    rw [field?_target hc ht (hk hks)]
    have hrel := hbeside is his
    generalize ((es.field? k).getD (map [])).at? is = a,
      (fillCells (whole cells') y).at? is = b at hrel ⊢
    cases hrel with
    | none => exact .none
    | some hab => exact .some (hab ▸ LooksLike.refl _)

end Beside

section Knot

variable {cells : List Value} {n : Nat} {new : Value} {path : List String}

theorem setAt_knot (cells : List Value) (n : Nat) (hpath : path ≠ []) (new : Value) :
    (knot cells n).setAt path new = (setInCell cells n path new).map fun cells => knot cells n := by
  obtain ⟨k, ks, rfl⟩ := List.exists_cons_of_ne_nil hpath
  rfl

inductive Stored (cells : List Value) (n : Nat) (path : List String) (new : Value) :
    List Value → Prop
  | under {front ks : List String} {k : String} {t : Nat} {es : Entries} {y : Value}
      {extra cells' : List Value} (hpath : path = front ++ k :: ks)
      (hlead : lead cells front n = some t) (ht : cells.getD t null = map es)
      (hk : ks ≠ [] → ∀ m, es.field? k ≠ some (cell m))
      (hcells : cells' = cells.set t (map (Entries.setField k y es)) ++ extra)
      (hat : (fillCells (whole cells') y).at? ks = some (fillCells (whole cells') new))
      (hbeside : ∀ other, Beside other ks → Option.Rel Eq
        (((es.field? k).getD (map [])).at? other) ((fillCells (whole cells') y).at? other)) :
      Stored cells n path new cells'

theorem setInCell_cases (hc : AreContents cells) (new : Value) (hpath : path ≠ []) :
    match setInCell cells n path new with
    | .error _ => found path (whole cells n) = .blocked
    | .ok cells' => found path (whole cells n) ≠ .blocked ∧ Stored cells n path new cells' := by
  obtain ⟨front, k, ks, t, rfl, hlead, hlast⟩ := exists_lead cells n hpath
  rw [setInCell_lead hlead (List.cons_ne_nil k ks), found_lead hlead]
  by_cases hmap : ∃ es, cells.getD t null = map es
  · obtain ⟨es, ht⟩ := hmap
    have hk := fun hks m => hlast hks es m ht
    have hstored := setInCell_target hc ht hk new
    split
    · next f hs =>
      rw [hs] at hstored
      exact (found_target hc ht hk).2 hstored
    · next cells' hs =>
      rw [hs] at hstored
      obtain ⟨hopen, y, extra, hcells, hat, hbeside⟩ := hstored
      exact ⟨fun h => hopen ((found_target hc ht hk).1 h), .under rfl hlead ht hk hcells hat hbeside⟩
  · have hbare : ∀ es, cells.getD t null ≠ map es := fun es h => hmap ⟨es, h⟩
    obtain ⟨f, hf⟩ := setInCell_of_bare hbare k ks new
    rw [hf]
    exact found_cons_of_bare (mapping?_whole_of_bare hc hbare)

theorem Stored.knot {cells' : List Value} (h : Stored cells n path new cells')
    (hc : AreContents cells)
    (hsole : ∀ front t, front <+: path → front ≠ path → lead cells front n = some t →
      Sole cells n t) :
    (knot cells' n).at? path = some (fillCells (whole cells') new) ∧
    ∀ other, Beside other path →
      Option.Rel LooksLike ((knot cells n).at? other) ((knot cells' n).at? other) := by
  obtain ⟨rfl, hlead, ht, hk, rfl, hat, hbeside⟩ := h
  exact stored_knot hc (fun m hm hmt => (getD_set_append _ hm).trans (if_neg hmt))
    (hsole _ _ (List.prefix_append _ _) (by simp) hlead) hlead ht
    ((getD_set_append _ (lt_length_of_getD_map ht)).trans (if_pos rfl)) hk hat hbeside

theorem lawful_knot (hc : AreContents cells) (hnew : new.mentioned = [])
    (hsole : ∀ front t, front <+: path → front ≠ path → lead cells front n = some t →
      Sole cells n t) :
    Lawful LooksLike path new (knot cells n) := by
  by_cases hpath : path = []
  · subst hpath
    exact lawful_nil _ new
  have hcases := setInCell_cases (n := n) hc new hpath
  unfold Lawful
  rw [setAt_knot cells n hpath, found_knot (hc.getD n).opened_fillCells hpath]
  cases hs : setInCell cells n path new with
  | error f =>
    rw [hs] at hcases
    exact hcases
  | ok cells' =>
    rw [hs] at hcases
    have hstored := hcases.2.knot hc hsole
    rw [fillCells_of_closed hnew] at hstored
    exact ⟨hcases.1, hstored⟩

end Knot

end NoteDecor.Value
