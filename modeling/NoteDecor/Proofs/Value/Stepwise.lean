import NoteDecor.Proofs.Value.Sound

/-! Storing step by step. A walk along the path makes each mapping that is not there yet as soon as
it is met, and assigns at the end. It can only fail before it has made anything, so that it leaves
what storing all at once gives, or else all as it was. -/

namespace NoteDecor.Value
open Settings

def assigned (v : Value) (path : List String) (new : Value) : Value × Except PathFault Unit :=
  match v.setAt path new with
  | .ok w => (w, .ok ())
  | .error f => (v, .error f)

def enter (v : Value) (way : List String) (k : String) : Value × Except PathFault Unit :=
  match (v.at? way).bind mapping? with
  | none => (v, .error .noMembers)
  | some es =>
    if (Entries.field? es k).isSome then (v, .ok ()) else v.assigned (way ++ [k]) (map [])

/-- Walks the rest of a path and assigns under its last key. What was made stays made if a later
step fails. -/
def stepwise (new : Value) : (way rest : List String) → Value → Value × Except PathFault Unit
  | way, [], v => v.assigned way new
  | way, [k], v => v.assigned (way ++ [k]) new
  | way, k :: rest, v =>
    match v.enter way k with
    | (w, .ok ()) => stepwise new (way ++ [k]) rest w
    | (w, .error f) => (w, .error f)

def Missing (way : List String) (k : String) (v : Value) : Prop :=
  ∃ u es, v.at? way = some u ∧ u.mapping? = some es ∧ Entries.field? es k = none

section Missing

variable {v w u new : Value} {way : List String} {i k : String} {es : Entries}

theorem missing_nil (hv : v.mapping? = some es) : Missing [] k v ↔ es.field? k = none := by
  constructor
  · rintro ⟨u, fs, hu, hfs, hk⟩
    cases hu
    rw [hv] at hfs
    cases hfs
    exact hk
  · exact fun h => ⟨v, es, rfl, hv, h⟩

theorem missing_cons (hv : v.mapping? = some es) :
    Missing (i :: way) k v ↔ ∃ x, es.field? i = some x ∧ Missing way k x := by
  constructor
  · rintro ⟨u, fs, hu, hfs, hk⟩
    rw [at?_cons hv] at hu
    obtain ⟨x, hx, hu⟩ := Option.bind_eq_some_iff.1 hu
    exact ⟨x, hx, u, fs, hu, hfs, hk⟩
  · rintro ⟨x, hx, u, fs, hu, hfs, hk⟩
    refine ⟨u, fs, ?_, hfs, hk⟩
    rw [at?_cons hv, hx]
    exact hu

theorem Missing.exists_mapping (h : Missing way k v) : ∃ es, v.mapping? = some es := by
  obtain ⟨u, fs, hu, hfs, -⟩ := h
  cases way with
  | nil =>
    cases hu
    exact ⟨fs, hfs⟩
  | cons i way =>
    cases hv : v.mapping? with
    | none =>
      rw [at?_cons_of_bare hv] at hu
      cases hu
    | some es => exact ⟨es, rfl⟩

theorem Missing.of_mapping? (h : Missing way k v) (hvw : v.mapping? = w.mapping?) :
    Missing way k w := by
  obtain ⟨es, hes⟩ := h.exists_mapping
  have hes' := hvw ▸ hes
  cases way with
  | nil => exact (missing_nil hes').2 ((missing_nil hes).1 h)
  | cons i way => exact (missing_cons hes').2 ((missing_cons hes).1 h)

theorem Missing.found_eq (h : Missing way k v) (rest : List String) :
    found (way ++ k :: rest) v = .missing := by
  obtain ⟨u, es, hu, hes, hk⟩ := h
  rw [found_append hu, found_cons hes, hk]

theorem Missing.lead_eq_none {cells : List Value} {n : Nat} (h : Missing way k (whole cells n)) :
    lead cells (way ++ [k]) n = none := by
  cases hlead : lead cells (way ++ [k]) n with
  | none => rfl
  | some t =>
    have hfound := h.found_eq []
    rw [← List.append_nil (way ++ [k]), found_lead hlead] at hfound
    exact absurd hfound (found_nil_ne_missing _)

end Missing

section Made

variable {cells cells' : List Value} {n m i : Nat} {es fs : Entries} {j k : String}
  {way path : List String} {new : Value}

theorem Stored.cell_stays (h : Stored cells n path new cells') (hnone : lead cells path n = none)
    (hm : cells.getD m null = map fs) (hj : fs.field? j = some (cell i)) :
    ∃ fs', cells'.getD m null = map fs' ∧ Entries.field? fs' j = some (cell i) := by
  obtain ⟨hpath, hlead, ht, hk, rfl, -, -⟩ := h
  next front ks k t es y extra =>
    have hk' : ∀ m, Entries.field? es k ≠ some (cell m) := by
      intro m hm
      by_cases hks : ks = []
      · subst hks
        have hon : lead cells (front ++ [k]) n = some m := by
          rw [lead_append hlead, lead_cons ht hm, lead]
        rw [← hpath, hnone] at hon
        cases hon
      · exact hk hks m hm
    rw [getD_set_append extra (lt_length_of_getD_map hm)]
    by_cases hmt : m = t
    · rw [hmt, ht] at hm
      cases hm
      rw [if_pos hmt]
      refine ⟨_, rfl, ?_⟩
      rw [Entries.field?_setField_of_ne, hj]
      rintro rfl
      exact hk' i hj
    · rw [if_neg hmt]
      exact ⟨fs, hm, hj⟩

theorem whole_of_tree {x : Value} (hx : x.IsTree) (hn : cells.getD n null = x)
    (hlt : n < cells.length) : whole cells n = x := by
  have hending : n ∈ endingCells cells := by
    refine mem_endingCells.2 ⟨hlt, fun i hi => ?_⟩
    rw [hn, hx.1] at hi
    cases hi
  rw [whole_of_mem hending, hn, fillCells_of_closed hx.1]

theorem Missing.exists_entries (hc : AreContents cells) (h : Missing way k (whole cells n)) :
    ∃ es, cells.getD n null = map es := by
  by_contra hbare
  obtain ⟨fs, hfs⟩ := h.exists_mapping
  rw [mapping?_whole_of_bare hc fun es hes => hbare ⟨es, hes⟩] at hfs
  cases hfs

theorem cell_stays_of_missing (hc : AreContents cells) (hmiss : Missing way k (whole cells n))
    (hset : setInCell cells n (way ++ [k]) (map []) = .ok cells')
    (hm : cells.getD m null = map fs) (hj : fs.field? j = some (cell i)) :
    ∃ fs', cells'.getD m null = map fs' ∧ Entries.field? fs' j = some (cell i) := by
  have hpath : way ++ [k] ≠ [] := List.append_ne_nil_of_right_ne_nil way (List.cons_ne_nil k [])
  have hcases := setInCell_cases (n := n) hc (map []) hpath
  rw [hset] at hcases
  exact hcases.2.cell_stays hmiss.lead_eq_none hm hj

theorem isTree_nothing : (map []).IsTree := ⟨rfl, rfl⟩

theorem exists_step {y : Value} (hc : AreContents cells) (hn : cells.getD n null = map es)
    (hy : es.field? j = some y) : ∃ grown m fs, AreContents grown ∧ grown.getD n null = map fs ∧
      Entries.field? fs j = some (cell m) ∧ whole grown m = fillCells (whole cells) y ∧
      ∀ rest ≠ [], ∀ new, setInCell cells n (j :: rest) new = setInCell grown m rest new := by
  rcases hc.isPart_field? hn hy with ⟨m, -, rfl⟩ | htree
  · exact ⟨cells, m, es, hc, hn, hy, rfl, fun rest hrest new => setInCell_cell hn hy hrest new⟩
  · have hfield : (es.field? j).getD (map []) = y := by rw [hy, Option.getD_some]
    have hlast := getD_length_append
      (cells.set n (map (Entries.setField j (cell cells.length) es))) y []
    have hfirst := getD_set_append (t := n)
      (c := map (Entries.setField j (cell cells.length) es)) [y] (lt_length_of_getD_map hn)
    have hlt : cells.length <
        (cells.set n (map (Entries.setField j (cell cells.length) es)) ++ [y]).length := by simp
    rw [List.length_set] at hlast
    rw [if_pos rfl] at hfirst
    refine ⟨_, cells.length, _, ?_, hfirst, Entries.field?_setField_self j _ es, ?_,
      fun rest hrest new => ?_⟩
    · exact hfield ▸ hc.grow hn (hfield.symm ▸ htree)
    · rw [whole_of_tree htree hlast hlt, fillCells_of_closed htree.1]
    · rw [setInCell_inner hn (hfield.symm ▸ ne_cell_of_closed htree.1) hrest, hfield]

theorem setInCell_missing (hc : AreContents cells) (hmiss : Missing way k (whole cells n)) :
    ∃ cells', setInCell cells n (way ++ [k]) (map []) = .ok cells' ∧
      (whole cells' n).at? (way ++ [k]) = some (map []) ∧
      ∀ rest ≠ [], ∀ new,
        setInCell cells' n (way ++ k :: rest) new = setInCell cells n (way ++ k :: rest) new := by
  -- along the way: each step goes on in a cell, which is made if there is none yet
  induction way generalizing cells n with
  | nil =>
    obtain ⟨es, hn⟩ := hmiss.exists_entries hc
    have hk : Entries.field? es k = none := by
      have hk := (missing_nil (mapping?_whole_of_map hn)).1 hmiss
      rwa [field?_fillCellsEach, Option.map_eq_none_iff] at hk
    have hset : (cells.set n (map (Entries.setField k (map []) es))).getD n null =
        map (Entries.setField k (map []) es) := by
      rw [← List.append_nil (cells.set n _), getD_set_append [] (lt_length_of_getD_map hn),
        if_pos rfl]
    have hfield := Entries.field?_setField_self k (map []) es
    refine ⟨_, setInCell_one hn k _, ?_, fun rest hrest new => ?_⟩
    · rw [List.nil_append, at?_whole_cons hset, hfield]
      rfl
    · rw [List.nil_append, setInCell_inner hset (by rw [hfield]; nofun) hrest,
        setInCell_inner hn (by rw [hk]; nofun) hrest, hfield, hk, List.length_set, List.set_set,
        Entries.setField_setField]
      rfl
  | cons i way ih =>
    obtain ⟨es, hn⟩ := hmiss.exists_entries hc
    obtain ⟨x, hx, hmiss⟩ := (missing_cons (mapping?_whole_of_map hn)).1 hmiss
    rw [field?_fillCellsEach] at hx
    obtain ⟨y, hy, rfl⟩ := Option.map_eq_some_iff.1 hx
    obtain ⟨grown, m, fs, hgrown, hfirst, hi, hwhole, hstep⟩ := exists_step hc hn hy
    rw [← hwhole] at hmiss
    obtain ⟨cells', hset, hat, hon⟩ := ih hgrown hmiss
    obtain ⟨fs', hn', hi'⟩ := cell_stays_of_missing hgrown hmiss hset hfirst hi
    refine ⟨cells', ?_, ?_, fun rest hrest new => ?_⟩
    · rw [List.cons_append, hstep _ (by simp), hset]
    · rw [List.cons_append, at?_whole_cons hn', hi']
      exact hat
    · rw [List.cons_append, setInCell_cell hn' hi' (by simp), hstep _ (by simp), hon rest hrest new]

end Made

section Walk

variable {v w u new : Value} {way path : List String} {k : String}

def MadeOnTheWay (way : List String) (k : String) (v : Value) : Prop :=
  ∃ w, v.setAt (way ++ [k]) (map []) = .ok w ∧ w.at? (way ++ [k]) = some (map []) ∧
    ∀ rest ≠ [], ∀ new, w.setAt (way ++ k :: rest) new = v.setAt (way ++ k :: rest) new

theorem knot_made {cells : List Value} {n : Nat} (hc : AreContents cells)
    (hmiss : Missing way k (knot cells n)) : MadeOnTheWay way k (knot cells n) := by
  have hopened (cells : List Value) (hc : AreContents cells) := (hc.getD n).opened_fillCells
  obtain ⟨cells', hset, hat, hon⟩ := setInCell_missing hc
    (hmiss.of_mapping? (mapping?_knot_eq_whole (hopened cells hc)))
  have hc' := areContents_setInCell _ cells n hc (.inr isTree_nothing) hset
  refine ⟨knot cells' n, ?_, ?_, fun rest hrest new => ?_⟩
  · rw [setAt_knot cells n (by simp), hset]
    rfl
  · rw [at?_knot (hopened cells' hc') (by simp), hat]
  · rw [setAt_knot cells' n (by simp), setAt_knot cells n (by simp), hon rest hrest new]

theorem made_of_missing (hv : v.Sound) (hmiss : Missing way k v) : MadeOnTheWay way k v := by
  obtain ⟨es, hes⟩ := hmiss.exists_mapping
  -- in a tree the way is followed by fields; a knot takes the rest of it at once
  induction way generalizing v es with
  | nil =>
    cases v with
    | knot cells n => exact knot_made hv.areContents hmiss
    | map es =>
      have hk := (missing_nil rfl).1 hmiss
      have hfield := Entries.field?_setField_self k (map []) es
      refine ⟨_, rfl, ?_, fun rest _ new => ?_⟩
      · rw [List.nil_append, at?_cons rfl, hfield]
        rfl
      · rw [List.nil_append, setAt_map_cons, setAt_map_cons, hfield, hk]
        simp only [Entries.setField_setField]
        rfl
    | _ => cases hes
  | cons i way ih =>
    cases v with
    | knot cells n => exact knot_made hv.areContents hmiss
    | map es =>
      obtain ⟨x, hx, hmiss⟩ := (missing_cons rfl).1 hmiss
      have hsound := hv.field? i
      rw [hx, Option.getD_some] at hsound
      obtain ⟨fs, hfs⟩ := hmiss.exists_mapping
      obtain ⟨w, hw, hat, hon⟩ := ih hsound hmiss fs hfs
      have hfield := Entries.field?_setField_self i w es
      refine ⟨map (Entries.setField i w es), ?_, ?_, fun rest hrest new => ?_⟩
      · rw [List.cons_append, setAt_map_cons, hx, Option.getD_some, hw]
        rfl
      · rw [List.cons_append, at?_cons rfl, hfield]
        exact hat
      · rw [List.cons_append, setAt_map_cons, setAt_map_cons, hfield, hx, Option.getD_some,
          Option.getD_some, hon rest hrest new]
        simp only [Entries.setField_setField]
    | _ => cases hes

theorem enter_of_bare (hway : v.at? way = some u) (hu : u.mapping? = none) (k : String) :
    v.enter way k = (v, .error .noMembers) := by
  rw [enter, hway, Option.bind_some, hu]

theorem enter_of_held (hway : v.at? (way ++ [k]) = some u) : v.enter way k = (v, .ok ()) := by
  rw [at?_append] at hway
  obtain ⟨x, hx, hk⟩ := Option.bind_eq_some_iff.1 hway
  cases hes : x.mapping? with
  | none =>
    rw [at?_cons_of_bare hes] at hk
    cases hk
  | some es =>
    rw [at?_cons hes] at hk
    obtain ⟨y, hy, -⟩ := Option.bind_eq_some_iff.1 hk
    rw [enter, hx, Option.bind_some, hes]
    simp only [hy, Option.isSome_some, if_true]

theorem enter_of_missing (h : Missing way k v) :
    v.enter way k = v.assigned (way ++ [k]) (map []) := by
  obtain ⟨x, es, hx, hes, hk⟩ := h
  rw [enter, hx, Option.bind_some, hes]
  simp only [hk, Option.isSome_none, Bool.false_eq_true, if_false]

theorem stepwise_cons {rest : List String} (hrest : rest ≠ []) (new : Value) (way : List String)
    (k : String) (v : Value) : stepwise new way (k :: rest) v = match v.enter way k with
      | (w, .ok ()) => stepwise new (way ++ [k]) rest w
      | (w, .error f) => (w, .error f) := by
  obtain ⟨j, js, rfl⟩ := List.exists_cons_of_ne_nil hrest
  rfl

theorem stepwise_from (hv : v.Sound) (new : Value) {rest : List String}
    (hrest : rest ≠ []) (hway : v.at? way = some u) :
    match v.setAt (way ++ rest) new with
    | .ok w => stepwise new way rest v = (w, .ok ())
    | .error _ => ∃ f, stepwise new way rest v = (v, .error f) := by
  induction rest generalizing way v u with
  | nil => exact absurd rfl hrest
  | cons k rest ih =>
    by_cases hlast : rest = []
    · subst hlast
      rw [stepwise, assigned]
      cases v.setAt (way ++ [k]) new with
      | ok w => rfl
      | error f => exact ⟨f, rfl⟩
    have hcases := hv.setAt_cases new (way ++ k :: rest)
    have happend : way ++ k :: rest = (way ++ [k]) ++ rest := by simp
    rw [stepwise_cons hlast]
    cases hu : u.mapping? with
    | none =>
      have hblocked : found (way ++ k :: rest) v = .blocked := by
        rw [found_append hway, found_cons_of_bare hu]
      rw [enter_of_bare hway hu]
      cases hs : v.setAt (way ++ k :: rest) new with
      | ok w =>
        rw [hs] at hcases
        exact absurd hblocked hcases
      | error f => exact ⟨_, rfl⟩
    | some es =>
      cases hk : Entries.field? es k with
      | some x =>
        have hnext : v.at? (way ++ [k]) = some x := by
          rw [at?_append, hway, Option.bind_some, at?_cons hu, hk]
          rfl
        rw [enter_of_held hnext, happend]
        exact ih hv hlast hnext
      | none =>
        have hmiss : Missing way k v := ⟨u, es, hway, hu, hk⟩
        obtain ⟨w, hw, hat, hon⟩ := made_of_missing hv hmiss
        have hwalk := ih (hv.setAt isTree_nothing hw) hlast hat
        rw [← happend, hon rest hlast] at hwalk
        rw [enter_of_missing hmiss, assigned, hw]
        -- nothing is in the way once a mapping has been made
        cases hs : v.setAt (way ++ k :: rest) new with
        | ok x =>
          rw [hs] at hwalk
          exact hwalk
        | error f =>
          rw [hs, hmiss.found_eq] at hcases
          cases hcases

theorem stepwise_eq (hv : v.Sound) (new : Value) (hpath : path ≠ []) :
    match v.setAt path new with
    | .ok w => stepwise new [] path v = (w, .ok ())
    | .error _ => ∃ f, stepwise new [] path v = (v, .error f) := by
  have hhere : v.at? [] = some v := rfl
  exact stepwise_from hv new hpath hhere

end Walk

end NoteDecor.Value
