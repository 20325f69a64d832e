import NoteDecor.Proofs.Value.Looking
import NoteDecor.Proofs.Value.Placing

/-! Contents of the cells of a knot. Every container in a knot is a cell of its own, so that a key
path leads from cell to cell until it leaves the knot for a value that no cell is in. What a cell
shows depends only on the contents of the cells that can be reached from it. -/

namespace NoteDecor.Value
open Settings

def IsTree (v : Value) : Prop := v.mentioned = [] ∧ v.ends = true

/-- A part of a container among so many cells: one of them, or a tree. -/
def IsPart (size : Nat) (v : Value) : Prop := (∃ m < size, v = cell m) ∨ v.IsTree

def IsContent (size : Nat) : Value → Prop
  | list xs | tuple xs => ∀ x ∈ xs, x.IsPart size
  | map es => ∀ e ∈ es, e.2.IsPart size
  | v => v.IsTree

def AreContents (cells : List Value) : Prop := ∀ x ∈ cells, x.IsContent cells.length

/-- The values that are held directly. -/
def parts : Value → List Value
  | list xs | tuple xs => xs
  | map es => es.map Prod.snd
  | _ => []

section Trees

variable {xs : List Value} {es : Entries}

theorem mentionedInAll_eq_nil : mentionedInAll xs = [] ↔ ∀ x ∈ xs, x.mentioned = [] := by
  induction xs with
  | nil => simp [mentionedInAll]
  | cons x xs ih => rw [mentionedInAll, List.append_eq_nil_iff, ih, List.forall_mem_cons]

theorem mentionedInEach_eq_nil : mentionedInEach es = [] ↔ ∀ e ∈ es, e.2.mentioned = [] := by
  induction es with
  | nil => simp [mentionedInEach]
  | cons e r ih => rw [mentionedInEach, List.append_eq_nil_iff, ih, List.forall_mem_cons]

theorem isTree_list : (list xs).IsTree ↔ ∀ x ∈ xs, x.IsTree := by
  simp only [IsTree, mentioned, ends, mentionedInAll_eq_nil, endsAll_iff, ← forall₂_and]

theorem isTree_tuple : (tuple xs).IsTree ↔ ∀ x ∈ xs, x.IsTree := by
  simp only [IsTree, mentioned, ends, mentionedInAll_eq_nil, endsAll_iff, ← forall₂_and]

theorem isTree_map : (map es).IsTree ↔ ∀ e ∈ es, e.2.IsTree := by
  simp only [IsTree, mentioned, ends, mentionedInEach_eq_nil, endsEach_iff, ← forall₂_and]

end Trees

section Parts

variable {size : Nat} {v x : Value} {f g : Nat → Value}

theorem IsContent.isPart (h : x.IsContent size) : ∀ y ∈ x.parts, y.IsPart size := by
  cases x with
  | list xs => exact h
  | tuple xs => exact h
  | map es => exact List.forall_mem_map.2 h
  | _ => exact fun y hy => absurd hy List.not_mem_nil

theorem AreContents.getD {cells : List Value} (h : AreContents cells) (n : Nat) :
    (cells.getD n null).IsContent cells.length := by
  by_cases hn : n < cells.length
  · exact h _ (getD_mem hn)
  · rw [getD_of_length_le (Nat.le_of_not_lt hn)]
    exact ⟨rfl, rfl⟩

theorem AreContents.isPart_field? {cells : List Value} (h : AreContents cells) {n : Nat}
    {es : Entries} (hn : cells.getD n null = map es) {k : String} (hv : es.field? k = some v) :
    v.IsPart cells.length := by
  have hes : (map es).IsContent cells.length := hn ▸ h.getD n
  obtain ⟨e, he, rfl⟩ := Entries.mem_of_field? hv
  exact hes e he

theorem lt_length_of_getD_map {cells : List Value} {n : Nat} {es : Entries}
    (hn : cells.getD n null = map es) : n < cells.length := by
  by_contra hle
  rw [getD_of_length_le (Nat.le_of_not_lt hle)] at hn
  cases hn

theorem fillCellsAll_eq_map (f : Nat → Value) (xs : List Value) :
    fillCellsAll f xs = xs.map (fillCells f) := by
  induction xs with
  | nil => rfl
  | cons x xs ih => rw [fillCellsAll, ih, List.map_cons]

theorem fillCellsEach_eq_map (f : Nat → Value) (es : Entries) :
    fillCellsEach f es = es.map fun e => (e.1, fillCells f e.2) := by
  induction es with
  | nil => rfl
  | cons e r ih => rw [fillCellsEach, ih, List.map_cons]

theorem field?_fillCellsEach (f : Nat → Value) (es : Entries) (k : String) :
    (fillCellsEach f es).field? k = (es.field? k).map (fillCells f) := by
  induction es with
  | nil => rfl
  | cons e r ih =>
    rw [fillCellsEach, Entries.field?_cons, Entries.field?_cons, ih]
    split <;> rfl

theorem IsContent.opened_fillCells (h : x.IsContent size) (f : Nat → Value) :
    (fillCells f x).opened = fillCells f x := by
  cases x with
  | cell n => exact nomatch h.1
  | knot cells n => exact nomatch h.2
  | _ => rfl

theorem IsContent.isTree_fillCells (h : x.IsContent size) (hf : ∀ m, (f m).IsTree) :
    (fillCells f x).IsTree := by
  have hpart (y : Value) (hy : y.IsPart size) : (fillCells f y).IsTree := by
    rcases hy with ⟨m, -, rfl⟩ | htree
    · exact hf m
    · rwa [fillCells_of_closed htree.1]
  cases x with
  | list xs =>
    rw [fillCells, fillCellsAll_eq_map, isTree_list, List.forall_mem_map]
    exact fun y hy => hpart y (h y hy)
  | tuple xs =>
    rw [fillCells, fillCellsAll_eq_map, isTree_tuple, List.forall_mem_map]
    exact fun y hy => hpart y (h y hy)
  | map es =>
    rw [fillCells, fillCellsEach_eq_map, isTree_map, List.forall_mem_map]
    exact fun e he => hpart e.2 (h e he)
  | cell n => exact nomatch h.1
  | _ => exact h

theorem IsContent.look_fillCells (h : x.IsContent size) {d : Nat}
    (hparts : ∀ y ∈ x.parts, look d (fillCells f y) = look d (fillCells g y)) :
    look (d + 1) (fillCells f x) = look (d + 1) (fillCells g x) := by
  rw [look, look, h.opened_fillCells, h.opened_fillCells]
  cases x with
  | list xs =>
    simp only [fillCells, fillCellsAll_eq_map, List.map_map]
    exact congrArg list (List.map_congr_left hparts)
  | tuple xs =>
    simp only [fillCells, fillCellsAll_eq_map, List.map_map]
    exact congrArg tuple (List.map_congr_left hparts)
  | map es =>
    simp only [fillCells, fillCellsEach_eq_map, List.map_map]
    refine congrArg map (List.map_congr_left fun e he => ?_)
    exact congrArg (Prod.mk e.1) (hparts e.2 (List.mem_map_of_mem he))
  | cell n => cases h.1
  | knot cells n => cases h.2
  | _ => rfl

end Parts

section Below

variable {cells : List Value} {n : Nat} {es : Entries} {k : String}

theorem opened_whole {x : Value} (hn : cells.getD n null = x)
    (hx : ∀ f, (fillCells f x).opened = fillCells f x) :
    (whole cells n).opened = fillCells (whole cells) x := by
  by_cases hending : n ∈ endingCells cells
  · rw [whole_of_mem hending, hn, hx]
  · rw [whole_of_not_mem hending, ← hn]
    rfl

theorem look_whole {x : Value} (hn : cells.getD n null = x)
    (hx : ∀ f, (fillCells f x).opened = fillCells f x) (d : Nat) :
    look d (whole cells n) = look d (fillCells (whole cells) x) :=
  looksLike_of_opened ((opened_whole hn hx).trans (hx _).symm) d

theorem mapping?_whole_of_map (hn : cells.getD n null = map es) :
    (whole cells n).mapping? = some (fillCellsEach (whole cells) es) := by
  rw [mapping?, opened_whole hn fun f => rfl]
  rfl

theorem mapping?_whole_of_bare (hc : AreContents cells)
    (hn : ∀ es, cells.getD n null ≠ map es) : (whole cells n).mapping? = none := by
  have hx := hc.getD n
  rw [mapping?, opened_whole rfl hx.opened_fillCells]
  revert hx hn
  cases cells.getD n null with
  | map es => exact fun hn => absurd rfl (hn es)
  | cell m => exact fun _ hx => nomatch hx.1
  | knot cells m => exact fun _ hx => nomatch hx.2
  | _ => exact fun _ _ => rfl

theorem at?_whole_cons (hn : cells.getD n null = map es) (k : String) (ks : List String) :
    (whole cells n).at? (k :: ks) =
      (es.field? k).bind fun x => (fillCells (whole cells) x).at? ks := by
  rw [at?_cons (mapping?_whole_of_map hn), field?_fillCellsEach]
  cases es.field? k <;> rfl

theorem found_whole_cons (hn : cells.getD n null = map es) (k : String) (ks : List String) :
    found (k :: ks) (whole cells n) =
      ((es.field? k).map fun x => found ks (fillCells (whole cells) x)).getD .missing := by
  rw [found_cons (mapping?_whole_of_map hn), field?_fillCellsEach]
  cases es.field? k <;> rfl

theorem mapping?_knot_eq_whole
    (hx : ∀ f, (fillCells f (cells.getD n null)).opened = fillCells f (cells.getD n null)) :
    (knot cells n).mapping? = (whole cells n).mapping? := by
  rw [mapping?, mapping?, opened_whole rfl hx]
  rfl

theorem at?_knot
    (hx : ∀ f, (fillCells f (cells.getD n null)).opened = fillCells f (cells.getD n null))
    {path : List String} (hpath : path ≠ []) :
    (knot cells n).at? path = (whole cells n).at? path := by
  obtain ⟨k, ks, rfl⟩ := List.exists_cons_of_ne_nil hpath
  rw [at?, at?, mapping?_knot_eq_whole hx]

theorem found_knot
    (hx : ∀ f, (fillCells f (cells.getD n null)).opened = fillCells f (cells.getD n null))
    {path : List String} (hpath : path ≠ []) :
    found path (knot cells n) = found path (whole cells n) := by
  obtain ⟨k, ks, rfl⟩ := List.exists_cons_of_ne_nil hpath
  rw [found, found, mapping?_knot_eq_whole hx]

end Below

section Ways

def hop (cells : List Value) (n i : Nat) : Option Nat :=
  match (cells.getD n null).parts[i]? with
  | some (cell m) => some m
  | _ => none

def follow (cells : List Value) : List Nat → Nat → Option Nat
  | [], n => some n
  | i :: is, n => (hop cells n i).bind (follow cells is)

def lead (cells : List Value) : List String → Nat → Option Nat
  | [], n => some n
  | k :: ks, n =>
    match cells.getD n null with
    | map es =>
      match Entries.field? es k with
      | some (cell m) => lead cells ks m
      | _ => none
    | _ => none

def Away (cells : List Value) (n t : Nat) : Prop := ∀ is, follow cells is n ≠ some t

def Sole (cells : List Value) (n t : Nat) : Prop :=
  ∀ is js, follow cells is n = some t → follow cells js n = some t → is = js

variable {cells cells' : List Value} {n m t i j : Nat} {es : Entries} {k : String}
  {ks : List String}

theorem hop_of_part {x : Value} (hx : (cells.getD n null).parts[i]? = some x)
    (hm : x = cell m) : hop cells n i = some m := by
  rw [hop, hx, hm]

theorem follow_hop (h : hop cells n i = some m) (is : List Nat) :
    follow cells (i :: is) n = follow cells is m := by
  rw [follow, h, Option.bind_some]

theorem lead_cons (hn : cells.getD n null = map es) (hk : es.field? k = some (cell m))
    (ks : List String) : lead cells (k :: ks) n = lead cells ks m := by
  rw [lead, hn]
  simp only [hk]

theorem lead_cons_eq_some :
    lead cells (k :: ks) n = some t ↔ ∃ es m, cells.getD n null = map es ∧
      Entries.field? es k = some (cell m) ∧ lead cells ks m = some t := by
  constructor
  · intro h
    unfold lead at h
    split at h
    · next es hes =>
      split at h
      · next m hm => exact ⟨es, m, hes, hm, h⟩
      · cases h
    · cases h
  · rintro ⟨es, m, hes, hm, h⟩
    rwa [lead_cons hes hm]

theorem lead_append (h : lead cells ks n = some t) (rest : List String) :
    lead cells (ks ++ rest) n = lead cells rest t := by
  induction ks generalizing n with
  | nil =>
    cases h
    rfl
  | cons k ks ih =>
    obtain ⟨es, m, hn, hk, h⟩ := lead_cons_eq_some.1 h
    rw [List.cons_append, lead_cons hn hk]
    exact ih h

theorem lt_length_of_lead (h : lead cells ks n = some t) (ht : t < cells.length) :
    n < cells.length := by
  cases ks with
  | nil =>
    cases h
    exact ht
  | cons k ks =>
    obtain ⟨es, m, hn, -, -⟩ := lead_cons_eq_some.1 h
    exact lt_length_of_getD_map hn

theorem exists_hop (hn : cells.getD n null = map es) (hk : es.field? k = some (cell m)) :
    ∃ i, hop cells n i = some m ∧ (es[i]?).any (fun e => e.1.isKey k) = true := by
  obtain ⟨e, he, hm⟩ := Option.map_eq_some_iff.1 hk
  obtain ⟨i, hi⟩ := List.mem_iff_getElem?.1 (List.mem_of_find?_eq_some he)
  refine ⟨i, hop_of_part (x := e.2) ?_ hm, ?_⟩
  · rw [hn, parts, List.getElem?_map, hi]
    rfl
  · rw [hi, Option.any_some]
    exact List.find?_some (p := fun e : Value × Value => e.1.isKey k) he

theorem key_eq_of_position {j k : String} (hj : (es[i]?).any (fun e => e.1.isKey j) = true)
    (hk : (es[i]?).any (fun e => e.1.isKey k) = true) : j = k := by
  cases he : es[i]? with
  | none =>
    rw [he] at hj
    cases hj
  | some e =>
    rw [he, Option.any_some] at hj hk
    exact text.inj ((isKey_eq.1 hj).symm.trans (isKey_eq.1 hk))

theorem exists_follow (h : lead cells ks n = some t) : ∃ is, follow cells is n = some t := by
  induction ks generalizing n with
  | nil => exact ⟨[], h⟩
  | cons k ks ih =>
    obtain ⟨es, m, hn, hk, h⟩ := lead_cons_eq_some.1 h
    obtain ⟨i, hi, -⟩ := exists_hop hn hk
    obtain ⟨is, his⟩ := ih h
    exact ⟨i :: is, (follow_hop hi is).trans his⟩

theorem Away.ne (h : Away cells n t) : n ≠ t := fun hn => h [] (congrArg some hn)

theorem Away.of_hop (h : Away cells n t) (hi : hop cells n i = some m) : Away cells m t :=
  fun is his => h (i :: is) ((follow_hop hi is).trans his)

theorem Sole.of_hop (h : Sole cells n t) (hi : hop cells n i = some m) : Sole cells m t := by
  intro is js his hjs
  have heq := h (i :: is) (i :: js) ((follow_hop hi is).trans his) ((follow_hop hi js).trans hjs)
  exact (List.cons.inj heq).2

theorem Sole.away_self (h : Sole cells t t) (hi : hop cells t i = some m) : Away cells m t :=
  fun is his => nomatch h [] (i :: is) rfl ((follow_hop hi is).trans his)

theorem Sole.of_lead (h : Sole cells n t) (hlead : lead cells ks n = some m) : Sole cells m t := by
  induction ks generalizing n with
  | nil =>
    cases hlead
    exact h
  | cons k ks ih =>
    obtain ⟨es, m', hn, hk, hlead⟩ := lead_cons_eq_some.1 hlead
    obtain ⟨i, hi, -⟩ := exists_hop hn hk
    exact ih (h.of_hop hi) hlead

theorem Sole.away (h : Sole cells n t) (hi : hop cells n i = some m) {is : List Nat}
    (his : follow cells is m = some t) {m' : Nat} (hj : hop cells n j = some m') (hij : j ≠ i) :
    Away cells m' t := by
  intro js hjs
  have heq := h (j :: js) (i :: is) ((follow_hop hj js).trans hjs) ((follow_hop hi is).trans his)
  exact hij (List.cons.inj heq).1

theorem Sole.ne_of_hop (h : Sole cells n t) (hi : hop cells n i = some m) {is : List Nat}
    (his : follow cells is m = some t) : n ≠ t := by
  rintro rfl
  exact h.away_self hi is his

theorem looksLike_of_away (hc : AreContents cells)
    (hsame : ∀ m < cells.length, m ≠ t → cells'.getD m null = cells.getD m null)
    (hn : n < cells.length) (haway : Away cells n t) :
    (whole cells n).LooksLike (whole cells' n) := by
  intro d
  induction d generalizing n with
  | zero => rfl
  | succ d ih =>
    have hx := hc.getD n
    have heq := hsame n hn haway.ne
    have hparts : ∀ y ∈ (cells.getD n null).parts,
        look d (fillCells (whole cells) y) = look d (fillCells (whole cells') y) := by
      intro y hy
      rcases hx.isPart y hy with ⟨m, hm, rfl⟩ | ⟨hclosed, -⟩
      · obtain ⟨i, hi⟩ := List.mem_iff_getElem?.1 hy
        exact ih hm (haway.of_hop (hop_of_part hi rfl))
      · rw [fillCells_of_closed hclosed, fillCells_of_closed hclosed]
    calc look (d + 1) (whole cells n)
        = look (d + 1) (fillCells (whole cells) (cells.getD n null)) :=
          look_whole rfl hx.opened_fillCells _
      _ = look (d + 1) (fillCells (whole cells') (cells.getD n null)) := hx.look_fillCells hparts
      _ = look (d + 1) (whole cells' n) := (look_whole heq hx.opened_fillCells _).symm

end Ways

end NoteDecor.Value
