import NoteDecor.Proofs.Value.Sharing

/-! Values as the program makes them: trees of mappings that may end in knots. Storing a tree in one
keeps it so, and is lawful where no mapping on the way is held in another place as well. -/

namespace NoteDecor.Value
open Settings

/-- A tree of mappings in which every knot has its containers in cells of their own. -/
inductive Sound : Value → Prop
  | knot {cells : List Value} {n : Nat} (h : AreContents cells) : Sound (knot cells n)
  | map {es : Entries} (h : ∀ e ∈ es, Sound e.2) : Sound (map es)
  | other {v : Value} (hmap : ∀ es, v ≠ Value.map es) (hknot : ∀ cells n, v ≠ Value.knot cells n) :
      Sound v

/-- Each mapping that a path leads through is held in no other place. In a tree this is so anyway;
in a knot one route alone leads to its cell. -/
def Owned : List String → Value → Prop
  | k :: ks, map es => ∀ v, Entries.field? es k = some v → Owned ks v
  | k :: ks, knot cells n => ∀ front t, front <+: k :: ks → front ≠ k :: ks →
      lead cells front n = some t → Sole cells n t
  | _, _ => True

section Sound

variable {v w new : Value} {es : Entries} {path : List String}

theorem Sound.each (h : (Value.map es).Sound) : ∀ e ∈ es, e.2.Sound := by
  cases h with
  | map h => exact h
  | other hmap => exact absurd rfl (hmap es)

theorem Sound.field? (h : (Value.map es).Sound) (k : String) :
    ((es.field? k).getD (Value.map [])).Sound := by
  cases hf : es.field? k with
  | none => exact .map fun e he => nomatch he
  | some u =>
    obtain ⟨e, he, rfl⟩ := Entries.mem_of_field? hf
    exact h.each e he

theorem Sound.areContents {cells : List Value} {n : Nat} (h : (Value.knot cells n).Sound) :
    AreContents cells := by
  cases h with
  | knot h => exact h
  | other _ hknot => exact absurd rfl (hknot cells n)

theorem owned_nothing (path : List String) : (map []).Owned path := by
  cases path with
  | nil => exact trivial
  | cons k ks => exact fun v hv => nomatch hv

theorem Sound.setAt_cases (h : v.Sound) (new : Value) (path : List String) :
    match v.setAt path new with
    | .error _ => found path v = .blocked
    | .ok _ => found path v ≠ .blocked := by
  induction path generalizing v with
  | nil =>
    rw [setAt_nil]
    exact found_nil_ne_blocked v
  | cons k ks ih =>
    cases v with
    | map es =>
      have hbelow := ih (h.field? k)
      rw [setAt_map_cons]
      cases hs : ((Entries.field? es k).getD (Value.map [])).setAt ks new with
      | error f =>
        rw [hs] at hbelow
        exact (found_made_eq_blocked_iff es k ks).1 hbelow
      | ok w =>
        rw [hs] at hbelow
        exact fun hb => hbelow ((found_made_eq_blocked_iff es k ks).2 hb)
    | knot cells n =>
      have hc := h.areContents
      have hcases := setInCell_cases (n := n) hc new (List.cons_ne_nil k ks)
      rw [setAt_knot cells n (List.cons_ne_nil k ks),
        found_knot (hc.getD n).opened_fillCells (List.cons_ne_nil k ks)]
      cases hs : setInCell cells n (k :: ks) new with
      | error f =>
        rw [hs] at hcases
        exact hcases
      | ok cells' =>
        rw [hs] at hcases
        exact hcases.1
    | _ => cases ks <;> exact found_cons_of_bare rfl

theorem Sound.lawful (h : v.Sound) (howned : v.Owned path) (hnew : new.mentioned = []) :
    Lawful LooksLike path new v := by
  induction path generalizing v with
  | nil => exact lawful_nil v new
  | cons k ks ih =>
    cases v with
    | map es =>
      refine (ih (h.field? k) ?_).cons LooksLike.refl
      cases hf : Entries.field? es k with
      | none => exact owned_nothing ks
      | some u => exact howned u hf
    | knot cells n => exact lawful_knot h.areContents hnew howned
    | _ => exact lawful_of_bare rfl (by nofun) _ _

end Sound

mutual

theorem sound_of_ends : ∀ {v : Value}, v.ends = true → v.Sound
  | map es, h => .map (soundEach_of_ends h)
  | knot .., h => by cases h
  | cell _, _ | null, _ | bool _, _ | int _, _ | float _, _ | text _, _ | bytes _, _ | date _, _
  | moment _, _ | list _, _ | tuple _, _ | set _, _ | sealed _, _ | badge .., _
  | outcome .., _ => .other (by nofun) (by nofun)

theorem soundEach_of_ends : ∀ {es : Entries}, endsEach es = true → ∀ e ∈ es, e.2.Sound
  | (_, v) :: r, h, e, he => by
    obtain ⟨hv, hr⟩ := Bool.and_eq_true_iff.1 h
    rcases List.mem_cons.1 he with rfl | he
    · exact sound_of_ends hv
    · exact soundEach_of_ends hr e he

end

section Storing

variable {size size' : Nat} {v w new : Value} {es : Entries} {cells cells' : List Value}
  {k : String}

theorem IsPart.mono (hle : size ≤ size') (h : v.IsPart size) : v.IsPart size' :=
  h.imp_left fun ⟨m, hm, hv⟩ => ⟨m, Nat.lt_of_lt_of_le hm hle, hv⟩

theorem IsContent.mono (hle : size ≤ size') (h : v.IsContent size) : v.IsContent size' := by
  cases v with
  | list xs => exact fun x hx => (h x hx).mono hle
  | tuple xs => exact fun x hx => (h x hx).mono hle
  | map es => exact fun e he => (h e he).mono hle
  | _ => exact h

theorem IsTree.isContent (h : v.IsTree) (size : Nat) : v.IsContent size := by
  cases v with
  | list xs => exact fun x hx => .inr (isTree_list.1 h x hx)
  | tuple xs => exact fun x hx => .inr (isTree_tuple.1 h x hx)
  | map es => exact fun e he => .inr (isTree_map.1 h e he)
  | _ => exact h

theorem IsContent.setField (h : (map es).IsContent size) (hv : v.IsPart size) (k : String) :
    (map (Entries.setField k v es)).IsContent size := by
  intro e he
  rcases Entries.mem_setField he with hev | he
  · exact hev ▸ hv
  · exact h e he

theorem AreContents.set (h : AreContents cells) (hv : v.IsContent cells.length) (n : Nat) :
    AreContents (cells.set n v) := by
  intro x hx
  rw [List.length_set]
  rcases List.mem_or_eq_of_mem_set hx with hx | rfl
  · exact h x hx
  · exact hv

theorem AreContents.append (h : ∀ x ∈ cells, x.IsContent (cells.length + 1))
    (hv : v.IsContent (cells.length + 1)) : AreContents (cells ++ [v]) := by
  intro x hx
  rw [List.length_append, List.length_singleton]
  rcases List.mem_append.1 hx with hx | hx
  · exact h x hx
  · rw [List.mem_singleton.1 hx]
    exact hv

theorem AreContents.grow {n : Nat} (h : AreContents cells) (hn : cells.getD n null = map es)
    (hinner : ((es.field? k).getD (map [])).IsTree) :
    AreContents (cells.set n (map (Entries.setField k (cell cells.length) es)) ++
      [(es.field? k).getD (map [])]) := by
  have hes : (map es).IsContent cells.length := hn ▸ h.getD n
  refine AreContents.append (fun x hx => ?_) (hinner.isContent _)
  rw [List.length_set]
  rcases List.mem_or_eq_of_mem_set hx with hx | rfl
  · exact (h x hx).mono (Nat.le_succ _)
  · exact (hes.mono (Nat.le_succ _)).setField (.inl ⟨_, Nat.lt_succ_self _, rfl⟩) k

theorem areContents_setInCell (path : List String) (cells : List Value) (n : Nat)
    {cells' : List Value} (h : AreContents cells) (hnew : new.IsPart cells.length)
    (hs : setInCell cells n path new = .ok cells') : AreContents cells' := by
  fun_induction setInCell cells n path new with
  | case1 cells n =>
    cases hs
    exact h
  | case2 cells n k es hc =>
    cases hs
    have hes : (map es).IsContent cells.length := hc ▸ h.getD n
    exact h.set (hes.setField hnew k) n
  | case3 cells n k ks es hks hc m hm ih => exact ih h hnew hs
  | case4 cells n k ks es hks hc m hm ih =>
    have htree := tree_field? h hc fun j hj => hm j (by rw [hj, Option.getD_some])
    exact ih (h.grow hc htree) (hnew.mono (by simp)) hs
  | case5 cells n k hc => cases hs
  | case6 cells n k k' ks hc => cases hs

theorem Sound.setAt (hv : v.Sound) (hnew : new.IsTree) {path : List String}
    (hs : v.setAt path new = .ok w) : w.Sound := by
  induction path generalizing v w with
  | nil =>
    rw [setAt_nil] at hs
    cases hs
    exact sound_of_ends hnew.2
  | cons k ks ih =>
    cases v with
    | map es =>
      rw [setAt_map_cons] at hs
      obtain ⟨inner, hinner, rfl⟩ := map_eq_ok.1 hs
      refine .map fun e he => ?_
      rcases Entries.mem_setField he with hei | he
      · exact hei ▸ ih (hv.field? k) hinner
      · exact hv.each e he
    | knot cells n =>
      rw [setAt_knot cells n (List.cons_ne_nil k ks)] at hs
      obtain ⟨cells', hcells, rfl⟩ := map_eq_ok.1 hs
      exact .knot (areContents_setInCell _ cells n hv.areContents (.inr hnew) hcells)
    | _ => cases ks <;> cases hs

end Storing

end NoteDecor.Value
