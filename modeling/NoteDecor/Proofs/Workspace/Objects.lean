import NoteDecor.Proofs.Workspace.Storing
import NoteDecor.Settings.Objects

/-! Storing among objects that several places may hold. One mapping changes; everything from which no
route leads to it shows the same as before, in whatever layer it is. So a key is stored under as if
each layer had its values to itself wherever the mappings on its way are held nowhere else. -/

namespace NoteDecor

namespace Value

section Routes

variable {cells cells' : List Value} {n m t i : Nat} {size : Nat}

theorem hop_lt (h : (cells.getD n null).IsContent size) (hi : hop cells n i = some m) :
    m < size := by
  unfold hop at hi
  split at hi
  · next k hk =>
    cases hi
    rcases h.isPart _ (List.mem_of_getElem? hk) with ⟨m, hm, heq⟩ | htree
    · cases heq
      exact hm
    · cases htree.1
  · cases hi

theorem follow_lt (h : ∀ m < size, (cells.getD m null).IsContent size) (hn : n < size)
    {is : List Nat} (ht : follow cells is n = some t) : t < size := by
  induction is generalizing n with
  | nil =>
    cases ht
    exact hn
  | cons i is ih =>
    obtain ⟨m, hm, ht⟩ := Option.bind_eq_some_iff.1 ht
    exact ih (hop_lt (h n hn) hm) ht

theorem away_of_le (h : ∀ m < size, (cells.getD m null).IsContent size) (hn : n < size)
    (ht : size ≤ t) : Away cells n t :=
  fun _ his => absurd (follow_lt h hn his) (Nat.not_lt_of_le ht)

end Routes

section Shown

variable {cells : List Value} {n : Nat} {v w p x : Value}

theorem LooksLike.isNull_opened (h : v.LooksLike w) : v.opened.isNull = w.opened.isNull := by
  have hlook (u : Value) : (look 1 u).isNull = u.opened.isNull := by
    unfold look
    cases u.opened <;> rfl
  rw [← hlook, ← hlook, h 1]

theorem rel_trans {x y z : Option Value} (h : Option.Rel LooksLike x y)
    (h' : Option.Rel LooksLike y z) : Option.Rel LooksLike x z := by
  cases h with
  | none => exact h'
  | some hxy =>
    cases h' with
    | some hyz => exact .some (hxy.trans hyz)

theorem isNull_fillCells {size : Nat} (h : x.IsContent size) (f : Nat → Value) :
    (fillCells f x).isNull = x.isNull := by
  cases x with
  | cell n => cases h.1
  | _ => rfl

theorem isNull_whole (hc : AreContents cells) (hn : n < cells.length) :
    (whole cells n).isNull = (cells.getD n null).isNull := by
  by_cases hending : n ∈ endingCells cells
  · rw [whole_of_mem hending]
    exact isNull_fillCells (hc.getD n) _
  · rw [whole_of_not_mem hending]
    cases hx : cells.getD n null with
    | null =>
      refine absurd (mem_endingCells.2 ⟨hn, fun m hm => ?_⟩) hending
      rw [hx] at hm
      cases hm
    | _ => rfl

theorem isNull_opened_part (hc : AreContents cells) (hp : p.IsPart cells.length) :
    (fillCells (whole cells) p).opened.isNull = (fillCells (whole cells) p).isNull := by
  rcases hp with ⟨m, hm, rfl⟩ | ⟨hclosed, hends⟩
  · rw [fillCells, opened_whole rfl (hc.getD m).opened_fillCells, isNull_whole hc hm]
    exact isNull_fillCells (hc.getD m) _
  · rw [fillCells_of_closed hclosed]
    cases p with
    | knot cells n => cases hends
    | _ => rfl

theorem IsTree.at? (h : v.IsTree) {path : List String} (hx : v.at? path = some x) : x.IsTree := by
  induction path generalizing v with
  | nil =>
    cases hx
    exact h
  | cons k ks ih =>
    cases v with
    | map es =>
      rw [at?_cons rfl] at hx
      obtain ⟨y, hy, hx⟩ := Option.bind_eq_some_iff.1 hx
      obtain ⟨e, he, rfl⟩ := Entries.mem_of_field? hy
      exact ih (isTree_map.1 h e he) hx
    | knot cells n => cases h.2
    | _ => cases hx

theorem exists_part (hc : AreContents cells) (hp : p.IsPart cells.length) {path : List String}
    (hx : (fillCells (whole cells) p).at? path = some x) :
    ∃ q, q.IsPart cells.length ∧ x = fillCells (whole cells) q := by
  induction path generalizing p with
  | nil =>
    cases hx
    exact ⟨p, hp, rfl⟩
  | cons k ks ih =>
    rcases hp with ⟨n, hn, rfl⟩ | htree
    · by_cases hmap : ∃ es, cells.getD n null = map es
      · obtain ⟨es, hes⟩ := hmap
        rw [fillCells, at?_whole_cons hes] at hx
        obtain ⟨y, hy, hx⟩ := Option.bind_eq_some_iff.1 hx
        exact ih (hc.isPart_field? hes hy) hx
      · rw [fillCells, at?_cons_of_bare (mapping?_whole_of_bare hc fun es h => hmap ⟨es, h⟩)] at hx
        cases hx
    · rw [fillCells_of_closed htree.1] at hx
      have hleaf := htree.at? hx
      exact ⟨x, .inr hleaf, (fillCells_of_closed hleaf.1).symm⟩

end Shown

end Value

namespace Settings
open Value

theorem Layers.findSome?_held?_rel {l l' : Layers} {path : List String} {ss : List Source}
    (h : ∀ t ∈ ss, Option.Rel LooksLike (l.held? t path) (l'.held? t path)) :
    Option.Rel LooksLike (ss.findSome? fun t => l.held? t path)
      (ss.findSome? fun t => l'.held? t path) := by
  induction ss with
  | nil => exact .none
  | cons t ss ih =>
    obtain ⟨ht, hss⟩ := List.forall_mem_cons.1 h
    rw [List.findSome?_cons, List.findSome?_cons]
    generalize l.held? t path = x, l'.held? t path = y at ht
    cases ht with
    | none => exact ih hss
    | some hxy => exact .some hxy

namespace Objects

variable {o o' : Objects} {s t : Source} {path : List String} {key : String} {new v : Value}

/-- Every container is a cell with only its parts in it, and every layer begins at a cell. -/
structure Sound (o : Objects) : Prop where
  contents : AreContents o.cells
  held : ∀ s n, o.roots s = some n → n < o.cells.length

/-- The mappings that lie on the way of a path in a layer are held in no other place, neither there
nor in another layer. -/
def Alone (o : Objects) (s : Source) (path : List String) : Prop :=
  ∀ n, o.roots s = some n → ∀ front t, front <+: path → front ≠ path →
    lead o.cells front n = some t →
    Sole o.cells n t ∧ ∀ s' ≠ s, ∀ n', o.roots s' = some n' → Away o.cells n' t

/-- Objects after a value was stored under a key path of one layer. -/
structure Updated (o o' : Objects) (s : Source) (path : List String) (new : Value) : Prop where
  holds : (o'.layers s).bind (at? path) = some (o'.shown new)
  others : ∀ t ≠ s, Option.Rel LooksLike (o.layers t) (o'.layers t)
  beside : ∀ other, Beside other path →
    Option.Rel LooksLike ((o.layers s).bind (at? other)) ((o'.layers s).bind (at? other))

theorem layers_of_root {n : Nat} (h : o.roots s = some n) : o.layers s = some (knot o.cells n) := by
  rw [layers, h, Option.map_some]

theorem content_of_root {n : Nat} (h : o.roots s = some n) :
    o.layers.content s = knot o.cells n := by
  rw [Layers.content, layers_of_root h, Option.getD_some]

section WithLayer

theorem withLayer_of_root {n : Nat} (h : o.roots s = some n) : o.withLayer s = o := by
  unfold withLayer
  rw [h]

theorem withLayer_of_none (h : o.roots s = none) : o.withLayer s =
    ⟨o.cells ++ [.map []], fun t => if t = s then some o.cells.length else o.roots t⟩ := by
  unfold withLayer
  rw [h]

theorem roots_withLayer_self (o : Objects) (s : Source) :
    (o.withLayer s).roots s = some (o.root s) := by
  cases h : o.roots s with
  | some n => rw [withLayer_of_root h, root, h, Option.getD_some]
  | none =>
    rw [withLayer_of_none h, root, h, Option.getD_none]
    exact if_pos rfl

theorem roots_withLayer_of_ne (o : Objects) (ht : t ≠ s) :
    (o.withLayer s).roots t = o.roots t := by
  cases h : o.roots s with
  | some n => rw [withLayer_of_root h]
  | none =>
    rw [withLayer_of_none h]
    exact if_neg ht

theorem exists_cells_withLayer (o : Objects) (s : Source) :
    ∃ extra, (o.withLayer s).cells = o.cells ++ extra := by
  cases h : o.roots s with
  | some n => exact ⟨[], by rw [withLayer_of_root h, List.append_nil]⟩
  | none => exact ⟨_, by rw [withLayer_of_none h]⟩

theorem getD_withLayer {m : Nat} (hm : m < o.cells.length) :
    (o.withLayer s).cells.getD m .null = o.cells.getD m .null := by
  obtain ⟨extra, hextra⟩ := exists_cells_withLayer o s
  rw [hextra, List.getD_eq_getElem?_getD, List.getElem?_append_left hm,
    List.getD_eq_getElem?_getD]

theorem Sound.withLayer (h : o.Sound) (s : Source) : (o.withLayer s).Sound := by
  cases hs : o.roots s with
  | some n => exact (withLayer_of_root hs).symm ▸ h
  | none =>
    rw [withLayer_of_none hs]
    refine ⟨.append (fun x hx => (h.contents x hx).mono (Nat.le_succ _)) nofun, fun t n ht => ?_⟩
    rw [List.length_append, List.length_singleton]
    dsimp only at ht
    split at ht
    · cases ht
      exact Nat.lt_succ_self _
    · exact Nat.lt_succ_of_lt (h.held t n ht)

theorem isContent_getD (h : o.Sound) (s : Source) {m : Nat} (hm : m < o.cells.length) :
    ((o.withLayer s).cells.getD m .null).IsContent o.cells.length :=
  (getD_withLayer hm).symm ▸ h.contents.getD m

theorem Alone.withLayer (ho : o.Sound) (h : o.Alone s path) : (o.withLayer s).Alone s path := by
  cases hs : o.roots s with
  | some n => exact (withLayer_of_root hs).symm ▸ h
  | none =>
    have haway {n : Nat} (hn : n < o.cells.length) :
        Away (o.withLayer s).cells n o.cells.length :=
      away_of_le (fun m hm => isContent_getD ho s hm) hn (Nat.le_refl _)
    have hfirst : (o.withLayer s).cells.getD o.cells.length .null = .map [] := by
      rw [withLayer_of_none hs]
      exact getD_length_append o.cells _ []
    have hroot : o.root s = o.cells.length := by rw [root, hs, Option.getD_none]
    intro n hn front t _ _ hlead
    rw [roots_withLayer_self, hroot] at hn
    cases hn
    have ht : t = o.cells.length := by
      cases front with
      | nil => exact (Option.some.inj hlead).symm
      | cons k ks =>
        obtain ⟨es, m, hes, hm, -⟩ := lead_cons_eq_some.1 hlead
        rw [hfirst] at hes
        cases hes
        cases hm
    subst ht
    refine ⟨fun is js his hjs => ?_, fun s' hs' n' hn' => ?_⟩
    · have hnil {is : List Nat}
          (h : follow (o.withLayer s).cells is o.cells.length = some o.cells.length) : is = [] := by
        cases is with
        | nil => rfl
        | cons i is =>
          obtain ⟨m, hm, -⟩ := Option.bind_eq_some_iff.1 h
          rw [hop, hfirst] at hm
          cases hm
      rw [hnil his, hnil hjs]
    · rw [roots_withLayer_of_ne o hs'] at hn'
      exact haway (ho.held s' n' hn')

theorem looksLike_knot {cells : List Value} (h : AreContents cells) (n : Nat) :
    (knot cells n).LooksLike (whole cells n) :=
  looksLike_of_opened (opened_whole rfl (h.getD n).opened_fillCells).symm

theorem layer_looksLike (ho : o.Sound) (ho' : o'.Sound) {c : Nat}
    (hsame : ∀ m < o.cells.length, m ≠ c → o'.cells.getD m .null = o.cells.getD m .null)
    (hroot : o'.roots t = o.roots t) (haway : ∀ n, o.roots t = some n → Away o.cells n c) :
    Option.Rel LooksLike (o.layers t) (o'.layers t) := by
  unfold layers
  rw [hroot]
  cases ht : o.roots t with
  | none => exact .none
  | some n =>
    have hlike := looksLike_of_away ho.contents hsame (ho.held t n ht) (haway n ht)
    exact .some (((looksLike_knot ho.contents n).trans hlike).trans
      (looksLike_knot ho'.contents n).symm)

theorem layer_withLayer (ho : o.Sound) (ht : t ≠ s) :
    Option.Rel LooksLike (o.layers t) ((o.withLayer s).layers t) :=
  layer_looksLike ho (ho.withLayer s) (fun _ hm _ => getD_withLayer hm) (roots_withLayer_of_ne o ht)
    fun n hn => away_of_le (fun m _ => ho.contents.getD m) (ho.held t n hn) (Nat.le_refl _)

theorem at?_withLayer (ho : o.Sound) (hpath : path ≠ []) :
    ((o.withLayer s).layers s).bind (at? path) = (o.layers s).bind (at? path) := by
  cases hs : o.roots s with
  | some n => rw [withLayer_of_root hs]
  | none =>
    obtain ⟨k, ks, rfl⟩ := List.exists_cons_of_ne_nil hpath
    have hc := (ho.withLayer s).contents
    rw [layers_of_root (roots_withLayer_self o s), layers, hs, Option.bind_some,
      at?_knot (hc.getD _).opened_fillCells hpath]
    rw [withLayer_of_none hs, root, hs, Option.getD_none,
      at?_whole_cons (getD_length_append o.cells (.map []) [])]
    rfl

theorem exists_root_of_blocked (h : o.layers.Blocked s path) (hpath : path ≠ []) :
    ∃ n, o.roots s = some n := by
  refine Option.ne_none_iff_exists'.1 fun hs => ?_
  obtain ⟨k, ks, rfl⟩ := List.exists_cons_of_ne_nil hpath
  rw [Layers.blocked_iff, Layers.content, layers, hs, found_cons rfl] at h
  cases h

theorem blocked_withLayer (ho : o.Sound) (hpath : path ≠ []) :
    found path (whole (o.withLayer s).cells (o.root s)) = .blocked ↔
      o.layers.Blocked s path := by
  have hc := (ho.withLayer s).contents
  rw [Layers.blocked_iff, ← found_knot (hc.getD _).opened_fillCells hpath]
  cases hs : o.roots s with
  | some n => rw [withLayer_of_root hs, root, hs, Option.getD_some, content_of_root hs]
  | none =>
    obtain ⟨k, ks, rfl⟩ := List.exists_cons_of_ne_nil hpath
    rw [found_knot (hc.getD _).opened_fillCells hpath, withLayer_of_none hs, root, hs,
      Option.getD_none, found_whole_cons (getD_length_append o.cells (.map []) []), Layers.content,
      layers, hs, found_cons rfl]
    rfl

end WithLayer

section Storing

theorem put_eq_ok (h : o.put key new s = .ok o') :
    setInCell (o.withLayer s).cells (o.root s) (keyPath key) new = .ok o'.cells ∧
      o'.roots = (o.withLayer s).roots := by
  obtain ⟨cells, hcells, h⟩ := bind_eq_ok.1 h
  cases h
  exact ⟨hcells, rfl⟩

theorem put_error_cells {f : PathFault} (h : o.put key new s = .error f) :
    setInCell (o.withLayer s).cells (o.root s) (keyPath key) new = .error f := by
  rcases bind_eq_error.1 h with hf | ⟨cells, -, hf⟩
  · exact hf
  · cases hf

theorem put_error (ho : o.Sound) {f : PathFault} (h : o.put key new s = .error f) :
    o.layers.Blocked s (keyPath key) := by
  have hcases := setInCell_cases (n := o.root s) (ho.withLayer s).contents new (keyPath_ne_nil key)
  rw [put_error_cells h] at hcases
  exact (blocked_withLayer ho (keyPath_ne_nil key)).1 hcases

theorem put_stored (ho : o.Sound) (h : o.put key new s = .ok o') :
    ¬ o.layers.Blocked s (keyPath key) ∧
      Stored (o.withLayer s).cells (o.root s) (keyPath key) new o'.cells := by
  have hcases := setInCell_cases (n := o.root s) (ho.withLayer s).contents new (keyPath_ne_nil key)
  rw [(put_eq_ok h).1] at hcases
  exact ⟨fun hb => hcases.1 ((blocked_withLayer ho (keyPath_ne_nil key)).2 hb), hcases.2⟩

theorem Sound.put (ho : o.Sound) (hnew : new.IsPart o.cells.length)
    (h : o.put key new s = .ok o') : o'.Sound := by
  obtain ⟨hcells, hroots⟩ := put_eq_ok h
  obtain ⟨-, -, -, -, -, hgrown, -, -⟩ := put_stored ho h
  have hw := ho.withLayer s
  obtain ⟨extra, hextra⟩ := exists_cells_withLayer o s
  have hle : o.cells.length ≤ (o.withLayer s).cells.length := by simp [hextra]
  refine ⟨areContents_setInCell _ _ _ hw.contents (hnew.mono hle) hcells, fun t n ht => ?_⟩
  rw [hroots] at ht
  refine Nat.lt_of_lt_of_le (hw.held t n ht) ?_
  simp [hgrown]

theorem layers_put (h : o.put key new s = .ok o') : o'.layers s = some (knot o'.cells (o.root s)) :=
  layers_of_root ((congrFun (put_eq_ok h).2 s).trans (roots_withLayer_self o s))

theorem others_put (ho : o.Sound) (hnew : new.IsPart o.cells.length)
    (halone : o.Alone s (keyPath key)) (h : o.put key new s = .ok o') (ht : t ≠ s) :
    Option.Rel LooksLike ((o.withLayer s).layers t) (o'.layers t) := by
  obtain ⟨hpath, hlead, -, -, hcells, -, -⟩ := (put_stored ho h).2
  have haway := (halone.withLayer ho _ (roots_withLayer_self o s) _ _
    (hpath ▸ List.prefix_append _ _) (by simp [hpath]) hlead).2 t ht
  refine layer_looksLike (ho.withLayer s) (ho.put hnew h) (fun m hm hmc => ?_)
    (congrFun (put_eq_ok h).2 t) haway
  rw [hcells]
  exact (getD_set_append _ hm).trans (if_neg hmc)

theorem put_updated (ho : o.Sound) (hnew : new.IsPart o.cells.length)
    (halone : o.Alone s (keyPath key)) (h : o.put key new s = .ok o') :
    Updated o o' s (keyPath key) new := by
  have hw := ho.withLayer s
  have hway := halone.withLayer ho _ (roots_withLayer_self o s)
  have hstored := (put_stored ho h).2
  have hknot := hstored.knot hw.contents fun front t hfront hne hlead =>
    (hway front t hfront hne hlead).1
  refine ⟨?_, fun t ht => ?_, fun other hother => ?_⟩
  · rw [layers_put h]
    exact hknot.1
  · exact rel_trans (layer_withLayer ho ht) (others_put ho hnew halone h ht)
  · have hne : other ≠ [] := by
      rintro rfl
      exact not_beside_nil _ hother
    rw [layers_put h, ← at?_withLayer ho hne, layers_of_root (roots_withLayer_self o s)]
    exact hknot.2 other hother

theorem isNull_put (ho : o.Sound) (hnew : new.IsPart o.cells.length)
    (hnull : (o.shown new).isNull = false) (h : o.put key new s = .ok o') :
    (o'.shown new).isNull = false := by
  obtain ⟨-, -, -, -, hcells, -, -⟩ := (put_stored ho h).2
  rcases hnew with ⟨m, hm, rfl⟩ | htree
  · obtain ⟨extra, hextra⟩ := exists_cells_withLayer o s
    have hlt : m < (o.withLayer s).cells.length := by
      rw [hextra, List.length_append]
      omega
    have hlt' : m < o'.cells.length := by
      rw [hcells, List.length_append, List.length_set]
      omega
    have hheld := (isNull_whole ho.contents hm).symm.trans hnull
    refine (isNull_whole (ho.put (.inl ⟨m, hm, rfl⟩) h).contents hlt').trans ?_
    rw [hcells, getD_set_append _ hlt]
    split
    · rfl
    · rw [getD_withLayer hm]
      exact hheld
  · rw [shown, fillCells_of_closed htree.1] at hnull ⊢
    exact hnull

theorem isNull_opened_at? (ho : o.Sound) (hpath : path ≠ [])
    (hv : (o.layers t).bind (at? path) = some v) : v.opened.isNull = v.isNull := by
  obtain ⟨u, hu, hv⟩ := Option.bind_eq_some_iff.1 hv
  obtain ⟨n, hn, rfl⟩ := Option.map_eq_some_iff.1 hu
  rw [at?_knot (ho.contents.getD n).opened_fillCells hpath] at hv
  obtain ⟨q, hq, rfl⟩ := exists_part ho.contents (.inl ⟨n, ho.held t n hn, rfl⟩) hv
  exact isNull_opened_part ho.contents hq

theorem held?_rel (ho : o.Sound) (ho' : o'.Sound) (hpath : path ≠ [])
    (h : Option.Rel LooksLike (o.layers t) (o'.layers t)) :
    Option.Rel LooksLike (o.layers.held? t path) (o'.layers.held? t path) := by
  have hat : Option.Rel LooksLike ((o.layers t).bind (at? path)) ((o'.layers t).bind (at? path)) := by
    generalize o.layers t = x, o'.layers t = y at h
    cases h with
    | none => exact .none
    | some hxy => exact hxy.at? path
  have hbefore (v : Value) (hv : (o.layers t).bind (at? path) = some v) :=
    isNull_opened_at? ho hpath hv
  have hafter (v : Value) (hv : (o'.layers t).bind (at? path) = some v) :=
    isNull_opened_at? ho' hpath hv
  unfold Layers.held?
  generalize (o.layers t).bind (at? path) = x, (o'.layers t).bind (at? path) = y
    at hat hbefore hafter
  cases hat with
  | none => exact .none
  | some hvw =>
    rw [Option.filter_some, Option.filter_some, ← hbefore _ rfl, ← hafter _ rfl,
      hvw.isNull_opened]
    split
    · exact .some hvw
    · exact .none

theorem Updated.get (h : Updated o o' s (keyPath key) new) (ho : o.Sound) (ho' : o'.Sound)
    (hnull : (o'.shown new).isNull = false) {below above : List Source}
    (hall : Source.all = below ++ s :: above) (d : Value) :
    ((∀ t ∈ above, o.layers.held? t (keyPath key) = none) →
      o'.layers.get key d = o'.shown new) ∧
    ((∃ t ∈ above, o.layers.held? t (keyPath key) ≠ none) →
      (o.layers.get key d).LooksLike (o'.layers.get key d)) := by
  have hself : o'.layers.held? s (keyPath key) = some (o'.shown new) := by
    rw [Layers.held?, h.holds, Option.filter_some, hnull]
    rfl
  have habove : ∀ t ∈ above.reverse, Option.Rel LooksLike (o.layers.held? t (keyPath key))
      (o'.layers.held? t (keyPath key)) := fun t ht =>
    held?_rel ho ho' (keyPath_ne_nil key) (h.others t fun hts =>
      Layers.not_mem_above hall (hts ▸ List.mem_reverse.1 ht))
  have hfirst := Layers.findSome?_held?_rel habove
  rw [Layers.get, Layers.get, Layers.get?_eq hall, Layers.get?_eq hall, hself]
  constructor
  · intro hnone
    rw [List.findSome?_eq_none_iff.2 fun t ht => hnone t (List.mem_reverse.1 ht)] at hfirst
    generalize above.reverse.findSome? (fun t => o'.layers.held? t (keyPath key)) = x at hfirst
    cases hfirst
    rfl
  · rintro ⟨t, ht, hheld⟩
    have hsome : above.reverse.findSome? (fun t => o.layers.held? t (keyPath key)) ≠ none :=
      fun hnone => hheld (List.findSome?_eq_none_iff.1 hnone t (List.mem_reverse.2 ht))
    generalize above.reverse.findSome? (fun t => o.layers.held? t (keyPath key)) = x,
      above.reverse.findSome? (fun t => o'.layers.held? t (keyPath key)) = y at hfirst hsome
    cases hfirst with
    | none => exact absurd rfl hsome
    | some hxy => exact hxy

theorem running_looksLike {h : Host} {w : Workspace} (hput : o.put key new s = .ok o')
    (hw : w.settings.layers = (o.withLayer s).layers) (hothers : ∀ t ≠ s,
      Option.Rel LooksLike ((o.withLayer s).layers t) (o'.layers t)) (t : Source) :
    Option.Rel LooksLike ((w.set h key new s).1.settings.layers t) (o'.layers t) := by
  have hcontent : w.settings.layers.content s = knot (o.withLayer s).cells (o.root s) := by
    rw [hw, content_of_root (roots_withLayer_self o s)]
  have hset : (w.settings.layers.content s).setAt (keyPath key) new =
      .ok (knot o'.cells (o.root s)) := by
    rw [hcontent, setAt_knot _ _ (keyPath_ne_nil key), (put_eq_ok hput).1]
    rfl
  rw [Workspace.set_ok hset, (Workspace.notify_frame _).1]
  dsimp only
  by_cases ht : t = s
  · rw [ht, Layers.set_self, layers_put hput]
    exact .some (.refl _)
  · rw [Layers.set_of_ne ht, hw]
    exact hothers t ht

end Storing

/-- An object is stored under a key of a layer unless something that is no mapping is in the way, and
then all stays as it was, also where the mappings on the way are made one by one. Where no mapping on
the way is held in another place, the layer holds the object there, nothing beside the key and no
other layer shows a change, and the key reads as the object or, where a higher layer holds something
under it, as before. Settings that keep each layer by itself show the same then. This is so for
whatever objects the layers share beside the way, and for an object that is held already. -/
theorem set_alone (ho : o.Sound) (hnew : new.IsPart o.cells.length)
    (hnull : (o.shown new).isNull = false) :
    (o.layers.Blocked s (keyPath key) →
      (∃ f, o.set key new s = (o, .error f)) ∧
      ∃ f, stepwise new [] (keyPath key) (o.layers.content s) =
        (o.layers.content s, .error f)) ∧
    (¬ o.layers.Blocked s (keyPath key) → ∀ o' result, o.set key new s = (o', result) →
      o'.Sound ∧
      stepwise new [] (keyPath key) ((o.withLayer s).layers.content s) =
        (o'.layers.content s, .ok ()) ∧
      (result = .ok () ↔ ∃ merged, o'.layers.all = .ok merged) ∧
      (o.Alone s (keyPath key) →
        Updated o o' s (keyPath key) new ∧
        (∀ below above, Source.all = below ++ s :: above → ∀ d,
          ((∀ t ∈ above, o.layers.held? t (keyPath key) = none) →
            o'.layers.get key d = o'.shown new) ∧
          ((∃ t ∈ above, o.layers.held? t (keyPath key) ≠ none) →
            (o.layers.get key d).LooksLike (o'.layers.get key d))) ∧
        ∀ (h : Host) (w : Workspace), w.settings.layers = (o.withLayer s).layers → ∀ t,
          Option.Rel LooksLike ((w.set h key new s).1.settings.layers t) (o'.layers t))) := by
  have hpath := keyPath_ne_nil key
  have hcontent := content_of_root (roots_withLayer_self o s)
  have hsteps := stepwise_eq (.knot (ho.withLayer s).contents (n := o.root s)) new hpath
  rw [setAt_knot _ _ hpath] at hsteps
  unfold set
  cases hput : o.put key new s with
  | error f =>
    have hblocked := put_error ho hput
    obtain ⟨n, hn⟩ := exists_root_of_blocked hblocked hpath
    refine ⟨fun _ => ⟨⟨f, rfl⟩, ?_⟩, fun h => absurd hblocked h⟩
    rw [put_error_cells hput, ← hcontent, withLayer_of_root hn] at hsteps
    exact hsteps
  | ok o₁ =>
    obtain ⟨hfree, -⟩ := put_stored ho hput
    have ho' := ho.put hnew hput
    refine ⟨fun h => absurd h hfree, fun _ o' result hset => ?_⟩
    cases hset
    refine ⟨ho', ?_, ?_, fun halone => ?_⟩
    · rw [(put_eq_ok hput).1] at hsteps
      rw [hcontent, Layers.content, layers_put hput]
      exact hsteps
    · cases o₁.layers.all with
      | error f => exact iff_of_false (fun h => by cases h) (by rintro ⟨_, h⟩; cases h)
      | ok merged => exact iff_of_true rfl ⟨merged, rfl⟩
    · have hupdated := put_updated ho hnew halone hput
      have hnull' := isNull_put ho hnew hnull hput
      exact ⟨hupdated, fun below above hall d => hupdated.get ho ho' hnull' hall d,
        fun h w hw => running_looksLike hput hw fun t ht => others_put ho hnew halone hput ht⟩

def sharing : Objects where
  cells := [.record [("fmdecorator", cell 1)],
    .record [("a", cell 2), ("b", cell 2), ("c", cell 3)], .record [("k", .text "old")],
    .record [("d", .text "old")], .record [("fmdecorator", cell 5)], .record [("x", cell 2)]]
  roots
    | .file => some 0
    | .runtime => some 4
    | _ => none

theorem sharing_sound : sharing.Sound := by
  have hold : (Value.text "old").IsPart 6 := .inr ⟨rfl, rfl⟩
  have hcell (m : Nat) (hm : m < 6) : (cell m).IsPart 6 := .inl ⟨m, hm, rfl⟩
  refine ⟨?_, fun s n hn => ?_⟩
  · simp only [AreContents, sharing, List.forall_mem_cons, IsContent, Value.record]
    simp [Entries.fields, hold, hcell]
  · cases s <;> cases hn <;> decide

theorem follow_sharing_file {is : List Nat} {t : Nat} (h : follow sharing.cells is 0 = some t) :
    (is, t) ∈ [([], 0), ([0], 1), ([0, 0], 2), ([0, 1], 2), ([0, 2], 3)] := by
  match is, h with
  | [], h | [0], h | [0, 0], h | [0, 1], h | [0, 2], h =>
    cases h
    decide
  | 0 :: 0 :: 0 :: _, h | 0 :: 0 :: (_ + 1) :: _, h | 0 :: 1 :: 0 :: _, h
  | 0 :: 1 :: (_ + 1) :: _, h | 0 :: 2 :: 0 :: _, h | 0 :: 2 :: (_ + 1) :: _, h
  | 0 :: (_ + 3) :: _, h | (_ + 1) :: _, h => nomatch h

theorem follow_sharing_runtime {is : List Nat} {t : Nat} (h : follow sharing.cells is 4 = some t) :
    (is, t) ∈ [([], 4), ([0], 5), ([0, 0], 2)] := by
  match is, h with
  | [], h | [0], h | [0, 0], h =>
    cases h
    decide
  | 0 :: 0 :: 0 :: _, h | 0 :: 0 :: (_ + 1) :: _, h | 0 :: (_ + 1) :: _, h
  | (_ + 1) :: _, h => nomatch h

theorem keyPath_sharing : keyPath "fmdecorator.c.d" = ["fmdecorator", "c", "d"] := by
  decide +kernel

theorem sharing_alone : sharing.Alone .file (keyPath "fmdecorator.c.d") := by
  have hlead : ∀ front ∈ ["fmdecorator", "c", "d"].inits, front ≠ ["fmdecorator", "c", "d"] →
      (lead sharing.cells front 0).all [0, 1, 3].contains = true := by decide +kernel
  rw [keyPath_sharing]
  intro n hn front t hfront hne ht
  cases hn
  have hway : t ∈ [0, 1, 3] := by
    have hall := hlead front ((List.mem_inits _ _).2 hfront) hne
    rwa [ht, Option.all_some, List.contains_iff_mem] at hall
  refine ⟨fun is js his hjs => ?_, fun s' hs' n' hn' is his => ?_⟩
  · have hi := follow_sharing_file his
    have hj := follow_sharing_file hjs
    grind
  · cases s' with
    | file => exact hs' rfl
    | runtime =>
      cases hn'
      have hi := follow_sharing_runtime his
      grind
    | _ => cases hn'

theorem sharing_not_blocked : ¬ sharing.layers.Blocked .file (keyPath "fmdecorator.c.d") := by
  have hheld : ((sharing.layers.content .file).at? ["fmdecorator", "c", "d"]).isSome = true := by
    decide +kernel
  obtain ⟨u, hu⟩ := Option.isSome_iff_exists.1 hheld
  rw [Layers.blocked_iff, keyPath_sharing, found_of_at? hu]
  exact found_nil_ne_blocked u

theorem set_alone_sharing : ∃ o', sharing.set "fmdecorator.c.d" (cell 2) .file = (o', .ok ()) ∧
    Updated sharing o' .file (keyPath "fmdecorator.c.d") (cell 2) ∧
    o'.layers.get "fmdecorator.c.d" .null = o'.shown (cell 2) := by
  have hok : (sharing.set "fmdecorator.c.d" (cell 2) .file).2 = .ok () :=
    eq_ok_of_isOk (by decide +kernel)
  have hnull : (sharing.shown (cell 2)).isNull = false := by decide +kernel
  have hnone : ∀ t ∈ [Source.environment, .arguments, .runtime],
      sharing.layers.held? t (keyPath "fmdecorator.c.d") = none := by
    rw [keyPath_sharing]
    have hnothing : ∀ t ∈ [Source.environment, .arguments, .runtime],
        (sharing.layers.held? t ["fmdecorator", "c", "d"]).isNone = true := by decide +kernel
    exact fun t ht => Option.isNone_iff_eq_none.1 (hnothing t ht)
  obtain ⟨-, hfree⟩ := @set_alone sharing .file "fmdecorator.c.d" (cell 2) sharing_sound
    (.inl ⟨2, by decide, rfl⟩) hnull
  cases hset : sharing.set "fmdecorator.c.d" (cell 2) .file with
  | mk o' result =>
    rw [hset] at hok
    cases hok
    obtain ⟨-, -, -, hlaws⟩ := hfree sharing_not_blocked o' _ hset
    obtain ⟨hupdated, hget, -⟩ := hlaws sharing_alone
    exact ⟨o', rfl, hupdated, (hget [.defaults] _ rfl .null).1 hnone⟩

example : ((sharing.layers.get "fmdecorator.x.k" .null).text?,
    ((sharing.set "fmdecorator.a.k" (.text "new") .file).1.layers.get "fmdecorator.x.k" .null).text?) =
    (some "old", some "new") := by
  decide +kernel

end Objects

end Settings

end NoteDecor
