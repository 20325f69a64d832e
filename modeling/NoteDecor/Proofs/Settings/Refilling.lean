import NoteDecor.Proofs.Settings.Reloading

/-! Which file a reload fills a layer from. A file belongs to the layer that it was last loaded
into. The files that belong to one layer are taken in the order of their first loading, so that the
one that came in last stays. -/

namespace NoteDecor.Settings

/-- A file that was loaded into a layer, and what it held. -/
structure Loading where
  place : Disk.Place
  source : Source
  value : Value

/-- Settings after loadings, the latest in front. Nothing else is written to a layer that a file was
loaded into. -/
inductive Loaded : List Loading → Settings → Prop
  | fresh (l : Layers) : Loaded [] ⟨l, []⟩
  | load {past : List Loading} {c c' : Settings} {d : Disk} {shown : String} {x : Loading} :
      Loaded past c → placeOf d shown = .ok x.place → readAt d x.place shown = .ok x.value →
      c.loadFile d shown x.source = .ok c' → Loaded (x :: past) c'
  | write {past : List Loading} {c : Settings} (l : Layers) : Loaded past c →
      (∀ x ∈ past, l x.source = c.layers x.source) → Loaded past ⟨l, c.files⟩

/-- The layer that a file was last loaded into. -/
def home? (past : List Loading) (p : Disk.Place) : Option Source :=
  (past.find? fun x => x.place = p).map Loading.source

def latestInto? (past : List Loading) (t : Source) : Option Loading :=
  past.find? fun x => x.source = t

def LoadedBefore (past : List Loading) (p q : Disk.Place) : Prop :=
  ∃ newer older, past = newer ++ older ∧
    p ∈ older.map Loading.place ∧ q ∉ older.map Loading.place

/-- The file belongs to the layer, and every other one that does came in before it. -/
def Refills (past : List Loading) (t : Source) (p : Disk.Place) : Prop :=
  home? past p = some t ∧ ∀ q, q ≠ p → home? past q = some t → LoadedBefore past q p

/-- Every file holds what it held when it was last loaded. -/
def Unchanged (d : Disk) (past : List Loading) : Prop :=
  ∀ p x, past.find? (fun x => x.place = p) = some x → readAt d p (d.nameOf p) = .ok x.value

/-- Every layer that files belong to was last loaded from the one that refills it. -/
def InOrder (past : List Loading) : Prop :=
  ∀ t x, latestInto? past t = some x → (∃ p, home? past p = some t) → Refills past t x.place

def known : List Loading → List (Disk.Place × Source)
  | [] => []
  | x :: past => assign x.place x.source (known past)

theorem known_nodup (past : List Loading) : ((known past).map Prod.fst).Nodup := by
  induction past with
  | nil => exact List.nodup_nil
  | cons x past ih => exact nodup_keys_assign ih x.place x.source

theorem mem_known (past : List Loading) (p : Disk.Place) (s : Source) :
    (p, s) ∈ known past ↔ home? past p = some s := by
  induction past with
  | nil => simp [known, home?]
  | cons x past ih =>
    rw [known, mem_assign (known_nodup past)]
    by_cases hx : x.place = p
    · simp [home?, hx, eq_comm]
    · have hp : p ≠ x.place := Ne.symm hx
      rw [if_neg hp, ih]
      simp [home?, hx]

theorem mem_places (past : List Loading) (p : Disk.Place) :
    p ∈ (known past).map Prod.fst ↔ p ∈ past.map Loading.place := by
  induction past with
  | nil => rfl
  | cons x past ih =>
    rw [known, keys_assign]
    split
    · next hx =>
        rw [List.map_cons, List.mem_cons, ih]
        exact ⟨.inr, fun h => h.elim (fun hp => hp ▸ ih.1 (hp ▸ hx)) id⟩
    · rw [List.mem_append, List.mem_singleton, ih, List.map_cons, List.mem_cons, or_comm]

theorem places_append (newer older : List Loading) :
    ∃ more, (known (newer ++ older)).map Prod.fst = (known older).map Prod.fst ++ more := by
  induction newer with
  | nil => exact ⟨[], (List.append_nil _).symm⟩
  | cons x newer ih =>
    obtain ⟨more, hm⟩ := ih
    rw [List.cons_append, known, keys_assign]
    split
    · exact ⟨more, hm⟩
    · exact ⟨more ++ [x.place], by rw [hm, List.append_assoc]⟩

theorem loadedBefore_of_split {past : List Loading} {p q : Disk.Place}
    {before after : List Disk.Place} (h : (known past).map Prod.fst = before ++ p :: after)
    (hq : q ∈ before) : LoadedBefore past q p := by
  induction past generalizing after with
  | nil => simp [known] at h
  | cons x past ih =>
    rw [known, keys_assign] at h
    split at h
    · obtain ⟨newer, older, rfl, ho⟩ := ih h
      exact ⟨x :: newer, older, rfl, ho⟩
    · next hx =>
        rcases List.eq_nil_or_concat after with rfl | ⟨after, y, rfl⟩
        · -- the file is the one that has just been loaded
          obtain ⟨rfl, hp⟩ := List.append_inj' h rfl
          obtain rfl : x.place = p := List.singleton_inj.1 hp
          exact ⟨[x], past, rfl, (mem_places past q).1 hq, fun hm => hx ((mem_places past _).2 hm)⟩
        · rw [List.concat_eq_append, ← List.cons_append, ← List.append_assoc] at h
          obtain ⟨newer, older, rfl, ho⟩ := ih (List.append_inj' h rfl).1
          exact ⟨x :: newer, older, rfl, ho⟩

theorem LoadedBefore.mem_before {past : List Loading} {p q : Disk.Place}
    {before after : List Disk.Place} (hb : LoadedBefore past q p)
    (h : (known past).map Prod.fst = before ++ p :: after) : q ∈ before := by
  obtain ⟨newer, older, rfl, hq, hp⟩ := hb
  rw [← mem_places] at hq hp
  obtain ⟨more, hm⟩ := places_append newer older
  rw [hm] at h
  rcases List.append_eq_append_iff.1 h with ⟨a, rfl, -⟩ | ⟨a, ha, hpa⟩
  · exact List.mem_append_left a hq
  · cases a with
    | nil => rwa [ha, List.append_nil] at hq
    | cons y a =>
      obtain ⟨rfl, -⟩ := List.cons.inj hpa
      exact absurd (ha ▸ List.mem_append_right before List.mem_cons_self) hp

theorem Loaded.reached {past : List Loading} {c : Settings} (h : Loaded past c) : c.Reached := by
  induction h with
  | fresh l => exact .fresh l
  | load _ _ _ hl ih => exact .load ih hl
  | write l _ _ ih => exact .write l ih

theorem loadFile_eq {c c' : Settings} {d : Disk} {shown : String} {x : Loading}
    (hp : placeOf d shown = .ok x.place) (hv : readAt d x.place shown = .ok x.value)
    (h : c.loadFile d shown x.source = .ok c') :
    c' = ⟨c.layers.set x.source x.value, register x.place x.source c.files⟩ := by
  obtain ⟨place, hplace, hat⟩ := bind_eq_ok.1 h
  rw [hp] at hplace
  cases hplace
  obtain ⟨v, hread, rfl⟩ := loadAt_eq_ok.1 hat
  rw [hv] at hread
  cases hread
  rfl

theorem Loaded.files_eq {past : List Loading} {c : Settings} (h : Loaded past c) :
    c.files = known past := by
  induction h with
  | fresh l => rfl
  | load _ hp hv hl ih => rw [loadFile_eq hp hv hl, register_eq_assign, known, ih]
  | write l _ _ ih => exact ih

theorem of_latestInto? {past : List Loading} {t : Source} {x : Loading}
    (hx : latestInto? past t = some x) : x ∈ past ∧ x.source = t := by
  unfold latestInto? at hx
  exact ⟨List.mem_of_find?_eq_some hx, by simpa using List.find?_some hx⟩

theorem Loaded.layer {past : List Loading} {c : Settings} (h : Loaded past c) {t : Source}
    {x : Loading} (hx : latestInto? past t = some x) : c.layers t = some x.value := by
  induction h with
  | fresh l => cases hx
  | @load past c c' d shown y _ hp hv hl ih =>
    rw [loadFile_eq hp hv hl]
    by_cases hy : y.source = t
    · subst hy
      simp only [latestInto?, List.find?_cons, decide_true, Option.some.injEq] at hx
      simp [Layers.set, hx]
    · simp only [latestInto?, List.find?_cons, hy, decide_false] at hx
      simp only [Layers.set, if_neg (Ne.symm hy)]
      exact ih hx
  | write l _ hl ih =>
    obtain ⟨hm, ht⟩ := of_latestInto? hx
    rw [← ih hx, ← ht]
    exact hl x hm

theorem find?_of_latestInto? {past : List Loading} {t : Source} {x : Loading}
    (hx : latestInto? past t = some x) (hh : home? past x.place = some t) :
    past.find? (fun y => y.place = x.place) = some x := by
  induction past with
  | nil => cases hx
  | cons z past ih =>
    by_cases hz : z.source = t
    · simp only [latestInto?, List.find?_cons, hz, decide_true, Option.some.injEq] at hx
      simp [hx]
    · simp only [latestInto?, List.find?_cons, hz, decide_false] at hx
      by_cases hp : z.place = x.place
      · simp only [home?, List.find?_cons, hp, decide_true, Option.map_some,
          Option.some.injEq] at hh
        exact absurd hh hz
      · simp only [home?, List.find?_cons, hp, decide_false] at hh ⊢
        exact ih hx hh

theorem latest?_none {d : Disk} {files : List (Disk.Place × Source)} {t : Source}
    {loaded : List (Source × Value)} (h : files.mapM (reading d) = .ok loaded)
    (ht : ∀ e ∈ files, e.2 ≠ t) : latest? t loaded = none := by
  induction files generalizing loaded with
  | nil =>
    cases h
    rfl
  | cons e r ih =>
    obtain ⟨v, more, hv, hmore, rfl⟩ := mapM_cons_eq_ok.1 h
    obtain ⟨w, -, rfl⟩ := map_eq_ok.1 hv
    rw [latest?, ih hmore fun g hg => ht g (List.mem_cons_of_mem e hg),
      if_neg (ht e List.mem_cons_self), Option.or_none]

theorem latest?_of_split {d : Disk} {before after : List (Disk.Place × Source)} {p : Disk.Place}
    {t : Source} {loaded : List (Source × Value)}
    (h : (before ++ (p, t) :: after).mapM (reading d) = .ok loaded)
    (ht : ∀ e ∈ after, e.2 ≠ t) :
    ∃ v, readAt d p (d.nameOf p) = .ok v ∧ latest? t loaded = some v := by
  induction before generalizing loaded with
  | nil =>
    obtain ⟨v, more, hv, hmore, rfl⟩ := mapM_cons_eq_ok.1 h
    obtain ⟨w, hw, rfl⟩ := map_eq_ok.1 hv
    exact ⟨w, hw, by rw [latest?, latest?_none hmore ht, if_pos rfl, Option.none_or]⟩
  | cons e before ih =>
    obtain ⟨v, more, -, hmore, rfl⟩ := mapM_cons_eq_ok.1 h
    obtain ⟨w, hw, hl⟩ := ih hmore
    exact ⟨w, hw, by rw [latest?, hl, Option.some_or]⟩

theorem reloadFiles_ok {d : Disk} {c c' : Settings} (hn : (c.files.map Prod.fst).Nodup)
    (h : c.reloadFiles d = (c', .ok ())) :
    ∃ loaded, c.files.mapM (reading d) = .ok loaded ∧
      c' = ⟨c.layers.refreshed loaded, c.files⟩ := by
  unfold reloadFiles at h
  rcases mapM_split (reading d) c.files with ⟨loaded, hl⟩ | ⟨done, e, rest, loaded, g, hf, hl, hg⟩
  · have hall := reloadEach_of_read hn (List.Subset.refl _) hl []
    rw [List.append_nil, h] at hall
    cases hall
    exact ⟨loaded, hl, rfl⟩
  · have hk : done ⊆ c.files := hf ▸ List.subset_append_left ..
    have hall := reloadEach_of_read hn hk hl (e :: rest)
    rw [← hf, h] at hall
    simp [reloadEach, loadAt_error hg] at hall

variable {past : List Loading} {c c' : Settings} {d : Disk}

theorem reloadFiles_refills (hc : Loaded past c) (hr : c.reloadFiles d = (c', .ok ()))
    {t : Source} {p : Disk.Place} (hp : Refills past t p) :
    ∃ v, readAt d p (d.nameOf p) = .ok v ∧ c'.layers t = some v := by
  obtain ⟨loaded, hl, rfl⟩ := reloadFiles_ok hc.reached.places_nodup hr
  rw [hc.files_eq] at hl
  obtain ⟨before, after, hs⟩ := List.append_of_mem ((mem_known past p t).2 hp.1)
  have hplaces : (known past).map Prod.fst = before.map Prod.fst ++ p :: after.map Prod.fst := by
    rw [hs, List.map_append, List.map_cons]
  have hn := known_nodup past
  rw [hplaces, List.nodup_append] at hn
  -- whatever else belongs to the layer came in before, and so stands in front
  have hafter : ∀ e ∈ after, e.2 ≠ t := by
    rintro ⟨q, s⟩ he rfl
    have hq : q ∈ after.map Prod.fst := List.mem_map_of_mem he
    have hne : q ≠ p := fun h => (List.nodup_cons.1 hn.2.1).1 (h ▸ hq)
    have hhome : home? past q = some s :=
      (mem_known past q s).1 (hs ▸ List.mem_append_right before (List.mem_cons_of_mem _ he))
    have hbefore := (hp.2 q hne hhome).mem_before hplaces
    exact hn.2.2 q hbefore q (List.mem_cons_of_mem p hq) rfl
  rw [hs] at hl
  obtain ⟨v, hv, hlatest⟩ := latest?_of_split hl hafter
  exact ⟨v, hv, by simp only [Layers.refreshed_apply, hlatest, Option.some_or]⟩

theorem reloadFiles_keeps (hc : Loaded past c) (hr : c.reloadFiles d = (c', .ok ()))
    {t : Source} (ht : ∀ p, home? past p ≠ some t) : c'.layers t = c.layers t := by
  obtain ⟨loaded, hl, rfl⟩ := reloadFiles_ok hc.reached.places_nodup hr
  rw [hc.files_eq] at hl
  have hnone : latest? t loaded = none := by
    refine latest?_none hl fun e he het => ht e.1 ((mem_known past e.1 t).1 ?_)
    rw [← het]
    exact he
  simp only [Layers.refreshed_apply, hnone, Option.none_or]

theorem exists_refills {t : Source} {p : Disk.Place} (hp : home? past p = some t) :
    ∃ q, Refills past t q := by
  have hfound : ((known past).reverse.find? fun e => e.2 = t).isSome := by
    rw [List.find?_isSome]
    exact ⟨(p, t), List.mem_reverse.2 ((mem_known past p t).2 hp), decide_eq_true rfl⟩
  obtain ⟨⟨q, s⟩, hq⟩ := Option.isSome_iff_exists.1 hfound
  obtain ⟨hs, after, before, hsplit, hafter⟩ := List.find?_eq_some_iff_append.1 hq
  obtain rfl : s = t := of_decide_eq_true hs
  have hknown : known past = before.reverse ++ (q, s) :: after.reverse := by
    rw [← List.reverse_reverse (known past), hsplit]
    simp
  have hplaces : (known past).map Prod.fst =
      before.reverse.map Prod.fst ++ q :: after.reverse.map Prod.fst := by
    rw [hknown, List.map_append, List.map_cons]
  refine ⟨q, (mem_known past q s).1 (hknown ▸ by simp), fun r hr hrs => ?_⟩
  have hmem := (mem_known past r s).2 hrs
  rw [hknown, List.mem_append, List.mem_cons] at hmem
  rcases hmem with hb | he | ha
  · exact loadedBefore_of_split hplaces (List.mem_map_of_mem hb)
  · exact absurd (congrArg Prod.fst he) hr
  · have hn := hafter (r, s) (List.mem_reverse.1 ha)
    simp at hn

theorem reloadFiles_unchanged (hc : Loaded past c) (hr : c.reloadFiles d = (c', .ok ()))
    (hd : Unchanged d past) (ho : InOrder past) : c'.layers = c.layers := by
  funext t
  by_cases ht : ∃ p, home? past p = some t
  · have hsome : (past.find? fun x => x.source = t).isSome := by
      obtain ⟨p, hp⟩ := ht
      obtain ⟨x, hx, hs⟩ := Option.map_eq_some_iff.1 hp
      rw [List.find?_isSome]
      exact ⟨x, List.mem_of_find?_eq_some hx, decide_eq_true hs⟩
    obtain ⟨x, hx⟩ := Option.isSome_iff_exists.1 hsome
    have hrefills := ho t x hx ht
    obtain ⟨v, hv, hlayer⟩ := reloadFiles_refills hc hr hrefills
    have hsame := hd x.place x (find?_of_latestInto? hx hrefills.1)
    rw [hv] at hsame
    cases hsame
    rw [hlayer, hc.layer hx]
  · exact reloadFiles_keeps hc hr fun p hp => ht ⟨p, hp⟩

end NoteDecor.Settings
