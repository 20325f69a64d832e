import NoteDecor.Proofs.Settings.Refilling
import NoteDecor.Proofs.Workspace.FailedReload

/-! A reload that succeeds fills each layer from one file. That need not be the file that was last
loaded into the layer: a reload takes the files in the order in which they first came in, and each
of them into one layer only. -/

namespace NoteDecor

namespace Settings

theorem parse_shown {late : List UInt8 → Option Text.Utf8.Fault} {shown : String}
    {content : List UInt8} {v : Value} (h : parse late shown content = .ok v) (other : String) :
    parse late other content = .ok v := by
  obtain ⟨cs, hcs, h⟩ := bind_eq_ok.1 h
  refine bind_eq_ok.2 ⟨cs, mapError_eq_ok.2 (mapError_eq_ok.1 hcs), ?_⟩
  cases hl : Yaml.load cs with
  | error f => cases f <;> simp [hl, throw, throwThe, MonadExceptOf.throw] at h
  | ok w =>
    simp only [hl] at h ⊢
    split at h
    · exact h
    · cases h

theorem readAt_shown {d : Disk} {p : Disk.Place} {shown : String} {v : Value}
    (h : readAt d p shown = .ok v) (other : String) : readAt d p other = .ok v := by
  obtain ⟨kind, hk, h⟩ := bind_eq_ok.1 h
  refine bind_eq_ok.2 ⟨kind, hk, ?_⟩
  cases kind with
  | none => cases h
  | some kind =>
    obtain ⟨content, hc, h⟩ := bind_eq_ok.1 h
    exact bind_eq_ok.2 ⟨content, mapError_eq_ok.2 (mapError_eq_ok.1 hc), parse_shown h other⟩

theorem Loaded.exists_load {past : List Loading} {c c' : Settings} {d : Disk} {shown : String}
    {s : Source} (hc : Loaded past c) (hl : c.loadFile d shown s = .ok c') :
    ∃ x, x.source = s ∧ placeOf d shown = .ok x.place ∧ readAt d x.place shown = .ok x.value ∧
      Loaded (x :: past) c' := by
  obtain ⟨place, hp, hat⟩ := bind_eq_ok.1 hl
  obtain ⟨v, hv, -⟩ := loadAt_eq_ok.1 hat
  exact ⟨⟨place, s, v⟩, rfl, hp, hv, .load hc hp hv hl⟩

end Settings

namespace Workspace
open Settings

variable {h : Host}

theorem reload_ok {w w' : Workspace} {d : Disk} (hr : w.reload h d = (w', .ok ())) :
    w.settings.reloadFiles d = (w'.settings, .ok ()) := by
  unfold reload at hr
  cases hc : w.settings.reloadFiles d with | mk c result
  rw [hc] at hr
  cases result with
  | error f => cases hr
  | ok u =>
    have hs : ({ w with settings := c }.notify h).1.settings = c := (notify_frame _).1
    dsimp only at hr
    rw [hr] at hs
    rw [← hs]

def asLoaded : Disk := diskOf [("a.yaml", "vault: one"), ("b.yaml", "vault: two")]

def asEdited : Disk := diskOf [("a.yaml", "vault: three"), ("b.yaml", "vault: four")]

def loadFiles (d : Disk) (s : Source) (names : List String) : Except FileFault Settings :=
  names.foldlM (fun c name => c.loadFile d name s) ⟨.start, []⟩

def unwatched (c : Settings) : Workspace := ⟨c, [], .start [] .debug, []⟩

def mergedVault (c : Settings) : Option String :=
  (c.layers.all.toOption.bind fun es => (Value.map es).at? (keyPath "fmdecorator.vault")).bind
    Value.text?

def vaultsAround (d : Disk) (c : Settings) : Option (Option String × Option String) :=
  match (unwatched c).reload .idle d with
  | (w, .ok ()) => some (mergedVault c, mergedVault w.settings)
  | (_, .error _) => none

theorem loadFiles_loaded {d : Disk} {s : Source} {names : List String} {past : List Loading}
    {c c' : Settings} (hc : Loaded past c)
    (h : names.foldlM (fun c name => c.loadFile d name s) c = .ok c') :
    ∃ new, Loaded (new ++ past) c' ∧
      new.map (fun x => some x.place) =
        names.reverse.map (fun name => (placeOf d name).toOption) ∧
      ∀ x ∈ new, x.source = s ∧ readAt d x.place (d.nameOf x.place) = .ok x.value := by
  induction names generalizing past c with
  | nil =>
    cases h
    exact ⟨[], hc, rfl, by simp⟩
  | cons name names ih =>
    rw [List.foldlM_cons] at h
    obtain ⟨c₁, hl, hrest⟩ := bind_eq_ok.1 h
    obtain ⟨x, hs, hp, hv, hx⟩ := hc.exists_load hl
    obtain ⟨new, hnew, hplaces, hall⟩ := ih hx hrest
    refine ⟨new ++ [x], by rwa [List.append_assoc], ?_, fun y hy => ?_⟩
    · rw [List.map_append, hplaces, List.reverse_cons, List.map_append, List.map_singleton,
        List.map_singleton, hp]
      rfl
    · rcases List.mem_append.1 hy with hy | hy
      · exact hall y hy
      · rw [List.mem_singleton.1 hy]
        exact ⟨hs, readAt_shown hv _⟩

theorem unchanged_of_read {d : Disk} {past : List Loading}
    (h : ∀ x ∈ past, readAt d x.place (d.nameOf x.place) = .ok x.value) : Unchanged d past := by
  intro p x hx
  have hp : x.place = p := by simpa using List.find?_some hx
  rw [← hp]
  exact h x (List.mem_of_find?_eq_some hx)

theorem of_vaultsAround {d d' : Disk} {s : Source} {names : List String}
    {around : Option String × Option String}
    (h : (loadFiles d s names).toOption.bind (vaultsAround d') = some around) :
    ∃ (past : List Loading) (w w' : Workspace), Loaded past w.settings ∧
      past.map (fun x => some x.place) =
        names.reverse.map (fun name => (placeOf d name).toOption) ∧
      (∀ x ∈ past, x.source = s ∧ readAt d x.place (d.nameOf x.place) = .ok x.value) ∧
      w.reload .idle d' = (w', .ok ()) ∧ mergedVault w.settings = around.1 ∧
      mergedVault w'.settings = around.2 := by
  cases hc : loadFiles d s names with
  | error f => simp [hc, Except.toOption] at h
  | ok c =>
    obtain ⟨new, hnew, hplaces, hall⟩ := loadFiles_loaded (.fresh .start) hc
    simp only [hc, Except.toOption, Option.bind_some, vaultsAround] at h
    cases hr : (unwatched c).reload .idle d' with | mk w' result
    rw [hr] at h
    cases result with
    | error f => cases h
    | ok u =>
      cases h
      rw [List.append_nil] at hnew
      exact ⟨new, unwatched c, w', hnew, hplaces, hall, hr, rfl, rfl⟩

theorem refills_second {x y : Loading} (hp : x.place ≠ y.place) :
    Refills [y, x] y.source y.place := by
  refine ⟨by simp [home?], fun q hq hh => ⟨[y], [x], rfl, ?_, by simp [Ne.symm hp]⟩⟩
  by_cases hx : x.place = q
  · simp [hx]
  · simp [home?, Ne.symm hq, hx] at hh

/-- A reload that succeeds leaves in a layer what the file that refills it holds now, and a layer
that no file belongs to any more as it was. So where every layer was last loaded from the file that
refills it, a reload of unchanged files changes nothing. -/
theorem reload_refreshes {past : List Loading} {w w' : Workspace} {d : Disk}
    (hw : Loaded past w.settings) (hr : w.reload h d = (w', .ok ())) :
    (∀ t p, Refills past t p →
      ∃ v, readAt d p (d.nameOf p) = .ok v ∧ w'.settings.layers t = some v) ∧
    (∀ t, (∃ p, Refills past t p) ∨
      (∀ p, home? past p ≠ some t) ∧ w'.settings.layers t = w.settings.layers t) ∧
    (Unchanged d past → InOrder past → w'.settings.layers.all = w.settings.layers.all) := by
  have hfiles := reload_ok hr
  refine ⟨fun t p hp => reloadFiles_refills hw hfiles hp, fun t => ?_, fun hd ho => ?_⟩
  · by_cases ht : ∃ p, home? past p = some t
    · obtain ⟨p, hp⟩ := ht
      exact .inl (exists_refills hp)
    · have hnone : ∀ p, home? past p ≠ some t := fun p hp => ht ⟨p, hp⟩
      exact .inr ⟨hnone, reloadFiles_keeps hw hfiles hnone⟩
  · rw [reloadFiles_unchanged hw hfiles hd ho]

theorem reload_refreshes_edited : ∃ (past : List Loading) (w w' : Workspace),
    Loaded past w.settings ∧ w.reload .idle asEdited = (w', .ok ()) ∧
    Refills past .file (.inside ["b.yaml"]) ∧
    (∃ v, readAt asEdited (.inside ["b.yaml"]) "here/b.yaml" = .ok v ∧
      w'.settings.layers .file = some v) ∧
    mergedVault w.settings = some "two" ∧ mergedVault w'.settings = some "four" := by
  have hrun : (loadFiles asLoaded .file ["a.yaml", "b.yaml"]).toOption.bind
      (vaultsAround asEdited) = some (some "two", some "four") := by decide +kernel
  obtain ⟨past, w, w', hw, hplaces, hall, hr, hbefore, hafter⟩ := of_vaultsAround hrun
  have hnames : ["a.yaml", "b.yaml"].reverse.map (fun name => (placeOf asLoaded name).toOption) =
      [some (.inside ["b.yaml"]), some (.inside ["a.yaml"])] := by decide +kernel
  rw [hnames] at hplaces
  obtain ⟨y, rest, rfl, hy, hrest⟩ := List.map_eq_cons_iff.1 hplaces
  obtain ⟨x, rest, rfl, hx, hrest⟩ := List.map_eq_cons_iff.1 hrest
  obtain rfl := List.map_eq_nil_iff.1 hrest
  obtain ⟨hys, -⟩ := hall y List.mem_cons_self
  have hp : Refills [y, x] y.source y.place := by
    refine refills_second ?_
    rw [Option.some.inj hy, Option.some.inj hx]
    decide
  rw [hys, Option.some.inj hy] at hp
  exact ⟨[y, x], w, w', hw, hr, hp, (reload_refreshes hw hr).1 .file _ hp, hbefore, hafter⟩

theorem reload_reorders : ∃ (past : List Loading) (w w' : Workspace) (x : Loading),
    Loaded past w.settings ∧ Unchanged asLoaded past ∧
    w.reload .idle asLoaded = (w', .ok ()) ∧ latestInto? past .file = some x ∧
    readAt asLoaded x.place (asLoaded.nameOf x.place) = .ok x.value ∧
    w'.settings.layers .file ≠ some x.value ∧
    w'.settings.layers.all ≠ w.settings.layers.all := by
  have hrun : (loadFiles asLoaded .file ["a.yaml", "b.yaml", "a.yaml"]).toOption.bind
      (vaultsAround asLoaded) = some (some "one", some "two") := by decide +kernel
  obtain ⟨past, w, w', hw, hplaces, hall, hr, hbefore, hafter⟩ := of_vaultsAround hrun
  have hne : w'.settings.layers.all ≠ w.settings.layers.all := by
    intro hsame
    rw [mergedVault, hsame, ← mergedVault, hbefore] at hafter
    simp at hafter
  obtain ⟨x, rest, rfl, -, -⟩ := List.map_eq_cons_iff.1 hplaces
  obtain ⟨hxs, hxv⟩ := hall x List.mem_cons_self
  have hlatest : latestInto? (x :: rest) .file = some x := by simp [latestInto?, hxs]
  refine ⟨x :: rest, w, w', x, hw, unchanged_of_read fun y hy => (hall y hy).2, hr, hlatest, hxv,
    fun hsame => hne (congrArg Layers.all (funext fun t => ?_)), hne⟩
  by_cases ht : t = .file
  · rw [ht, hsame, hw.layer hlatest]
  · -- no file belongs to another layer
    refine reloadFiles_keeps hw (reload_ok hr) fun p hp => ht ?_
    obtain ⟨y, hy, rfl⟩ := Option.map_eq_some_iff.1 hp
    exact (hall y (List.mem_of_find?_eq_some hy)).1

end Workspace

end NoteDecor
