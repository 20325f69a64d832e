import NoteDecor.Proofs.Assignment
import NoteDecor.Proofs.Steps
import NoteDecor.Settings.File

/-! Loading settings files again. Every place is known once, so that a reload keeps the list of
files; it takes the files in front of the first one that fails, and the last of those that were
loaded into a layer decides what the layer holds. -/

namespace NoteDecor.Settings

def Layers.refreshed (l : Layers) (loaded : List (Source × Value)) : Layers :=
  loaded.foldl (fun l e => l.set e.1 e.2) l

def latest? (t : Source) : List (Source × Value) → Option Value
  | [] => none
  | e :: r => (latest? t r).or (if e.1 = t then some e.2 else none)

theorem Layers.refreshed_apply (l : Layers) (loaded : List (Source × Value)) (t : Source) :
    l.refreshed loaded t = (latest? t loaded).or (l t) := by
  induction loaded generalizing l with
  | nil => rfl
  | cons e r ih =>
    have hs : l.refreshed (e :: r) = (l.set e.1 e.2).refreshed r := rfl
    rw [hs, ih, latest?, Option.or_assoc]
    congr 1
    by_cases ht : t = e.1
    · simp [Layers.set, ht]
    · simp [Layers.set, ht, Ne.symm ht]

theorem Layers.refreshed_eq_iff (l : Layers) (loaded : List (Source × Value)) :
    l.refreshed loaded = l ↔ ∀ t v, latest? t loaded = some v → l t = some v := by
  constructor
  · intro h t v hv
    rw [← h, refreshed_apply, hv, Option.some_or]
  · intro h
    funext t
    rw [refreshed_apply]
    cases hv : latest? t loaded with
    | none => rfl
    | some v => exact (h t v hv).symm

theorem register_eq_assign (place : Disk.Place) (s : Source)
    (files : List (Disk.Place × Source)) : register place s files = assign place s files := by
  induction files with
  | nil => rfl
  | cons e r ih => rw [register, assign, ih]

/-- Settings that come about by loading files and by whatever else is written to the layers. -/
inductive Reached : Settings → Prop
  | fresh (l : Layers) : Reached ⟨l, []⟩
  | load {c c' : Settings} {d : Disk} {shown : String} {s : Source} :
      Reached c → c.loadFile d shown s = .ok c' → Reached c'
  | write {c : Settings} (l : Layers) : Reached c → Reached ⟨l, c.files⟩

theorem loadAt_eq_ok {c c' : Settings} {d : Disk} {place : Disk.Place} {shown : String}
    {s : Source} : c.loadAt d place shown s = .ok c' ↔
      ∃ v, readAt d place shown = .ok v ∧ c' = ⟨c.layers.set s v, register place s c.files⟩ := by
  unfold loadAt
  rw [bind_eq_ok]
  simp only [pure, Except.pure, Except.ok.injEq, eq_comm]

theorem Reached.places_nodup {c : Settings} (h : Reached c) : (c.files.map Prod.fst).Nodup := by
  induction h with
  | fresh l => exact List.nodup_nil
  | load _ hl ih =>
    obtain ⟨place, _, hat⟩ := bind_eq_ok.1 hl
    obtain ⟨v, _, rfl⟩ := loadAt_eq_ok.1 hat
    simp only [register_eq_assign]
    exact nodup_keys_assign ih _ _
  | write l _ ih => exact ih

/-- A known file as it is now, with the layer that it belongs to. -/
def reading (d : Disk) (e : Disk.Place × Source) : Except FileFault (Source × Value) :=
  (readAt d e.1 (d.nameOf e.1)).map (e.2, ·)

theorem loadAt_error {c : Settings} {d : Disk} {e : Disk.Place × Source} {f : FileFault}
    (h : reading d e = .error f) : c.loadAt d e.1 (d.nameOf e.1) e.2 = .error f := by
  unfold reading at h
  unfold loadAt
  cases hr : readAt d e.1 (d.nameOf e.1) with
  | error g =>
    rw [hr] at h
    cases h
    rfl
  | ok v =>
    rw [hr] at h
    cases h

theorem loadAt_ok {c : Settings} {d : Disk} {e : Disk.Place × Source} {v : Source × Value}
    (h : reading d e = .ok v) :
    c.loadAt d e.1 (d.nameOf e.1) e.2 = .ok ⟨c.layers.set v.1 v.2, register e.1 e.2 c.files⟩ := by
  obtain ⟨w, hw, rfl⟩ := map_eq_ok.1 h
  exact loadAt_eq_ok.2 ⟨w, hw, rfl⟩

theorem reloadEach_of_read {d : Disk} {files : List (Disk.Place × Source)} {c : Settings}
    {loaded : List (Source × Value)} (hn : (c.files.map Prod.fst).Nodup) (hk : files ⊆ c.files)
    (h : files.mapM (reading d) = .ok loaded) (rest : List (Disk.Place × Source)) :
    reloadEach d (files ++ rest) c =
      reloadEach d rest ⟨c.layers.refreshed loaded, c.files⟩ := by
  induction files generalizing c loaded with
  | nil =>
    cases h
    rfl
  | cons e r ih =>
    obtain ⟨v, more, hv, hmore, rfl⟩ := mapM_cons_eq_ok.1 h
    obtain ⟨hin, hk⟩ := List.cons_subset.1 hk
    -- a place that is known with this layer is registered to no effect
    simp only [List.cons_append, reloadEach, loadAt_ok hv, register_eq_assign,
      assign_of_mem hn hin]
    exact ih hn hk hmore

theorem reloadFiles_error {d : Disk} {c c' : Settings} {f : FileFault}
    (hn : (c.files.map Prod.fst).Nodup) (h : c.reloadFiles d = (c', .error f)) :
    ∃ done e rest loaded, c.files = done ++ e :: rest ∧ done.mapM (reading d) = .ok loaded ∧
      reading d e = .error f ∧ c' = ⟨c.layers.refreshed loaded, c.files⟩ := by
  unfold reloadFiles at h
  -- that the files can all be read contradicts the failure, so there is a first one that cannot
  rcases mapM_split (reading d) c.files with ⟨loaded, hl⟩ | ⟨done, e, rest, loaded, g, hf, hl, hg⟩
  · have hall := reloadEach_of_read hn (List.Subset.refl _) hl []
    rw [List.append_nil, h] at hall
    cases hall
  · have hk : done ⊆ c.files := hf ▸ List.subset_append_left ..
    have hall := reloadEach_of_read hn hk hl (e :: rest)
    rw [← hf, h] at hall
    simp only [reloadEach, loadAt_error hg, Prod.mk.injEq, Except.error.injEq] at hall
    obtain ⟨rfl, rfl⟩ := hall
    exact ⟨done, e, rest, loaded, hf, hl, hg, rfl⟩

end NoteDecor.Settings
