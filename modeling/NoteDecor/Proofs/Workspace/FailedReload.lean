import NoteDecor.Proofs.Settings.Reloading
import NoteDecor.Proofs.Workspace.Change

/-! A reload that fails at a file tells nobody, but it keeps what it loaded from the files in front
of that one. -/

namespace NoteDecor.Workspace
open Settings

variable {h : Host}

theorem follow_ne_file (e : Engine) (merged : Entries) (f : FileFault) :
    (follow h e merged).2 ≠ .error (.file f) := by
  unfold follow
  split
  · nofun
  · split
    · split <;> nofun
    · split <;> nofun

theorem tellEach_ne_file (merged : Entries) (xs : List Watcher) (w : Workspace) (f : FileFault) :
    (tellEach h merged xs w).2 ≠ .error (.file f) := by
  induction xs generalizing w with
  | nil => nofun
  | cons x xs ih =>
    have hx : (w.tell h merged x).2 ≠ .error (.file f) := by
      cases x with
      | engine => exact follow_ne_file w.engine merged f
      | listener name raises => cases raises <;> nofun
    unfold tellEach
    cases ht : w.tell h merged x with | mk w' result
    rw [ht] at hx
    cases result with
    | error g => exact hx
    | ok u => exact ih w'

theorem notify_ne_file (w : Workspace) (f : FileFault) :
    (w.notify h).2 ≠ .error (.file f) := by
  unfold notify
  cases w.settings.layers.all with
  | error g => nofun
  | ok merged => exact tellEach_ne_file merged w.watchers w f

/-- A reload that fails at a file leaves the engine, the watchers and the list of files alone. The
layers hold what is in the files in front of the failing one now, so that nothing has changed
exactly if each layer held that before. -/
theorem reload_failed {w w' : Workspace} {d : Disk} {f : FileFault} (hw : w.settings.Reached)
    (hr : w.reload h d = (w', .error (.file f))) :
    ∃ done e rest loaded, w.settings.files = done ++ e :: rest ∧
      done.mapM (reading d) = .ok loaded ∧ reading d e = .error f ∧
      w' = { w with settings := ⟨w.settings.layers.refreshed loaded, w.settings.files⟩ } ∧
      (w' = w ↔ ∀ t v, latest? t loaded = some v → w.settings.layers t = some v) := by
  have hf : w.settings.reloadFiles d = (w'.settings, .error f) ∧
      w' = { w with settings := w'.settings } := by
    unfold reload at hr
    cases hc : w.settings.reloadFiles d with | mk settings result
    rw [hc] at hr
    cases result with
    | ok u =>
      -- then the watchers would have raised, and none of them raises for a file
      exact absurd (congrArg Prod.snd hr) (notify_ne_file _ f)
    | error g =>
      cases hr
      exact ⟨rfl, rfl⟩
  obtain ⟨hfiles, hframe⟩ := hf
  obtain ⟨done, e, rest, loaded, hsplit, hloaded, he, hset⟩ :=
    reloadFiles_error hw.places_nodup hfiles
  rw [hset] at hframe
  refine ⟨done, e, rest, loaded, hsplit, hloaded, he, hframe, ?_⟩
  rw [← Layers.refreshed_eq_iff]
  constructor
  · intro hsame
    exact congrArg (fun w => w.settings.layers) (hframe.symm.trans hsame)
  · intro hsame
    rw [hframe, hsame]

def diskOf (files : List (String × String)) : Disk :=
  ⟨"here", ⟨"/", ["home"]⟩, files.map fun f => ([f.1], f.2.toList.map fun c => c.toNat.toUInt8), [],
    fun _ => none⟩

def twoFiles : Except FileFault Settings := do
  let d := diskOf [("a.yaml", "vault: one"), ("b.yaml", "vault: two")]
  let c ← Settings.loadFile ⟨.start, []⟩ d "a.yaml" .arguments
  c.loadFile d "b.yaml" .file

def firstFile : Disk := diskOf [("a.yaml", "vault: three")]

def vaultText (c : Settings) : Option String := (c.get "fmdecorator.vault" .null).text?

theorem twoFiles_reload : ∃ c c' f, twoFiles = .ok c ∧ c.Reached ∧
    c.reloadFiles firstFile = (c', .error f) ∧ vaultText c = some "one" ∧
    vaultText c' = some "three" := by
  have hrun : (twoFiles.toOption.map fun c => ((c.reloadFiles firstFile).2.toOption.isNone,
      vaultText c, vaultText (c.reloadFiles firstFile).1)) =
      some (true, some "one", some "three") := by decide +kernel
  cases hc : twoFiles with
  | error f =>
    rw [hc] at hrun
    cases hrun
  | ok c =>
    simp only [hc, Except.toOption, Option.map_some, Option.some.injEq, Prod.mk.injEq] at hrun
    obtain ⟨hnone, hbefore, hafter⟩ := hrun
    have hreached : c.Reached := by
      obtain ⟨c₁, hfirst, hsecond⟩ := bind_eq_ok.1 hc
      exact .load (.load (.fresh _) hfirst) hsecond
    cases hr : c.reloadFiles firstFile with | mk c' result
    rw [hr] at hnone hafter
    cases result with
    | ok u => cases hnone
    | error f => exact ⟨c, c', f, rfl, hreached, hr, hbefore, hafter⟩

theorem reload_error {w : Workspace} {c : Settings} {d : Disk} {f : FileFault}
    (hr : w.settings.reloadFiles d = (c, .error f)) :
    w.reload h d = ({ w with settings := c }, .error (.file f)) := by
  unfold reload
  rw [hr]

theorem reload_failed_at_second : ∃ (w w' : Workspace) (f : FileFault), w.settings.Reached ∧
    w.reload .idle firstFile = (w', .error (.file f)) ∧ w'.engine = w.engine ∧
    ∃ loaded, w'.settings = ⟨w.settings.layers.refreshed loaded, w.settings.files⟩ := by
  obtain ⟨c, c', f, -, hreached, hr, -⟩ := twoFiles_reload
  let w : Workspace := ⟨c, [.engine], .start [] .debug, []⟩
  have hreload : w.reload .idle firstFile = ({ w with settings := c' }, .error (.file f)) :=
    reload_error hr
  obtain ⟨-, -, -, loaded, -, -, -, hw', -⟩ := reload_failed hreached hreload
  exact ⟨w, _, f, hreached, hreload, rfl, loaded, congrArg settings hw'⟩

theorem reload_failed_keeps_first : ∃ (w w' : Workspace) (f : FileFault), w.settings.Reached ∧
    w.reload .idle firstFile = (w', .error (.file f)) ∧
    vaultText w.settings = some "one" ∧ vaultText w'.settings = some "three" := by
  obtain ⟨c, c', f, -, hreached, hr, hbefore, hafter⟩ := twoFiles_reload
  exact ⟨⟨c, [.engine], .start [] .debug, []⟩, _, f, hreached, reload_error hr, hbefore, hafter⟩

end NoteDecor.Workspace
