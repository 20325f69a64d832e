import NoteDecor.Proofs.Engine.Equations
import NoteDecor.Workspace

/-! Changes of settings: each first makes new settings and then tells the watchers, who leave the
settings and each other alone. -/

namespace NoteDecor

namespace Engine

variable {h : Host}

theorem read_rules (e : Engine) (path : String) : (e.read h path).1.rules = e.rules := by
  unfold read
  dsimp only
  split <;> rfl

theorem preload_rules (e : Engine) (path : String) : (e.preload h path).1.rules = e.rules := by
  have hr := read_rules (h := h) e path
  unfold preload
  cases hread : e.read h path with | mk e' result
  rw [hread] at hr
  cases result <;> exact hr

theorem preloadEach_rules (files : List (Rule × String)) (e : Engine) :
    (preloadEach h files e).1.rules = e.rules := by
  induction files generalizing e with
  | nil => rfl
  | cons file rest ih =>
    have hp := preload_rules (h := h) e file.2
    cases hpre : e.preload h file.2 with | mk e' result
    rw [hpre] at hp
    cases result with
    | ok source =>
      rw [preloadEach_cons_ok hpre]
      exact (ih e').trans hp
    | error stop =>
      cases stop with
      | load f =>
        -- a warning only adds to the journal
        rw [preloadEach_cons_load hpre]
        exact (ih _).trans hp
      | raised f =>
        rw [preloadEach_cons_stopped hpre nofun]
        exact hp
      | misuse m =>
        rw [preloadEach_cons_stopped hpre nofun]
        exact hp

theorem updateRules_rules (e : Engine) (rules : List Rule) :
    (e.updateRules h rules).1.rules = rules := by
  have hp := preloadEach_rules (h := h) (newFiles e.rules rules) { e with rules }
  unfold updateRules
  rcases preloadFiles_engine h (newFiles e.rules rules) { e with rules }
    with heq | ⟨loaded, failed, heq⟩ <;> rw [heq]
  · exact hp
  · exact hp

end Engine

def Host.idle : Host :=
  ⟨fun _ _ _ => .ok "", fun _ _ _ => .error (.told ⟨.unusable, ""⟩), .queued⟩

namespace Workspace

/-- A call that changes the settings. A reload finds the files as they are on the disk. -/
inductive Change where
  | set (key : String) (v : Value) (s : Settings.Source)
  | replace (v : Value) (s : Settings.Source)
  | reload (d : Disk)

/-- The settings that a change leaves, before anyone is told. -/
def Change.made (c : Settings) : Change → Settings × Except Fault Unit
  | .set key v s =>
    match c.put key v s with
    | .error f => (c, .error (.path f))
    | .ok c => (c, .ok ())
  | .replace v s => ({ c with layers := c.layers.set s v }, .ok ())
  | .reload d =>
    match c.reloadFiles d with
    | (c, .error f) => (c, .error (.file f))
    | (c, .ok ()) => (c, .ok ())

def apply (h : Host) (w : Workspace) : Change → Workspace × Except Fault Unit
  | .set key v s => w.set h key v s
  | .replace v s => w.replace h v s
  | .reload d => w.reload h d

/-- Changes one after the other, whether or not they raise. -/
def run (h : Host) (w : Workspace) (xs : List Change) : Workspace :=
  xs.foldl (fun w x => (w.apply h x).1) w

variable {h : Host}

theorem apply_eq (w : Workspace) (x : Change) :
    w.apply h x = match x.made w.settings with
      | (settings, .ok ()) => { w with settings }.notify h
      | (settings, .error f) => ({ w with settings }, .error f) := by
  cases x with
  | set key v s =>
    simp only [apply, set, Change.made]
    cases w.settings.put key v s <;> rfl
  | replace v s => rfl
  | reload d =>
    simp only [apply, reload, Change.made]
    cases w.settings.reloadFiles d with | mk settings result
    cases result <;> rfl

theorem tell_frame (merged : Entries) (w : Workspace) (x : Watcher) :
    (w.tell h merged x).1.settings = w.settings ∧ (w.tell h merged x).1.watchers = w.watchers := by
  cases x <;> exact ⟨rfl, rfl⟩

theorem tellEach_frame (merged : Entries) (xs : List Watcher) (w : Workspace) :
    (tellEach h merged xs w).1.settings = w.settings ∧
    (tellEach h merged xs w).1.watchers = w.watchers := by
  induction xs generalizing w with
  | nil => exact ⟨rfl, rfl⟩
  | cons x xs ih =>
    obtain ⟨hs, hw⟩ := tell_frame (h := h) merged w x
    unfold tellEach
    cases ht : w.tell h merged x with | mk w' result
    rw [ht] at hs hw
    cases result with
    | error f => exact ⟨hs, hw⟩
    | ok u => exact ⟨(ih w').1.trans hs, (ih w').2.trans hw⟩

theorem notify_frame (w : Workspace) :
    (w.notify h).1.settings = w.settings ∧ (w.notify h).1.watchers = w.watchers := by
  unfold notify
  cases w.settings.layers.all with
  | error f => exact ⟨rfl, rfl⟩
  | ok merged => exact tellEach_frame merged w.watchers w

theorem apply_settings (w : Workspace) (x : Change) :
    (w.apply h x).1.settings = (x.made w.settings).1 := by
  rw [apply_eq]
  cases x.made w.settings with | mk settings result
  cases result with
  | error f => rfl
  | ok u => exact (notify_frame _).1

theorem apply_watchers (w : Workspace) (x : Change) : (w.apply h x).1.watchers = w.watchers := by
  rw [apply_eq]
  cases x.made w.settings with | mk settings result
  cases result with
  | error f => rfl
  | ok u => exact (notify_frame _).2

theorem run_watchers (w : Workspace) (xs : List Change) : (w.run h xs).watchers = w.watchers := by
  induction xs generalizing w with
  | nil => rfl
  | cons x xs ih => exact (ih _).trans (apply_watchers w x)

theorem apply_ok {w : Workspace} {x : Change} (hx : (w.apply h x).2 = .ok ()) :
    ∃ merged, (w.apply h x).1.settings.layers.all = .ok merged ∧
      w.apply h x = tellEach h merged w.watchers { w with settings := (x.made w.settings).1 } := by
  rw [apply_settings]
  rw [apply_eq] at hx ⊢
  cases hm : x.made w.settings with | mk settings result
  rw [hm] at hx
  cases result with
  | error f => cases hx
  | ok u =>
    simp only [notify] at hx ⊢
    cases hl : settings.layers.all with
    | error f =>
      rw [hl] at hx
      cases hx
    | ok merged => exact ⟨merged, rfl, rfl⟩

end Workspace

end NoteDecor
