import NoteDecor.Proofs.Workspace.Following

/-! An engine that watches the settings more than once. Unwatching ends one watch only, so that the
engine stops following when as many watches have ended as were begun, and not before. -/

namespace NoteDecor.Workspace
open Settings Value

variable {h : Host}

/-- Calls for one engine, with changes of the settings between them. -/
inductive Call where
  | watch
  | unwatch
  | change (x : Change)

def call (h : Host) (w : Workspace) : Call → Workspace
  | .watch => w.watch .engine
  | .unwatch => w.unwatch .engine
  | .change x => (w.apply h x).1

def calls (h : Host) (w : Workspace) (xs : List Call) : Workspace := xs.foldl (call h) w

def Call.left (n : Nat) : Call → Nat
  | .watch => n + 1
  | .unwatch => n - 1
  | .change _ => n

/-- How many watches are left after some calls. -/
def watchesLeft (n : Nat) (xs : List Call) : Nat := xs.foldl Call.left n

theorem count_call (w : Workspace) (x : Call) :
    (w.call h x).watchers.count .engine = x.left (w.watchers.count .engine) := by
  cases x with
  | watch => exact List.count_append.trans (congrArg _ List.count_singleton_self)
  | unwatch => exact List.count_erase_self
  | change x => exact congrArg (List.count Watcher.engine) (apply_watchers w x)

theorem count_calls (w : Workspace) (xs : List Call) :
    (w.calls h xs).watchers.count .engine = watchesLeft (w.watchers.count .engine) xs := by
  induction xs generalizing w with
  | nil => rfl
  | cons x xs ih => exact (ih _).trans (congrArg (watchesLeft · xs) (count_call w x))

theorem mem_watchers_call {x : Watcher} (hx : x ≠ .engine) (w : Workspace) (y : Call) :
    x ∈ (w.call h y).watchers ↔ x ∈ w.watchers := by
  cases y with
  | watch => simp [call, Workspace.watch, hx]
  | unwatch => exact List.mem_erase_of_ne hx
  | change y => rw [call, apply_watchers]

theorem mem_watchers_calls {x : Watcher} (hx : x ≠ .engine) (w : Workspace) (ys : List Call) :
    x ∈ (w.calls h ys).watchers ↔ x ∈ w.watchers := by
  induction ys generalizing w with
  | nil => rfl
  | cons y ys ih => exact (ih _).trans (mem_watchers_call hx w y)

theorem count_start {c : Settings} {threshold : Log.Level} {w : Workspace}
    (hw : start c threshold = .ok w) : w.watchers.count .engine = 1 := by
  obtain ⟨rules, -, he⟩ := bind_eq_ok.1 hw
  cases he
  rfl

theorem apply_engine_of_not_mem {w : Workspace} (hw : Watcher.engine ∉ w.watchers) (x : Change) :
    (w.apply h x).1.engine = w.engine := by
  rw [apply_eq]
  cases x.made w.settings with | mk settings result
  cases result with
  | error f => rfl
  | ok u =>
    unfold notify
    dsimp only
    cases settings.layers.all with
    | error f => rfl
    | ok merged => exact tellEach_engine_of_not_mem _ hw

theorem run_engine_of_not_mem {w : Workspace} (hw : Watcher.engine ∉ w.watchers)
    (ys : List Change) : (w.run h ys).engine = w.engine := by
  induction ys generalizing w with
  | nil => rfl
  | cons y ys ih =>
    have hstill : Watcher.engine ∉ (w.apply h y).1.watchers := by rwa [apply_watchers]
    exact (ih hstill).trans (apply_engine_of_not_mem hw y)

theorem tellEach_adopts {merged : Entries} {v : Value} (hv : rulesOf merged = .ok v)
    {xs : List Watcher} (hx : Watcher.engine ∈ xs)
    (hquiet : ∀ name, Watcher.listener name true ∉ xs) (w : Workspace) :
    (tellEach h merged xs w).1.engine.rules = adopted w.engine.rules v := by
  induction xs generalizing w with
  | nil => cases hx
  | cons x xs ih =>
    have hrest (name : String) : Watcher.listener name true ∉ xs :=
      List.not_mem_of_not_mem_cons (hquiet name)
    simp only [tellEach]
    cases x with
    | listener name raises =>
      have hxs : Watcher.engine ∈ xs := (List.mem_cons.1 hx).resolve_left fun he => by cases he
      cases raises with
      | true => exact absurd List.mem_cons_self (hquiet name)
      | false => exact ih hxs hrest _
    | engine =>
      have hrules := follow_rules (h := h) (e := w.engine) hv
      cases hf : follow h w.engine merged with | mk e result
      rw [hf] at hrules
      simp only [tell, hf]
      cases result with
      | error f => exact hrules
      | ok u =>
        -- an engine that is told once more adopts the same rules again
        by_cases hxs : Watcher.engine ∈ xs
        · refine (ih hxs hrest _).trans ?_
          dsimp only at hrules ⊢
          rw [hrules, adopted_adopted]
        · rw [tellEach_engine_of_not_mem _ hxs]
          exact hrules

theorem run_settings (w : Workspace) (xs : List Change) :
    (w.run h xs).settings = xs.foldl (fun c x => (x.made c).1) w.settings := by
  induction xs generalizing w with
  | nil => rfl
  | cons x xs ih =>
    rw [List.foldl_cons, ← apply_settings (h := h)]
    exact ih _

def clearing : List Change :=
  [.replace (map []) .defaults, .replace (map []) .file, .replace (map []) .environment,
    .replace (map []) .arguments]

def handed (v : Value) : Layers
  | .runtime => some (.record [(root, .record [("rules", v)])])
  | _ => some (map [])

theorem all_handed (v : Value) :
    (handed v).all = .ok [(.text root, .record [("rules", v)])] := rfl

theorem rulesOf_handed (v : Value) :
    rulesOf [(.text root, .record [("rules", v)])] = .ok v := rfl

def handing (v : Value) : Change := .replace (.record [(root, .record [("rules", v)])]) .runtime

theorem made_handing (w : Workspace) (v : Value) :
    (handing v).made (w.run h clearing).settings = (⟨handed v, w.settings.files⟩, .ok ()) := by
  have hlayers : ((handing v).made (w.run h clearing).settings).1.layers = handed v := by
    rw [run_settings]
    funext s
    cases s <;> rfl
  rw [← hlayers, run_settings]
  rfl

theorem apply_handing {w : Workspace} (hw : Watcher.engine ∈ w.watchers)
    (hquiet : ∀ name, Watcher.listener name true ∉ w.watchers) {v : Value} {rules : List Rule}
    (hv : Rule.listOfValue v = .ok rules) :
    ((w.run h clearing).apply h (handing v)).1.engine.rules = rules := by
  rw [apply_eq, made_handing]
  dsimp only
  rw [notify, all_handed]
  dsimp only
  rw [run_watchers, tellEach_adopts (rulesOf_handed v) hw hquiet, adopted, hv]

/-- An engine watches once from its start on. Where no watch is left, nothing of it changes any
more. Where one is left, and no other watcher raises, it can still be given any rules there are. -/
theorem calls_watched (w : Workspace) (xs : List Call) :
    (∀ c threshold, start c threshold = .ok w → w.watchers.count .engine = 1) ∧
    (watchesLeft (w.watchers.count .engine) xs = 0 →
      ∀ ys, ((w.calls h xs).run h ys).engine = (w.calls h xs).engine) ∧
    (0 < watchesLeft (w.watchers.count .engine) xs →
      (∀ name, Watcher.listener name true ∉ w.watchers) →
      ∀ v rules, Rule.listOfValue v = .ok rules →
        ∃ ys, ((w.calls h xs).run h ys).engine.rules = rules) := by
  have hcount := count_calls (h := h) w xs
  refine ⟨fun c threshold => count_start, fun hnone ys => ?_,
    fun hleft hquiet v rules hv => ⟨clearing ++ [handing v], ?_⟩⟩
  · refine run_engine_of_not_mem ?_ ys
    rw [← List.count_eq_zero, hcount, hnone]
  · have hwatched : Watcher.engine ∈ (w.calls h xs).watchers := by
      rw [← List.count_pos_iff, hcount]
      exact hleft
    have hstill (name : String) : Watcher.listener name true ∉ (w.calls h xs).watchers := by
      rw [mem_watchers_calls (by nofun)]
      exact hquiet name
    rw [run, List.foldl_append]
    exact apply_handing hwatched hstill hv

theorem calls_watched_once : oneRuleStarted.watchers.count .engine = 1 ∧
    ((oneRuleStarted.calls .idle [.unwatch]).run .idle [setRules (.list [])]).engine =
      (oneRuleStarted.calls .idle [.unwatch]).engine ∧
    ∃ ys, ((oneRuleStarted.calls .idle [.watch, .unwatch]).run .idle ys).engine.rules = [] := by
  obtain ⟨honce, hkept, -⟩ := calls_watched (h := .idle) oneRuleStarted [.unwatch]
  obtain ⟨-, -, htaken⟩ := calls_watched (h := .idle) oneRuleStarted [.watch, .unwatch]
  exact ⟨honce oneRule .critical oneRule_start, hkept (by decide) [setRules (.list [])],
    htaken (by decide) (fun name => by simp [oneRuleStarted]) (.list []) [] (by cbv)⟩

theorem calls_rewatched :
    (oneRuleStarted.calls .idle [.watch, .unwatch]).engine.rules = [workRule] ∧
    ((oneRuleStarted.calls .idle [.watch, .unwatch]).run .idle
      [setRules (.list [])]).engine.rules = [] := by
  refine ⟨by cbv, by cbv⟩

end NoteDecor.Workspace
