import NoteDecor.Proofs.Engine.Loading

/-! Runs of an engine: whatever its host calls, one call after the other, and in between the pending
loads, one at a time and in any order. What a run leaves in the cache follows from what it read. -/

namespace NoteDecor.Engine

open Reading

def runAt (h : Host) (e : Engine) (n : Nat) : Engine × Except Stop Unit :=
  match e.jobs[n]? with
  | none => (e, .ok ())
  | some path => { e with jobs := e.jobs.eraseIdx n }.runJob h path

inductive Act where
  | preloadRules
  | reloadFile (path : String)
  | updateRules (rules : List Rule)
  | setRules (rules : List Rule)
  | evaluate (s : Snapshot)
  | runAt (n : Nat)

def act (h : Host) (e : Engine) : Act → Engine
  | .preloadRules => (e.preloadRules h).1
  | .reloadFile path => (e.preload h path).1
  | .updateRules rules => (e.updateRules h rules).1
  | .setRules rules => { e with rules }
  | .evaluate s => (e.evaluate h s).1
  | .runAt n => (e.runAt h n).1

def run (h : Host) (e : Engine) (acts : List Act) : Engine := acts.foldl (act h) e

def readings (h : Host) (e : Engine) : Act → List Reading
  | .preloadRules => preloads h (functionRules e.rules) e
  | .reloadFile path => e.preloaded h path
  | .updateRules rules => preloads h (newFiles e.rules rules) { e with rules }
  | .setRules _ => []
  | .evaluate s => passReadings h s e.rules e
  | .runAt n =>
    match e.jobs[n]? with
    | none => []
    | some path => fetched h { e with jobs := e.jobs.eraseIdx n } path

def history (h : Host) : List Act → Engine → List Reading
  | [], _ => []
  | a :: acts, e => e.readings h a ++ history h acts (e.act h a)

variable {h : Host}

theorem act_entries (e : Engine) (a : Act) :
    (e.act h a).cache.entries = stored (e.readings h a) e.cache.entries := by
  cases a with
  | preloadRules => exact (preloadFiles_brings _ e).entries
  | reloadFile path => exact (preload_brings e path).entries
  | updateRules rules => exact (preloadFiles_brings _ { e with rules }).entries
  | setRules rules => rfl
  | evaluate s => exact (evaluateAll_brings s e.rules e).entries
  | runAt n =>
    simp only [act, runAt, readings]
    cases e.jobs[n]? with
    | none => rfl
    | some path => exact (runJob_brings { e with jobs := e.jobs.eraseIdx n } path).entries

theorem run_entries (e : Engine) (acts : List Act) :
    (e.run h acts).cache.entries = stored (history h acts e) e.cache.entries := by
  induction acts generalizing e with
  | nil => rfl
  | cons a acts ih =>
    have hs : e.run h (a :: acts) = (e.act h a).run h acts := rfl
    rw [hs, ih, act_entries, history, stored_append]

theorem find?_run (e : Engine) (acts : List Act) (path : String) :
    (e.run h acts).cache.find? path = (lastPreloaded? path (history h acts e)).or
      ((e.cache.find? path).or (firstFetched? path (history h acts e))) := by
  rw [SourceCache.find?_eq, run_entries, valueAt?_stored, ← SourceCache.find?_eq]

/-- A run of a new engine holds, for each path, the text of its latest successful preload, else of
its first successful load in the background, and lists each path once in the order of first reading.
So in all that follows no path is lost, no text changes without a reading of its path that succeeds,
and a preloaded text gives way only to another preload. -/
theorem run_cache (rules : List Rule) (threshold : Log.Level) (acts more : List Act) :
    let e := (start rules threshold).run h acts
    let past := history h acts (start rules threshold)
    (∀ path, e.cache.find? path = (lastPreloaded? path past).or (firstFetched? path past)) ∧
    e.cache.paths = (past.map Reading.path).eraseDups ∧ e.cache.paths.Nodup ∧
    (∀ path, (e.cache.find? path).isSome → ((e.run h more).cache.find? path).isSome) ∧
    (∀ path, (∀ x ∈ history h more e, x.path ≠ path) →
      (e.run h more).cache.find? path = e.cache.find? path) ∧
    ∀ path source, lastPreloaded? path past = some source →
      lastPreloaded? path (history h more e) = none →
      (e.run h more).cache.find? path = some source := by
  intro e past
  have hentries : e.cache.entries = stored past [] := run_entries (start rules threshold) acts
  have hlaw (path : String) :
      e.cache.find? path = (lastPreloaded? path past).or (firstFetched? path past) := by
    rw [SourceCache.find?_eq, hentries, valueAt?_stored]
    rfl
  refine ⟨hlaw, ?_, ?_, fun path hp => ?_, fun path hp => ?_, fun path source hp hm => ?_⟩
  · rw [SourceCache.paths, hentries, keys_stored]
  · rw [SourceCache.paths, hentries]
    exact nodup_keys_stored past List.nodup_nil
  · obtain ⟨source, hs⟩ := Option.isSome_iff_exists.1 hp
    rw [find?_run, hs, Option.some_or, Option.isSome_or, Option.isSome_some, Bool.or_true]
  · rw [find?_run, lastPreloaded?_of_not_mem hp, firstFetched?_of_not_mem hp, Option.none_or,
      Option.or_none]
  · rw [find?_run, hm, Option.none_or, hlaw, hp, Option.some_or, Option.some_or]

end NoteDecor.Engine
