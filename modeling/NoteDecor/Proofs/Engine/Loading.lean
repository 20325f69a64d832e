import NoteDecor.Proofs.Engine.Reading
import NoteDecor.Proofs.Engine.Equations
import NoteDecor.Proofs.Log.Journal

/-! What each step of an engine brings in and puts off: the readings by which it changes the cache
and the loads that it leaves pending. Nothing else that it does touches either. -/

namespace NoteDecor.Engine

open Reading

structure Brings (e e' : Engine) (rs : List Reading) (later : List String) : Prop where
  entries : e'.cache.entries = stored rs e.cache.entries
  jobs : e'.jobs = e.jobs ++ later
  threshold : e'.journal.threshold = e.journal.threshold
  rules : e'.rules = e.rules

namespace Brings

variable {e e₁ e₂ : Engine} {rs rs' : List Reading} {later later' : List String}

theorem nothing (hentries : e₁.cache.entries = e.cache.entries) (hjobs : e₁.jobs = e.jobs)
    (hthreshold : e₁.journal.threshold = e.journal.threshold) (hrules : e₁.rules = e.rules) :
    Brings e e₁ [] [] :=
  ⟨hentries, by rw [hjobs, List.append_nil], hthreshold, hrules⟩

theorem trans (h₁ : Brings e e₁ rs later) (h₂ : Brings e₁ e₂ rs' later') :
    Brings e e₂ (rs ++ rs') (later ++ later') where
  entries := by rw [h₂.entries, h₁.entries, stored_append]
  jobs := by rw [h₂.jobs, h₁.jobs, List.append_assoc]
  threshold := h₂.threshold.trans h₁.threshold
  rules := h₂.rules.trans h₁.rules

theorem before (h₁ : Brings e e₁ [] []) (h₂ : Brings e₁ e₂ rs later) : Brings e e₂ rs later :=
  h₁.trans h₂

theorem after (h₁ : Brings e e₁ rs later) (h₂ : Brings e₁ e₂ [] []) : Brings e e₂ rs later := by
  have h := h₁.trans h₂
  rwa [List.append_nil, List.append_nil] at h

end Brings

variable {h : Host}

theorem note_brings (e : Engine) (level : Log.Level) (message : String) (own : Log.Context) :
    Brings e (e.note level message own) [] [] := .nothing rfl rfl (by simp [note]) rfl

theorem ask_brings (e : Engine) (path : String) :
    Brings e { e with reads := e.reads ++ [path] } [] [] := .nothing rfl rfl rfl rfl

def preloaded (h : Host) (e : Engine) (path : String) : List Reading :=
  match h.read e.journal.records e.reads.length path with
  | .ok source => [.preloaded path source]
  | .error _ => []

def fetched (h : Host) (e : Engine) (path : String) : List Reading :=
  match e.cache.find? path with
  | some source => [.fetched path source]
  | none =>
    match h.read e.journal.records e.reads.length path with
    | .ok source => [.fetched path source]
    | .error _ => []

theorem keep_brings {e : Engine} {path source : String} {r : Reading}
    (hr : r.storeIn e.cache.entries = SourceCache.put path source e.cache.entries)
    (note : String) : Brings e (e.keep path source note) [r] [] := by
  have hstore : Brings e { e with cache := e.cache.store path source } [r] [] :=
    ⟨hr.symm, (List.append_nil _).symm, rfl, rfl⟩
  exact hstore.after (note_brings ..)

theorem preload_brings (e : Engine) (path : String) :
    Brings e (e.preload h path).1 (e.preloaded h path) [] := by
  have hask := ask_brings e path
  unfold preloaded preload read
  dsimp only
  cases h.read e.journal.records e.reads.length path with
  | error f => exact hask
  | ok source => exact hask.before (keep_brings rfl _)

theorem load_brings (e : Engine) (path : String) :
    Brings e (e.load h path).1 (e.fetched h path) [] := by
  have hcount : Brings e { e with cache := e.cache.count path } [] [] :=
    .nothing (by simp) rfl rfl rfl
  unfold fetched load
  cases hf : e.cache.find? path with
  | some source =>
    -- what is held stays
    have hs : (Reading.fetched path source).storeIn e.cache.entries = e.cache.entries := by
      rw [storeIn, if_pos (by rw [← SourceCache.find?_eq, hf]; rfl)]
    exact hcount.before ⟨by simpa [stored] using hs.symm, by simp, rfl, rfl⟩
  | none =>
    have hask := hcount.before (ask_brings _ path)
    unfold read
    dsimp only
    cases h.read e.journal.records e.reads.length path with
    | error f => exact hask
    | ok source =>
      refine hask.before (keep_brings ?_ _)
      rw [storeIn, if_neg]
      rw [hask.entries, stored, List.foldl_nil, ← SourceCache.find?_eq, hf]
      exact Bool.false_ne_true

theorem runJob_brings (e : Engine) (path : String) :
    Brings e (e.runJob h path).1 (e.fetched h path) [] := by
  have hload := load_brings (h := h) e path
  rcases runJob_engine h e path with heq | ⟨f, heq⟩ <;> rw [heq]
  · exact hload
  · exact hload.after (note_brings ..)

theorem runApart_brings (e : Engine) (path : String) :
    Brings e (e.runApart h path) (e.fetched h path) [] := by
  have hjob := runJob_brings (h := h) { e with journal := { e.journal with contexts := [] } } path
  exact ⟨hjob.entries, hjob.jobs, hjob.threshold, hjob.rules⟩

def fetchedNow (h : Host) (e : Engine) (path : String) : List Reading :=
  if h.schedule = .queued then [] else e.fetched h path

def putOff (h : Host) (path : String) : List String :=
  if h.schedule = .queued then [path] else []

theorem loadInBackground_brings (e : Engine) (path : String) :
    Brings e (e.loadInBackground h path).1 (e.fetchedNow h path) (putOff h path) := by
  unfold loadInBackground fetchedNow putOff
  cases h.schedule with
  | queued => exact ⟨rfl, rfl, rfl, rfl⟩
  | inline => exact runJob_brings e path
  | apart => exact runApart_brings e path

def preloads (h : Host) : List (Rule × String) → Engine → List Reading
  | [], _ => []
  | (r, path) :: rest, e =>
    e.preloaded h path ++ match e.preload h path with
      | (e, .ok _) => preloads h rest e
      | (e, .error (.load f)) => preloads h rest (e.warn ⟨r.name, path, f.detail⟩)
      | (_, .error _) => []

theorem warn_brings (e : Engine) (w : Warning) : Brings e (e.warn w) [] [] := note_brings ..

theorem preloadEach_brings (files : List (Rule × String)) (e : Engine) :
    Brings e (preloadEach h files e).1 (preloads h files e) [] := by
  induction files generalizing e with
  | nil => exact .nothing rfl rfl rfl rfl
  | cons file rest ih =>
    have hpre := preload_brings (h := h) e file.2
    rw [preloads]
    cases hp : e.preload h file.2 with | mk e' result
    rw [hp] at hpre
    cases result with
    | ok source =>
      rw [preloadEach_cons_ok hp]
      exact hpre.trans (ih e')
    | error stop =>
      cases stop with
      | load f =>
        rw [preloadEach_cons_load hp]
        exact hpre.trans ((warn_brings ..).before (ih _))
      | raised f =>
        rw [preloadEach_cons_stopped hp nofun]
        simpa using hpre
      | misuse m =>
        rw [preloadEach_cons_stopped hp nofun]
        simpa using hpre

theorem preloadFiles_brings (files : List (Rule × String)) (e : Engine) :
    Brings e (preloadFiles h files e).1 (preloads h files e) [] := by
  have heach := preloadEach_brings (h := h) files e
  rcases preloadFiles_engine h files e with heq | ⟨loaded, failed, heq⟩ <;> rw [heq]
  · exact heach
  · exact heach.after (note_brings ..)

def sought? (e : Engine) (r : Rule) : Option String :=
  r.filePath?.filter fun path => (e.cache.find? path).isNone

def asking (e : Engine) (path : String) : Engine :=
  { e with
    cache := e.cache.count path
    tally := ⟨e.tally.evaluations + 1, e.tally.misses + 1, e.tally.failures⟩ }.note .warning
      "File not cached, loading asynchronously" [("file_path", .text path)]

def entering (e : Engine) (r : Rule) : Engine :=
  { e with journal := e.journal.enter [("rule_id", .text r.id), ("rule_name", .text r.name)] }

def soughtNow (h : Host) (e : Engine) (r : Rule) : List Reading :=
  match e.sought? r with
  | some path => (e.asking path).fetchedNow h path
  | none => []

def soughtLater (h : Host) (e : Engine) (r : Rule) : List String :=
  match e.sought? r with
  | some path => putOff h path
  | none => []

theorem evaluateFile_missing {e : Engine} {path : String} (hf : e.cache.find? path = none)
    (s : Snapshot) : e.evaluateFile h path s = match (e.asking path).loadInBackground h path with
      | (e, .ok ()) => (e, .ok none)
      | (e, .error stop) => (e, .error stop) := by
  unfold evaluateFile
  simp only [hf]
  rfl

theorem asking_brings (e : Engine) (path : String) : Brings e (e.asking path) [] [] :=
  .nothing (by simp [asking, note]) rfl (by simp [asking, note]) rfl

theorem evaluateSource_brings (e : Engine) (path source : String) (s : Snapshot) :
    Brings e (e.evaluateSource h path source s).1 [] [] := by
  unfold evaluateSource
  split
  · exact note_brings ..
  · exact .nothing rfl rfl rfl rfl
  · exact .nothing rfl rfl rfl rfl
  · exact .nothing rfl rfl rfl rfl
  · exact .nothing rfl rfl (by simp) rfl

theorem evaluateCriteria_brings (e : Engine) (c : Criteria) (s : Snapshot) :
    Brings e (e.evaluateCriteria c s).1 [] [] := by
  unfold evaluateCriteria
  dsimp only
  split
  · exact .nothing rfl rfl rfl rfl
  · exact note_brings ..

theorem evaluateRule_brings (e : Engine) (r : Rule) (s : Snapshot) :
    Brings e (e.evaluateRule h r s).1 (e.soughtNow h r) (e.soughtLater h r) := by
  unfold evaluateRule soughtNow soughtLater sought? Rule.filePath?
  cases r.config with
  | criteria c => exact evaluateCriteria_brings e c s
  | unrecognized type options => exact note_brings ..
  | functionFile path =>
    cases hf : e.cache.find? path with
    | some source =>
      have hcount : Brings e { e with
          tally := { e.tally with evaluations := e.tally.evaluations + 1 }
          cache := e.cache.count path } [] [] := .nothing (by simp) rfl rfl rfl
      simp only [Option.filter_some, hf, Option.isNone_some, Bool.false_eq_true, if_false,
        evaluateFile]
      exact hcount.before (evaluateSource_brings ..)
    | none =>
      have hasked := loadInBackground_brings (h := h) (e.asking path) path
      simp only [Option.filter_some, hf, Option.isNone_none, if_true, evaluateFile_missing hf]
      cases hl : (e.asking path).loadInBackground h path with | mk e' result
      rw [hl] at hasked
      cases result <;> exact (asking_brings e path).before hasked

theorem evaluateWithin_brings (e : Engine) (r : Rule) (s : Snapshot) :
    Brings e (e.evaluateWithin h r s).1 ((e.entering r).soughtNow h r)
      ((e.entering r).soughtLater h r) := by
  have hrule := evaluateRule_brings (h := h) (e.entering r) r s
  exact ⟨hrule.entries, hrule.jobs, hrule.threshold, hrule.rules⟩

theorem noteApplied_brings (e : Engine) (r : Rule) (s : Snapshot) (o : Outcome) :
    Brings e (e.noteApplied r s o).1 [] [] := by
  unfold noteApplied
  split
  · exact .nothing rfl rfl rfl rfl
  · split
    · exact .nothing rfl rfl rfl rfl
    · exact note_brings ..

theorem evaluateEnabled_brings (e : Engine) (r : Rule) (s : Snapshot) :
    Brings e (e.evaluateEnabled h r s).1 ((e.entering r).soughtNow h r)
      ((e.entering r).soughtLater h r) := by
  have hwithin := evaluateWithin_brings (h := h) e r s
  rcases evaluateEnabled_engine h e r s with heq | ⟨o, heq⟩ <;> rw [heq]
  · exact hwithin
  · exact hwithin.after (noteApplied_brings _ r s o)

def visits (h : Host) (s : Snapshot) : List Rule → Engine → List (Engine × Rule)
  | [], _ => []
  | r :: rs, e =>
    if r.enabled then
      (e.entering r, r) :: match e.evaluateEnabled h r s with
        | (e, .ok _) => visits h s rs e
        | (_, .error _) => []
    else visits h s rs e

section Visits

variable {r : Rule} {s : Snapshot} {e : Engine}

theorem visits_disabled (hr : ¬r.enabled = true) (s : Snapshot) (rs : List Rule) (e : Engine) :
    visits h s (r :: rs) e = visits h s rs e := by
  rw [visits, if_neg hr]

theorem visits_cons (hr : r.enabled = true) {v : Evaluation}
    (hv : (e.evaluateEnabled h r s).2 = .ok v) (rs : List Rule) :
    visits h s (r :: rs) e =
      (e.entering r, r) :: visits h s rs (e.evaluateEnabled h r s).1 := by
  rw [visits, if_pos hr]
  cases hw : e.evaluateEnabled h r s with | mk e' result
  rw [hw] at hv
  obtain rfl : result = .ok v := hv
  rfl

theorem visits_stopped (hr : r.enabled = true) {stop : Stop}
    (hv : (e.evaluateEnabled h r s).2 = .error stop) (rs : List Rule) :
    visits h s (r :: rs) e = [(e.entering r, r)] := by
  rw [visits, if_pos hr]
  cases hw : e.evaluateEnabled h r s with | mk e' result
  rw [hw] at hv
  obtain rfl : result = .error stop := hv
  rfl

end Visits

def passReadings (h : Host) (s : Snapshot) (rules : List Rule) (e : Engine) : List Reading :=
  (visits h s rules e).flatMap fun v => v.1.soughtNow h v.2

def passLater (h : Host) (s : Snapshot) (rules : List Rule) (e : Engine) : List String :=
  (visits h s rules e).flatMap fun v => v.1.soughtLater h v.2

theorem evaluateAll_brings (s : Snapshot) (rules : List Rule) (e : Engine) :
    Brings e (evaluateAll h s rules e).1 (passReadings h s rules e) (passLater h s rules e) := by
  unfold passReadings passLater
  induction rules generalizing e with
  | nil => exact .nothing rfl rfl rfl rfl
  | cons r rs ih =>
    by_cases hr : r.enabled
    · have hone := evaluateEnabled_brings (h := h) e r s
      cases hv : (e.evaluateEnabled h r s).2 with
      | error stop =>
        rw [evaluateAll_cons_stopped hr hv, visits_stopped hr hv]
        simpa using hone
      | ok v =>
        rw [evaluateAll_cons_engine hr hv, visits_cons hr hv]
        exact hone.trans (ih _)
    · rw [evaluateAll_disabled hr, visits_disabled hr]
      exact ih e

end NoteDecor.Engine
