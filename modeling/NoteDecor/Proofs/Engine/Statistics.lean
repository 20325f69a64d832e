import NoteDecor.Proofs.Engine.Runs
import NoteDecor.Proofs.Number.Proportion

/-! What the counts of an engine stand for. The events of a run are told from what its host is asked
and answers; every count of the engine is the number of events of one kind. -/

namespace NoteDecor

namespace SourceCache

variable (c : SourceCache) (path source : String)

theorem count_lookups : (c.count path).hits + (c.count path).misses = c.hits + c.misses + 1 := by
  unfold count
  split
  · exact Nat.add_right_comm c.hits 1 c.misses
  · rfl

@[simp] theorem count_writes : (c.count path).writes = c.writes := by
  unfold count
  split <;> rfl

@[simp] theorem count_size : (c.count path).size = c.size := by
  rw [size, size, count_entries]

theorem store_size_le : (c.store path source).size ≤ c.size + 1 := by
  have hkeys : ((put path source c.entries).map Prod.fst).length ≤ c.entries.length + 1 := by
    rw [put_eq_assign, keys_assign]
    split <;> simp
  rwa [List.length_map] at hkeys

theorem hitRate_eq :
    (c.hits + c.misses = 0 ∧ c.hitRate = .int 0) ∨
    (0 < c.hits + c.misses ∧ ∃ x : Binary64, c.hitRate = .float x ∧ x.isProportion = true) := by
  unfold hitRate
  dsimp only
  split
  · next hnone => exact .inl ⟨hnone, rfl⟩
  · next hsome =>
    have hlooks : 0 < c.hits + c.misses := Nat.pos_of_ne_zero hsome
    exact .inr ⟨hlooks, _, rfl, Binary64.isProportion_ofRatio hlooks (Nat.le_add_right ..)⟩

end SourceCache

namespace Engine

inductive Event where
  | read (path : String) (answer : Except Fault String)
  | evaluated (path : String)
  | failed (path : String)
  | handed (path : String)
  | ran (path : String)

namespace Event

def reading? : Event → Option (String × Except Fault String)
  | read path answer => some (path, answer)
  | _ => none

def isText : Event → Bool
  | read _ (.ok _) => true
  | _ => false

def isEvaluation : Event → Bool
  | evaluated _ => true
  | _ => false

def isFailure : Event → Bool
  | failed _ => true
  | _ => false

def isHandover : Event → Bool
  | handed _ => true
  | _ => false

def isRun : Event → Bool
  | ran _ => true
  | _ => false

end Event

def asked (h : Host) (e : Engine) (path : String) : List Event :=
  [.read path (h.read e.journal.records e.reads.length path)]

def jobEvents (h : Host) (e : Engine) (path : String) : List Event :=
  .ran path :: if (e.cache.find? path).isSome then [] else e.asked h path

def sourceEvents (h : Host) (e : Engine) (path source : String) (s : Snapshot) : List Event :=
  match Evaluation.run (h.function e.tally.evaluations source path) s with
  | .error (.failed _) | .error (.mute _) => [.failed path]
  | _ => []

def fileEvents (h : Host) (e : Engine) (path : String) (s : Snapshot) : List Event :=
  .evaluated path :: match e.cache.find? path with
    | some source => e.sourceEvents h path source s
    | none => .handed path ::
      if h.schedule = .queued then [] else (e.asking path).jobEvents h path

def ruleEvents (h : Host) (e : Engine) (r : Rule) (s : Snapshot) : List Event :=
  match r.filePath? with
  | some path => e.fileEvents h path s
  | none => []

def passEvents (h : Host) (s : Snapshot) (rules : List Rule) (e : Engine) : List Event :=
  (visits h s rules e).flatMap fun v => v.1.ruleEvents h v.2 s

def preloadEvents (h : Host) : List (Rule × String) → Engine → List Event
  | [], _ => []
  | (r, path) :: rest, e =>
    e.asked h path ++ match e.preload h path with
      | (e, .ok _) => preloadEvents h rest e
      | (e, .error (.load f)) => preloadEvents h rest (e.warn ⟨r.name, path, f.detail⟩)
      | (_, .error _) => []

def actEvents (h : Host) (e : Engine) : Act → List Event
  | .preloadRules => preloadEvents h (functionRules e.rules) e
  | .reloadFile path => e.asked h path
  | .updateRules rules => preloadEvents h (newFiles e.rules rules) { e with rules }
  | .setRules _ => []
  | .evaluate s => passEvents h s e.rules e
  | .runAt n =>
    match e.jobs[n]? with
    | none => []
    | some path => jobEvents h { e with jobs := e.jobs.eraseIdx n } path

def events (h : Host) : List Act → Engine → List Event
  | [], _ => []
  | a :: acts, e => e.actEvents h a ++ events h acts (e.act h a)

structure Accounts (h : Host) (e e' : Engine) (es : List Event) : Prop where
  writes : e'.cache.writes = e.cache.writes + es.countP Event.isText
  size : e'.cache.size ≤ e.cache.size + es.countP Event.isText
  lookups : e'.cache.hits + e'.cache.misses =
    e.cache.hits + e.cache.misses + (es.countP Event.isEvaluation + es.countP Event.isRun)
  evaluations : e'.tally.evaluations = e.tally.evaluations + es.countP Event.isEvaluation
  misses : e'.tally.misses = e.tally.misses + es.countP Event.isHandover
  failures : e'.tally.failures = e.tally.failures + es.countP Event.isFailure
  atMostOne : es.countP Event.isHandover + es.countP Event.isFailure ≤ es.countP Event.isEvaluation
  pending : e'.jobs.length + es.countP Event.isRun = e.jobs.length + es.countP Event.isHandover
  reads : e'.reads = e.reads ++ (es.filterMap Event.reading?).map Prod.fst
  answers : ∀ i r, (es.filterMap Event.reading?)[i]? = some r →
    ∃ records, h.read records (e.reads.length + i) r.1 = r.2

namespace Accounts

variable {h : Host} {e e₁ e₂ : Engine} {es es' : List Event}

theorem nothing (hcache : e₁.cache = e.cache) (htally : e₁.tally = e.tally)
    (hjobs : e₁.jobs = e.jobs) (hreads : e₁.reads = e.reads) : Accounts h e e₁ [] where
  writes := congrArg SourceCache.writes hcache
  size := Nat.le_of_eq (congrArg SourceCache.size hcache)
  lookups := by rw [hcache]; rfl
  evaluations := congrArg Tally.evaluations htally
  misses := congrArg Tally.misses htally
  failures := congrArg Tally.failures htally
  atMostOne := Nat.le_refl 0
  pending := congrArg List.length hjobs
  reads := by rw [hreads]; exact (List.append_nil _).symm
  answers := nofun

theorem trans (h₁ : Accounts h e e₁ es) (h₂ : Accounts h e₁ e₂ es') :
    Accounts h e e₂ (es ++ es') where
  writes := by rw [h₂.writes, h₁.writes, List.countP_append, Nat.add_assoc]
  size := by
    have hfirst := h₁.size
    have hsecond := h₂.size
    rw [List.countP_append]
    omega
  lookups := by
    rw [h₂.lookups, h₁.lookups, List.countP_append, List.countP_append]
    omega
  evaluations := by rw [h₂.evaluations, h₁.evaluations, List.countP_append, Nat.add_assoc]
  misses := by rw [h₂.misses, h₁.misses, List.countP_append, Nat.add_assoc]
  failures := by rw [h₂.failures, h₁.failures, List.countP_append, Nat.add_assoc]
  atMostOne := by
    have hfirst := h₁.atMostOne
    have hsecond := h₂.atMostOne
    simp only [List.countP_append]
    omega
  pending := by
    have hfirst := h₁.pending
    have hsecond := h₂.pending
    simp only [List.countP_append]
    omega
  reads := by
    rw [h₂.reads, h₁.reads, List.filterMap_append, List.map_append, List.append_assoc]
  -- a reading of the second run is counted from where the first one ended
  answers := by
    intro i r hr
    have hlength : e₁.reads.length = e.reads.length + (es.filterMap Event.reading?).length := by
      rw [h₁.reads, List.length_append, List.length_map]
    rw [List.filterMap_append, List.getElem?_append] at hr
    split at hr
    · exact h₁.answers i r hr
    · next hi =>
      obtain ⟨records, hrecords⟩ := h₂.answers _ r hr
      refine ⟨records, ?_⟩
      rwa [hlength, Nat.add_assoc, Nat.add_sub_cancel' (Nat.le_of_not_lt hi)] at hrecords

theorem after (h₁ : Accounts h e e₁ es) (h₂ : Accounts h e₁ e₂ []) : Accounts h e e₂ es := by
  have hboth := h₁.trans h₂
  rwa [List.append_nil] at hboth

theorem of_jobs {jobs : List String} (hjobs : jobs.length = e.jobs.length)
    (ha : Accounts h { e with jobs } e₁ es) : Accounts h e e₁ es :=
  ⟨ha.writes, ha.size, ha.lookups, ha.evaluations, ha.misses, ha.failures, ha.atMostOne,
    ha.pending.trans (congrArg (· + _) hjobs), ha.reads, ha.answers⟩

end Accounts

variable {h : Host}

theorem note_accounts (e : Engine) (level : Log.Level) (message : String) (own : Log.Context) :
    Accounts h e (e.note level message own) [] := .nothing rfl rfl rfl rfl

theorem looked_accounts (e : Engine) (path : String) {tally : Tally} {jobs : List String}
    {es : List Event} (journal : Log.Journal) (hread : es.filterMap Event.reading? = [])
    (htext : es.countP Event.isText = 0)
    (hlook : es.countP Event.isEvaluation + es.countP Event.isRun = 1)
    (htally : tally = ⟨e.tally.evaluations + es.countP Event.isEvaluation,
      e.tally.misses + es.countP Event.isHandover, e.tally.failures + es.countP Event.isFailure⟩)
    (hmost : es.countP Event.isHandover + es.countP Event.isFailure ≤
      es.countP Event.isEvaluation)
    (hjobs : jobs.length + es.countP Event.isRun = e.jobs.length + es.countP Event.isHandover) :
    Accounts h e { e with cache := e.cache.count path, tally, jobs, journal } es where
  writes := by rw [SourceCache.count_writes, htext]; rfl
  size := by rw [SourceCache.count_size, htext]; exact Nat.le_refl _
  lookups := by rw [SourceCache.count_lookups, hlook]
  evaluations := congrArg Tally.evaluations htally
  misses := congrArg Tally.misses htally
  failures := congrArg Tally.failures htally
  atMostOne := hmost
  pending := hjobs
  reads := by rw [hread]; exact (List.append_nil _).symm
  answers := by rw [hread]; nofun

theorem answers_singleton {e : Engine} {path : String} {answer : Except Fault String}
    (ha : h.read e.journal.records e.reads.length path = answer) (i : Nat)
    (r : String × Except Fault String) (hr : [(path, answer)][i]? = some r) :
    ∃ records, h.read records (e.reads.length + i) r.1 = r.2 := by
  cases i with
  | zero =>
    cases hr
    exact ⟨_, ha⟩
  | succ i => cases hr

theorem refused_accounts {e : Engine} {path : String} {f : Fault}
    (hr : h.read e.journal.records e.reads.length path = .error f) :
    Accounts h e { e with reads := e.reads ++ [path] } [.read path (.error f)] :=
  ⟨rfl, Nat.le_refl _, rfl, rfl, rfl, rfl, Nat.le_refl _, rfl, rfl, answers_singleton hr⟩

theorem kept_accounts {e : Engine} {path source : String}
    (hr : h.read e.journal.records e.reads.length path = .ok source) (note : String) :
    Accounts h e ({ e with reads := e.reads ++ [path] }.keep path source note)
      [.read path (.ok source)] :=
  ⟨rfl, SourceCache.store_size_le .., rfl, rfl, rfl, rfl, Nat.le_refl _, rfl, rfl,
    answers_singleton hr⟩

theorem preload_accounts (e : Engine) (path : String) :
    Accounts h e (e.preload h path).1 (e.asked h path) := by
  unfold preload read asked
  dsimp only
  cases hr : h.read e.journal.records e.reads.length path with
  | error f => exact refused_accounts hr
  | ok source => exact kept_accounts hr _

theorem taken_accounts (e : Engine) (path : String) :
    Accounts h { e with jobs := path :: e.jobs } { e with cache := e.cache.count path }
      [.ran path] :=
  looked_accounts { e with jobs := path :: e.jobs } path e.journal rfl rfl rfl rfl
    (Nat.le_refl 0) rfl

theorem load_accounts (e : Engine) (path : String) :
    Accounts h { e with jobs := path :: e.jobs } (e.load h path).1 (e.jobEvents h path) := by
  have htaken : Accounts h { e with jobs := path :: e.jobs }
      { e with cache := e.cache.count path } [.ran path] := taken_accounts e path
  unfold load jobEvents
  cases hf : e.cache.find? path with
  | some source => exact htaken
  | none =>
    unfold read asked
    dsimp only
    cases hr : h.read e.journal.records e.reads.length path with
    | error f =>
      exact htaken.trans (refused_accounts (e := { e with cache := e.cache.count path }) hr)
    | ok source =>
      exact htaken.trans (kept_accounts (e := { e with cache := e.cache.count path }) hr _)

theorem runJob_accounts (e : Engine) (path : String) :
    Accounts h { e with jobs := path :: e.jobs } (e.runJob h path).1 (e.jobEvents h path) := by
  have hload := load_accounts (h := h) e path
  rcases runJob_engine h e path with heq | ⟨f, heq⟩ <;> rw [heq]
  · exact hload
  · exact hload.after (note_accounts ..)

theorem runApart_accounts (e : Engine) (path : String) :
    Accounts h { e with jobs := path :: e.jobs } (e.runApart h path) (e.jobEvents h path) := by
  let apart := { e with journal := { e.journal with contexts := [] } }
  have hleft : Accounts h { e with jobs := path :: e.jobs }
      { apart with jobs := path :: apart.jobs } [] := .nothing rfl rfl rfl rfl
  have hjob : Accounts h { apart with jobs := path :: apart.jobs } (apart.runJob h path).1
      (e.jobEvents h path) := runJob_accounts apart path
  exact (hleft.trans hjob).after (.nothing rfl rfl rfl rfl)

theorem asking_accounts (e : Engine) (path : String) {jobs : List String}
    (hjobs : jobs.length = e.jobs.length + 1) :
    Accounts h e { e.asking path with jobs } [.evaluated path, .handed path] :=
  looked_accounts e path _ rfl rfl rfl rfl (Nat.le_refl 1) hjobs

theorem loadInBackground_accounts (e : Engine) (path : String) :
    Accounts h e ((e.asking path).loadInBackground h path).1
      (.evaluated path :: .handed path ::
        if h.schedule = .queued then [] else (e.asking path).jobEvents h path) := by
  have hwaiting : Accounts h e { e.asking path with jobs := path :: e.jobs }
      [.evaluated path, .handed path] := asking_accounts e path rfl
  unfold loadInBackground
  cases h.schedule with
  | queued => exact asking_accounts e path (List.length_append ..)
  | inline => exact hwaiting.trans (runJob_accounts (e.asking path) path)
  | apart => exact hwaiting.trans (runApart_accounts (e.asking path) path)

theorem completed_accounts (e : Engine) (path : String) (journal : Log.Journal) :
    Accounts h e
      { e with
        cache := e.cache.count path
        tally := { e.tally with evaluations := e.tally.evaluations + 1 }
        journal } [.evaluated path] :=
  looked_accounts e path journal rfl rfl rfl rfl (Nat.zero_le 1) rfl

theorem failed_accounts (e : Engine) (path : String) (journal : Log.Journal) :
    Accounts h e
      { e with
        cache := e.cache.count path
        tally := ⟨e.tally.evaluations + 1, e.tally.misses, e.tally.failures + 1⟩
        journal } [.evaluated path, .failed path] :=
  looked_accounts e path journal rfl rfl rfl rfl (Nat.le_refl 1) rfl

theorem evaluateFile_accounts (e : Engine) (path : String) (s : Snapshot) :
    Accounts h e (e.evaluateFile h path s).1 (e.fileEvents h path s) := by
  unfold fileEvents
  cases hf : e.cache.find? path with
  | none =>
    have hload := loadInBackground_accounts (h := h) e path
    rw [evaluateFile_missing hf]
    cases hl : (e.asking path).loadInBackground h path with | mk e' result
    rw [hl] at hload
    cases result <;> exact hload
  | some source =>
    unfold evaluateFile
    simp only [hf, evaluateSource, sourceEvents, Nat.add_sub_cancel]
    cases Evaluation.run (h.function e.tally.evaluations source path) s with
    | ok o => cases o <;> exact completed_accounts e path _
    | error f =>
      cases f with
      | failed c => exact failed_accounts e path _
      | mute asked => exact failed_accounts e path _
      | stopped f => exact completed_accounts e path _

theorem evaluateCriteria_accounts (e : Engine) (c : Criteria) (s : Snapshot) :
    Accounts h e (e.evaluateCriteria c s).1 [] := by
  unfold evaluateCriteria
  dsimp only
  split <;> exact .nothing rfl rfl rfl rfl

theorem evaluateRule_accounts (e : Engine) (r : Rule) (s : Snapshot) :
    Accounts h e (e.evaluateRule h r s).1 (e.ruleEvents h r s) := by
  unfold evaluateRule ruleEvents Rule.filePath?
  cases r.config with
  | criteria c => exact evaluateCriteria_accounts e c s
  | functionFile path => exact evaluateFile_accounts e path s
  | unrecognized type options => exact note_accounts ..

theorem evaluateWithin_accounts (e : Engine) (r : Rule) (s : Snapshot) :
    Accounts h e (e.evaluateWithin h r s).1 ((e.entering r).ruleEvents h r s) := by
  have hentered : Accounts h e (e.entering r) [] := .nothing rfl rfl rfl rfl
  have hrule : Accounts h (e.entering r) ((e.entering r).evaluateRule h r s).1
      ((e.entering r).ruleEvents h r s) := evaluateRule_accounts (e.entering r) r s
  exact (hentered.trans hrule).after (.nothing rfl rfl rfl rfl)

theorem noteApplied_accounts (e : Engine) (r : Rule) (s : Snapshot) (o : Outcome) :
    Accounts h e (e.noteApplied r s o).1 [] := by
  unfold noteApplied
  split
  · exact .nothing rfl rfl rfl rfl
  · split <;> exact .nothing rfl rfl rfl rfl

theorem evaluateEnabled_accounts (e : Engine) (r : Rule) (s : Snapshot) :
    Accounts h e (e.evaluateEnabled h r s).1 ((e.entering r).ruleEvents h r s) := by
  have hwithin := evaluateWithin_accounts (h := h) e r s
  rcases evaluateEnabled_engine h e r s with heq | ⟨o, heq⟩ <;> rw [heq]
  · exact hwithin
  · exact hwithin.after (noteApplied_accounts _ r s o)

theorem evaluateAll_accounts (s : Snapshot) (rules : List Rule) (e : Engine) :
    Accounts h e (evaluateAll h s rules e).1 (passEvents h s rules e) := by
  unfold passEvents
  induction rules generalizing e with
  | nil => exact .nothing rfl rfl rfl rfl
  | cons r rs ih =>
    by_cases hr : r.enabled
    · have hone := evaluateEnabled_accounts (h := h) e r s
      cases hv : (e.evaluateEnabled h r s).2 with
      | error stop =>
        rw [evaluateAll_cons_stopped hr hv, visits_stopped hr hv]
        simpa using hone
      | ok v =>
        rw [evaluateAll_cons_engine hr hv, visits_cons hr hv]
        exact hone.trans (ih _)
    · rw [evaluateAll_disabled hr, visits_disabled hr]
      exact ih e

theorem preloadEach_accounts (files : List (Rule × String)) (e : Engine) :
    Accounts h e (preloadEach h files e).1 (preloadEvents h files e) := by
  induction files generalizing e with
  | nil => exact .nothing rfl rfl rfl rfl
  | cons file rest ih =>
    have hpre := preload_accounts (h := h) e file.2
    rw [preloadEvents]
    cases hp : e.preload h file.2 with | mk e' result
    rw [hp] at hpre
    cases result with
    | ok source =>
      rw [preloadEach_cons_ok hp]
      exact hpre.trans (ih e')
    | error stop =>
      cases stop with
      | load f =>
        have hwarned : Accounts h e (e'.warn ⟨file.1.name, file.2, f.detail⟩) (e.asked h file.2) :=
          hpre.after (note_accounts ..)
        rw [preloadEach_cons_load hp]
        exact hwarned.trans (ih _)
      | raised f =>
        rw [preloadEach_cons_stopped hp nofun]
        simpa using hpre
      | misuse m =>
        rw [preloadEach_cons_stopped hp nofun]
        simpa using hpre

theorem preloadFiles_accounts (files : List (Rule × String)) (e : Engine) :
    Accounts h e (preloadFiles h files e).1 (preloadEvents h files e) := by
  have heach := preloadEach_accounts (h := h) files e
  rcases preloadFiles_engine h files e with heq | ⟨loaded, failed, heq⟩ <;> rw [heq]
  · exact heach
  · exact heach.after (note_accounts ..)

theorem act_accounts (e : Engine) (a : Act) : Accounts h e (e.act h a) (e.actEvents h a) := by
  cases a with
  | preloadRules => exact preloadFiles_accounts _ e
  | reloadFile path => exact preload_accounts e path
  | updateRules rules =>
    have hreplaced : Accounts h e { e with rules } [] := .nothing rfl rfl rfl rfl
    exact hreplaced.trans (preloadFiles_accounts _ { e with rules })
  | setRules rules => exact .nothing rfl rfl rfl rfl
  | evaluate s => exact evaluateAll_accounts s e.rules e
  | runAt n =>
    simp only [act, runAt, actEvents]
    cases hn : e.jobs[n]? with
    | none => exact .nothing rfl rfl rfl rfl
    | some path =>
      have hlt : n < e.jobs.length := (List.getElem?_eq_some_iff.1 hn).1
      have hlength : (path :: e.jobs.eraseIdx n).length = e.jobs.length := by
        rw [List.length_cons, List.length_eraseIdx_of_lt hlt]
        omega
      exact .of_jobs hlength (runJob_accounts { e with jobs := e.jobs.eraseIdx n } path)

theorem run_accounts (e : Engine) (acts : List Act) :
    Accounts h e (e.run h acts) (events h acts e) := by
  induction acts generalizing e with
  | nil => exact .nothing rfl rfl rfl rfl
  | cons a acts ih => exact (act_accounts e a).trans (ih (e.act h a))

/-- After any run of a new engine the writes of its cache are the readings that yielded a text, its
hits and misses together the evaluations of rule functions and the loads that ran, and the misses of
the evaluations the loads that were handed over, each of which has run or is pending. No evaluation
both misses and fails, no text is held that was not written, and the rate of hits is a proportion
wherever there was a look. The events are those of the host: the readings are the ones that it was
asked for, in this order and with its answers. -/
theorem run_statistics (h : Host) (rules : List Rule) (threshold : Log.Level) (acts : List Act) :
    let e := (start rules threshold).run h acts
    let past := events h acts (start rules threshold)
    e.cache.writes = past.countP Event.isText ∧
    e.cache.hits + e.cache.misses = past.countP Event.isEvaluation + past.countP Event.isRun ∧
    past.countP Event.isHandover = e.tally.misses ∧
    e.tally.evaluations = past.countP Event.isEvaluation ∧
    e.tally.failures = past.countP Event.isFailure ∧
    e.tally.misses + e.tally.failures ≤ e.tally.evaluations ∧
    e.cache.size ≤ e.cache.writes ∧
    ((e.cache.hits + e.cache.misses = 0 ∧ e.cache.hitRate = .int 0) ∨
      (0 < e.cache.hits + e.cache.misses ∧
        ∃ x : Binary64, e.cache.hitRate = .float x ∧ x.isProportion = true)) ∧
    e.jobs.length + past.countP Event.isRun = past.countP Event.isHandover ∧
    e.reads = (past.filterMap Event.reading?).map Prod.fst ∧
    ∀ i path answer, (past.filterMap Event.reading?)[i]? = some (path, answer) →
      ∃ records, h.read records i path = answer := by
  intro e past
  have ha : Accounts h (start rules threshold) e past := run_accounts (start rules threshold) acts
  have hwrites : e.cache.writes = past.countP Event.isText := ha.writes.trans (Nat.zero_add _)
  have hmisses : e.tally.misses = past.countP Event.isHandover := ha.misses.trans (Nat.zero_add _)
  have hfailures : e.tally.failures = past.countP Event.isFailure :=
    ha.failures.trans (Nat.zero_add _)
  have hevaluations : e.tally.evaluations = past.countP Event.isEvaluation :=
    ha.evaluations.trans (Nat.zero_add _)
  refine ⟨hwrites, ha.lookups.trans (Nat.zero_add _), hmisses.symm, hevaluations, hfailures, ?_, ?_,
    e.cache.hitRate_eq, ha.pending.trans (Nat.zero_add _), ha.reads, fun i path answer hi => ?_⟩
  · rw [hmisses, hfailures, hevaluations]
    exact ha.atMostOne
  · rw [hwrites]
    exact Nat.le_trans ha.size (Nat.le_of_eq (Nat.zero_add _))
  · obtain ⟨records, hr⟩ := ha.answers i (path, answer) hi
    refine ⟨records, ?_⟩
    rwa [show (start rules threshold).reads.length + i = i from Nat.zero_add i] at hr

end Engine

end NoteDecor
