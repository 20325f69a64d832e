import NoteDecor.Proofs.Engine.Naming
import NoteDecor.Proofs.Engine.Ordinary

/-! What an evaluation of a file that is held makes of the end of its function. Only an interrupt and
a closing are meant to reach the caller, and each other fault to be one failed evaluation, told once,
without an outcome of the rule. -/

namespace NoteDecor

namespace SourceCache

theorem count_of_find? {c : SourceCache} {path source : String} (h : c.find? path = some source) :
    c.count path = { c with hits := c.hits + 1 } := by
  have hcontains : c.contains path = true := by
    obtain ⟨entry, hentry, -⟩ := Option.map_eq_some_iff.1 h
    have hpath := List.find?_some hentry
    exact List.any_eq_true.2 ⟨entry, List.mem_of_find?_eq_some hentry, hpath⟩
  exact if_pos hcontains

end SourceCache

namespace Engine

open Evaluation

variable {h : Host} {e : Engine} {path source : String} {s : Snapshot}

def failureReport (e : Engine) (path : String) (c : Cause) : Log.Record :=
  .make .error "File function evaluation error" e.journal.contexts
    (Log.exceptionContext [("file_path", .text path)] "EvaluationError" c.message) true

theorem failureReport_context (e : Engine) (path : String) (c : Cause) :
    valueAt? "file_path" (e.failureReport path c).context = some (.text path) ∧
    valueAt? "exception_message" (e.failureReport path c).context = some (.text c.message) := by
  unfold failureReport
  rw [Log.Record.valueAt?_make, Log.Record.valueAt?_make]
  exact ⟨rfl, rfl⟩

def looked (e : Engine) : Engine :=
  { e with
    cache := { e.cache with hits := e.cache.hits + 1 }
    tally := { e.tally with evaluations := e.tally.evaluations + 1 } }

theorem evaluateFile_held (hf : e.cache.find? path = some source) (s : Snapshot) :
    e.evaluateFile h path s = e.looked.evaluateSource h path source s := by
  unfold evaluateFile
  simp only [hf, SourceCache.count_of_find? hf]
  rfl

theorem evaluateSource_failed {c : Cause}
    (hrun : Evaluation.run (h.function e.tally.evaluations source path) s = .error (.failed c)) :
    e.looked.evaluateSource h path source s =
      ({ e.looked with
        tally := { e.looked.tally with failures := e.tally.failures + 1 }
        journal := { e.journal with
          records := e.journal.records ++ if e.journal.threshold.admits .error
            then [e.failureReport path c] else [] } }, .ok none) := by
  unfold evaluateSource
  have hnumber : e.looked.tally.evaluations - 1 = e.tally.evaluations := Nat.add_sub_cancel ..
  rw [hnumber, hrun]
  dsimp only
  rw [Log.Journal.noteException, Log.Journal.add_eq]
  rfl

theorem evaluateSource_mute {asked : Fault}
    (hrun : Evaluation.run (h.function e.tally.evaluations source path) s = .error (.mute asked)) :
    e.looked.evaluateSource h path source s =
      ({ e.looked with
        tally := { e.looked.tally with failures := e.tally.failures + 1 } },
        .error (.raised asked)) := by
  unfold evaluateSource
  have hnumber : e.looked.tally.evaluations - 1 = e.tally.evaluations := Nat.add_sub_cancel ..
  rw [hnumber, hrun]
  rfl

theorem evaluateSource_unfailed
    (hrun : ¬ IsFailure (Evaluation.run (h.function e.tally.evaluations source path) s)) :
    ∃ new, (∀ record ∈ new, record.level ≠ .error) ∧
      e.looked.evaluateSource h path source s =
        ({ e.looked with journal := { e.journal with records := e.journal.records ++ new } },
          resultOf (Evaluation.run (h.function e.tally.evaluations source path) s)) := by
  unfold evaluateSource
  have hnumber : e.looked.tally.evaluations - 1 = e.tally.evaluations := Nat.add_sub_cancel ..
  rw [hnumber]
  generalize Evaluation.run (h.function e.tally.evaluations source path) s = ended at hrun
  cases ended with
  | ok o =>
    cases o with
    | none =>
      obtain ⟨new, hadd, hmade⟩ := e.looked.journal.exists_add .debug
        "Rule function returned no result" [("file_path", .text path)] false
      dsimp only
      rw [note, Log.Journal.note, hadd]
      refine ⟨new, ?_, rfl⟩
      intro record hrecord
      rw [hmade record hrecord]
      exact Log.Level.noConfusion
    | some o => exact ⟨[], List.forall_mem_nil _, by rw [List.append_nil]; rfl⟩
  | error f =>
    cases f with
    | failed c => exact absurd (.inl ⟨c, rfl⟩) hrun
    | mute asked => exact absurd (.inr ⟨asked, rfl⟩) hrun
    | stopped f => exact ⟨[], List.forall_mem_nil _, by rw [List.append_nil]; rfl⟩

/-- A function ends in one of the known ways, by where it fails and with which fault. If it is the
function of a file that is held, then its result, or none where it failed, or the fault that it let
out, is what the rule brings about; the evaluation and the look into the cache are counted, and a
failure, and no other end, is counted as one. It is told in one error record with the file's path,
unless asking for its text raises a fault, which then reaches the caller. Nothing else is changed. -/
theorem evaluateFile_classifies (hf : e.cache.find? path = some source) (s : Snapshot) :
    let ended := Evaluation.run (h.function e.tally.evaluations source path) s
    let left := (e.evaluateFile h path s).1
    (∀ function x, Evaluation.run function s = x ↔ Ends function s x) ∧
    (e.evaluateFile h path s).2 = resultOf ended ∧
    left.cache = { e.cache with hits := e.cache.hits + 1 } ∧
    left.tally.evaluations = e.tally.evaluations + 1 ∧ left.tally.misses = e.tally.misses ∧
    left.rules = e.rules ∧ left.jobs = e.jobs ∧ left.reads = e.reads ∧
    (∀ c, ended = .error (.failed c) → left.tally.failures = e.tally.failures + 1 ∧
      ∃ record : Log.Record, record.level = .error ∧
        valueAt? "file_path" record.context = some (.text path) ∧
        valueAt? "exception_message" record.context = some (.text c.message) ∧
        left.journal = { e.journal with
          records := e.journal.records ++ if e.journal.threshold.admits .error
            then [record] else [] }) ∧
    (∀ asked, ended = .error (.mute asked) →
      left.tally.failures = e.tally.failures + 1 ∧ left.journal = e.journal) ∧
    (¬ IsFailure ended → left.tally.failures = e.tally.failures ∧
      ∃ new, (∀ record ∈ new, record.level ≠ .error) ∧
        left.journal = { e.journal with records := e.journal.records ++ new }) := by
  intro ended left
  have hleft : left = (e.looked.evaluateSource h path source s).1 :=
    congrArg Prod.fst (evaluateFile_held hf s)
  rw [evaluateFile_held hf s]
  refine ⟨fun function x => run_eq_iff, ?_⟩
  -- only a failure is counted, and it is told if it can be
  by_cases hfailure : IsFailure ended
  · rcases hfailure with ⟨c, hc⟩ | ⟨asked, hasked⟩
    · rw [evaluateSource_failed hc] at hleft ⊢
      obtain ⟨hpath, hmessage⟩ := failureReport_context e path c
      rw [hleft, hc]
      refine ⟨rfl, rfl, rfl, rfl, rfl, rfl, rfl, ?_, nofun, fun hnot => absurd (.inl ⟨c, rfl⟩) hnot⟩
      rintro _ ⟨⟩
      exact ⟨rfl, e.failureReport path c, rfl, hpath, hmessage, rfl⟩
    · rw [evaluateSource_mute hasked] at hleft ⊢
      rw [hleft, hasked]
      refine ⟨rfl, rfl, rfl, rfl, rfl, rfl, rfl, nofun, ?_,
        fun hnot => absurd (.inr ⟨asked, rfl⟩) hnot⟩
      rintro _ ⟨⟩
      exact ⟨rfl, rfl⟩
  · obtain ⟨new, hnew, heq⟩ := evaluateSource_unfailed hfailure
    rw [heq] at hleft ⊢
    rw [hleft]
    exact ⟨rfl, rfl, rfl, rfl, rfl, rfl, rfl, fun c hc => absurd (.inl ⟨c, hc⟩) hfailure,
      fun asked ha => absurd (.inr ⟨asked, ha⟩) hfailure, fun _ => ⟨rfl, new, hnew, rfl⟩⟩

theorem evaluateFile_exiting :
    loaded.cache.find? "status.py" = some "" ∧
    (loaded.evaluateFile exiting "status.py" ⟨"x.md", "x", [], []⟩).2 = .ok none ∧
    (loaded.evaluateFile exiting "status.py" ⟨"x.md", "x", [], []⟩).1.tally.failures = 1 ∧
    ∃ record : Log.Record, record.level = .error ∧
      (loaded.evaluateFile exiting "status.py" ⟨"x.md", "x", [], []⟩).1.journal.records =
        [record] := by
  have hheld : loaded.cache.find? "status.py" = some "" := rfl
  obtain ⟨-, hresult, -, -, -, -, -, -, hfailed, -, -⟩ :=
    evaluateFile_classifies (h := exiting) hheld ⟨"x.md", "x", [], []⟩
  obtain ⟨hfailures, record, hlevel, -, -, hjournal⟩ := hfailed (.raised ⟨.exit, "3"⟩) rfl
  exact ⟨hheld, hresult, hfailures, record, hlevel, congrArg Log.Journal.records hjournal⟩

def numb : Host := ⟨fun _ _ _ => .ok "",
  fun _ _ _ => .ok fun _ => .error .overlong, .queued⟩

theorem evaluateFile_numb :
    loaded.cache.find? "status.py" = some "" ∧
    Evaluation.run (numb.function 0 "" "status.py") ⟨"x.md", "x", [], []⟩ =
      .error (.stopped .unwritable) ∧
    (loaded.evaluateFile numb "status.py" ⟨"x.md", "x", [], []⟩).2 =
      .error (.raised .unwritable) ∧
    (loaded.evaluateFile numb "status.py" ⟨"x.md", "x", [], []⟩).1.tally.failures = 0 := by
  have hraises (n : Nat) : Raises (numb.function n "" "status.py") ⟨"x.md", "x", [], []⟩ _ :=
    .calling rfl (congrArg Except.error Fault.overlong_eq)
  have hcontrol : ¬ IsControl (.named "ValueError") := by
    rintro (hk | hk) <;> cases hk
  have hrun (n : Nat) : Evaluation.run (numb.function n "" "status.py") ⟨"x.md", "x", [], []⟩ =
      .error (.stopped .unwritable) :=
    run_eq_iff.2 (.asked (hraises n) hcontrol Fault.Kind.noConfusion (.other Fault.Kind.noConfusion))
  have hheld : loaded.cache.find? "status.py" = some "" := rfl
  have hunfailed : ¬ IsFailure (Evaluation.run (numb.function loaded.tally.evaluations "" "status.py")
      ⟨"x.md", "x", [], []⟩) := by
    rw [hrun]
    rintro (⟨c, hc⟩ | ⟨asked, ha⟩)
    · cases hc
    · cases ha
  obtain ⟨new, -, heq⟩ := @evaluateSource_unfailed numb loaded "status.py" _ _ hunfailed
  refine ⟨hheld, hrun 0, ?_, ?_⟩
  · rw [evaluateFile_held hheld, heq, hrun]
    rfl
  · rw [evaluateFile_held hheld, congrArg Prod.fst heq]
    rfl

end Engine

end NoteDecor
