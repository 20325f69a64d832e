import NoteDecor.Log.Record

/-! What is written to a journal is one record at its end, or nothing, and does not change the level
from which records are kept. -/

namespace NoteDecor.Log.Journal

theorem add_eq (j : Journal) (level : Level) (message : String) (own : Context)
    (exception : Bool) : j.add level message own exception = { j with
      records := j.records ++ if j.threshold.admits level
        then [.make level message j.contexts own exception] else [] } := by
  unfold add
  split
  · rfl
  · rw [List.append_nil]

theorem exists_add (j : Journal) (level : Level) (message : String) (own : Context)
    (exception : Bool) : ∃ new, j.add level message own exception =
        { j with records := j.records ++ new } ∧
      ∀ record ∈ new, record = .make level message j.contexts own exception := by
  refine ⟨_, add_eq j level message own exception, ?_⟩
  intro record hrecord
  split at hrecord
  · exact List.mem_singleton.1 hrecord
  · cases hrecord

@[simp] theorem add_threshold (j : Journal) (level : Level) (message : String) (own : Context)
    (exception : Bool) : (j.add level message own exception).threshold = j.threshold := by
  unfold add
  split <;> rfl

@[simp] theorem note_threshold (j : Journal) (level : Level) (message : String) (own : Context) :
    (j.note level message own).threshold = j.threshold := add_threshold ..

@[simp] theorem noteException_threshold (j : Journal) (message kind text : String)
    (own : Context) : (j.noteException message kind text own).threshold = j.threshold :=
  add_threshold ..

end NoteDecor.Log.Journal
