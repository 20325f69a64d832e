import Mathlib.Data.List.DropRight
import NoteDecor.Proofs.Engine.Naming
import NoteDecor.Proofs.Log.Journal
import NoteDecor.Proofs.Notice.Listing

/-! What is told of rule files that could not be read. The log and the notice that stands ready tell
it in the same words: the log has a record for each warning that starts with its message, and the
notice a line that is its message. -/

namespace NoteDecor

/-- The record of a warning: its message, and behind a bar what is open with the error. -/
def Warning.record (opened : List Log.Context) (w : Warning) : Log.Record where
  level := .error
  message := w.message ++ " | " ++ ((Log.Context.merge opened).set "error" (.text w.error)).text
  context := (Log.Context.merge opened).set "error" (.text w.error)
  exception := false

theorem Log.Context.set_ne_nil (key : String) (v : Value) (c : Context) : set key v c ≠ [] := by
  cases c with
  | nil => exact List.cons_ne_nil _ _
  | cons e r =>
    rw [set]
    split <;> exact List.cons_ne_nil _ _

theorem Warning.make_eq_record (opened : List Log.Context) (w : Warning) :
    Log.Record.make .error w.message opened [("error", .text w.error)] false =
      w.record opened := by
  have hcontext : (Log.Context.merge opened).extend [("error", .text w.error)] =
      (Log.Context.merge opened).set "error" (.text w.error) := rfl
  have hshown : ((Log.Context.merge opened).set "error" (.text w.error)).isEmpty = false :=
    List.isEmpty_eq_false_iff.2 (Log.Context.set_ne_nil _ _ _)
  unfold Log.Record.make Warning.record
  simp only [hcontext, hshown, Bool.false_eq_true, if_false]

namespace Log.Journal

/-- The records of failures, oldest first. -/
def failures (j : Journal) : List Record := j.records.filter fun r => r.level = .error

structure Reports (ws : List Warning) (j j' : Journal) : Prop where
  contexts : j'.contexts = j.contexts
  threshold : j'.threshold = j.threshold
  failures : j'.failures = j.failures ++
    if j.threshold.admits .error then ws.map (Warning.record j.contexts) else []

namespace Reports

variable {ws vs : List Warning} {j j' j'' : Journal}

theorem refl (j : Journal) : Reports [] j j := ⟨rfl, rfl, by simp⟩

theorem trans (h : Reports ws j j') (h' : Reports vs j' j'') : Reports (ws ++ vs) j j'' where
  contexts := h'.contexts.trans h.contexts
  threshold := h'.threshold.trans h.threshold
  failures := by
    rw [h'.failures, h.failures, h.threshold, h.contexts, List.append_assoc]
    split
    · rw [List.map_append]
    · rfl

theorem note {level : Level} (h : level ≠ .error) (j : Journal) (message : String)
    (own : Context) : Reports [] j (j.note level message own) := by
  refine ⟨by rw [Journal.note, add_eq], note_threshold .., ?_⟩
  -- a record that is filtered out adds nothing, whether it is made or not
  have hother : decide ((Record.make level message j.contexts own false).level = .error) = false :=
    decide_eq_false h
  rw [Journal.note, add_eq, Journal.failures, List.filter_append, List.map_nil, ite_self]
  split
  · rw [List.filter_singleton, hother]
    rfl
  · rfl

theorem warn (j : Journal) (w : Warning) :
    Reports [w] j (j.note .error w.message [("error", .text w.error)]) := by
  refine ⟨by rw [Journal.note, add_eq], note_threshold .., ?_⟩
  rw [Journal.note, add_eq, w.make_eq_record, Journal.failures, List.filter_append]
  split <;> rfl

end Reports

end Log.Journal

namespace Engine

open Log.Journal

variable {h : Host}

theorem preload_reports (e : Engine) (path : String) :
    Reports [] e.journal (e.preload h path).1.journal := by
  have hread := read_journal h e path
  unfold preload
  cases hr : e.read h path with | mk e' result
  rw [hr] at hread
  cases result with
  | ok source =>
    rw [← hread]
    exact .note (by decide) ..
  | error stop =>
    rw [← hread]
    exact .refl _

theorem preloadEach_reported {files : List (Rule × String)} {e e' : Engine} {ws : List Warning}
    (hrun : preloadEach h files e = (e', .ok ws)) : Reports ws e.journal e'.journal := by
  induction files generalizing e ws with
  | nil =>
    cases hrun
    exact .refl _
  | cons file rest ih =>
    have hfirst := preload_reports (h := h) e file.2
    cases hp : e.preload h file.2 with | mk e₁ result
    rw [hp] at hfirst
    cases result with
    | ok source =>
      rw [preloadEach_cons_ok hp] at hrun
      exact hfirst.trans (ih hrun)
    | error stop =>
      -- only a load fault lets the other files be read
      cases stop with
      | raised f =>
        rw [preloadEach_cons_stopped hp nofun] at hrun
        cases hrun
      | misuse m =>
        rw [preloadEach_cons_stopped hp nofun] at hrun
        cases hrun
      | load f =>
        rw [preloadEach_cons_load hp] at hrun
        have hwarned := hfirst.trans (.warn e₁.journal ⟨file.1.name, file.2, f.detail⟩)
        obtain ⟨rfl, hresult⟩ := Prod.mk.inj hrun
        obtain ⟨vs, hvs, rfl⟩ := map_eq_ok.1 hresult
        exact hwarned.trans (ih (Prod.ext rfl hvs))

theorem preloadFiles_reports {files : List (Rule × String)} {e e' : Engine} {ws : List Warning}
    (hrun : preloadFiles h files e = (e', .ok ws)) : Reports ws e.journal e'.journal := by
  unfold preloadFiles at hrun
  cases heach : preloadEach h files e with | mk e₁ result
  rw [heach] at hrun
  cases result with
  | error stop => cases hrun
  | ok vs =>
    cases hrun
    have hinfo : Log.Level.info ≠ .error := by decide
    have hnoted := (preloadEach_reported heach).trans (.note hinfo e₁.journal
      "Rule files preloaded" [("loaded", .int (files.length - ws.length)), ("failed", .int ws.length)])
    rwa [List.append_nil] at hnoted

end Engine

namespace Notice

theorem eq_dropLastBreaks_append (s : String) : ∃ breaks : Nat,
    s = dropLastBreaks s ++ String.ofList (List.replicate breaks '\n') := by
  have hbreaks : ∀ c ∈ s.toList.rtakeWhile (· == '\n'), c = '\n' := fun c hc =>
    eq_of_beq (List.mem_rtakeWhile_imp (p := (· == '\n')) hc)
  refine ⟨(s.toList.rtakeWhile (· == '\n')).length, ?_⟩
  rw [← List.eq_replicate_of_mem hbreaks, dropLastBreaks, ← String.ofList_append]
  change s = String.ofList (s.toList.rdropWhile (· == '\n') ++ s.toList.rtakeWhile (· == '\n'))
  rw [List.rdropWhile_append_rtakeWhile, String.ofList_toList]

theorem getLast?_dropLastBreaks (s : String) :
    (dropLastBreaks s).toList.getLast? ≠ some '\n' := by
  rw [dropLastBreaks, String.toList_ofList]
  change (s.toList.rdropWhile (· == '\n')).getLast? ≠ some '\n'
  intro hlast
  have hne : s.toList.rdropWhile (· == '\n') ≠ [] := by
    intro hnil
    rw [hnil] at hlast
    cases hlast
  rw [List.getLast?_eq_getLast_of_ne_nil hne, Option.some_inj] at hlast
  exact List.rdropWhile_last_not (· == '\n') s.toList hne (beq_iff_eq.2 hlast)

/-- The notice of any warnings has, below its heading, for each of them in order its message on a
line of its own and then its error, without the line breaks at the end of the whole; what the
messages and errors hold stands there as it is. Whenever files are read, the failures that the log
tells of are those of the warnings that come out of it, each by a record that starts with the
message of the warning and has its error. -/
theorem default_tells_verbatim :
    (∀ ws : List Warning, ws ≠ [] → ∃ text breaks, Notice.default ws = .ok text ∧
      heading ++ String.join (ws.map fun w => w.message ++ "\n" ++ w.error ++ "\n") =
        text ++ String.ofList (List.replicate breaks '\n') ∧
      text.toList.getLast? ≠ some '\n') ∧
    ∀ (h : Host) files (e e' : Engine) ws, Engine.preloadFiles h files e = (e', .ok ws) →
      e'.journal.failures = e.journal.failures ++
        if e.journal.threshold.admits .error then ws.map (Warning.record e.journal.contexts)
        else [] := by
  refine ⟨fun ws hws => ?_, fun h files e e' ws hrun => (Engine.preloadFiles_reports hrun).failures⟩
  obtain ⟨breaks, hbreaks⟩ := eq_dropLastBreaks_append (heading ++ String.join (ws.map listed))
  exact ⟨listing ws, breaks, default_eq_listing hws, hbreaks, getLast?_dropLastBreaks _⟩

def emptied : Host :=
  ⟨fun _ _ path => .error (.told ⟨.missing, path ++ " is gone\n\n"⟩),
    fun _ _ _ => .error (.told ⟨.missing, "gone"⟩), .queued⟩

def lostFiles : List (Rule × String) :=
  [(⟨"1", "\x7b\x7b name \x7d\x7d", true, "", .functionFile "a.py"⟩, "a.py"),
    (⟨"2", "say \"b\"\n", true, "", .functionFile "\x7b% b"⟩, "\x7b% b")]

def lostWarnings : List Warning :=
  [⟨"\x7b\x7b name \x7d\x7d", "a.py", "a.py is gone\n\n"⟩,
    ⟨"say \"b\"\n", "\x7b% b", "\x7b% b is gone\n\n"⟩]

theorem default_tells_verbatim_lost : ∃ e' text breaks,
    Engine.preloadFiles emptied lostFiles (.start [] .debug) = (e', .ok lostWarnings) ∧
    Notice.default lostWarnings = .ok text ∧
    heading ++ String.join (lostWarnings.map fun w => w.message ++ "\n" ++ w.error ++ "\n") =
      text ++ String.ofList (List.replicate breaks '\n') ∧
    text.toList.getLast? ≠ some '\n' ∧
    e'.journal.failures = lostWarnings.map (Warning.record []) := by
  obtain ⟨hnotice, hlog⟩ := default_tells_verbatim
  obtain ⟨text, breaks, hdefault, hlines, hlast⟩ := hnotice lostWarnings (List.cons_ne_nil _ _)
  have hrun : Engine.preloadFiles emptied lostFiles (.start [] .debug) =
      ((Engine.preloadFiles emptied lostFiles (.start [] .debug)).1, .ok lostWarnings) := rfl
  exact ⟨_, text, breaks, hrun, hdefault, hlines, hlast, hlog _ _ _ _ _ hrun⟩

end Notice

end NoteDecor
