import Mathlib
import NoteDecor.Proofs.Engine.Preloads
import NoteDecor.Proofs.Steps
import NoteDecor.Proofs.Workspace.Change

/-! What an engine does when it is told changed settings. A rule list that is not valid is noted once
and changes nothing else; the telling raises when the settings of the program are no mapping, when
they hold a number that is too long to be written, or when the reader is interrupted. -/

namespace NoteDecor.Workspace

variable {h : Host}

def Followable (h : Host) (e : Engine) (merged : Entries) : Prop :=
  ∃ v, rulesOf merged = .ok v ∧
    (∀ f, Rule.listOfValue v = .error f → f.isUnwritable = false) ∧
    ∀ rules f, Rule.listOfValue v = .ok rules →
      ¬ Engine.Interrupted h (Engine.newFiles e.rules rules) { e with rules } f

def refusing (e : Engine) (f : Rule.Fault) : Engine :=
  e.note .error "Ignoring invalid rule settings" [("error", .text f.message)]

theorem follow_without_members {e : Engine} {merged : Entries} {g : Settings.PathFault}
    (hg : rulesOf merged = .error g) : follow h e merged = (e, .error (.path g)) := by
  unfold follow
  simp only [hg]

theorem follow_unwritable {e : Engine} {merged : Entries} {v : Value} {f : Rule.Fault}
    (hv : rulesOf merged = .ok v) (hf : Rule.listOfValue v = .error f)
    (hu : f.isUnwritable = true) : follow h e merged = (e, .error (.rules f)) := by
  unfold follow
  simp only [hv, hf, hu, if_true]

theorem follow_refused {e : Engine} {merged : Entries} {v : Value} {f : Rule.Fault}
    (hv : rulesOf merged = .ok v) (hf : Rule.listOfValue v = .error f)
    (hu : f.isUnwritable = false) : follow h e merged = (refusing e f, .ok ()) := by
  unfold follow
  simp only [hv, hf, hu, Bool.false_eq_true, if_false]
  rfl

theorem follow_accepted {e : Engine} {merged : Entries} {v : Value} {rules : List Rule}
    (hv : rulesOf merged = .ok v) (hr : Rule.listOfValue v = .ok rules) :
    (follow h e merged).1 = (e.updateRules h rules).1 ∧
    ((follow h e merged).2 = .ok () ↔
      ∀ f, ¬ Engine.Interrupted h (Engine.newFiles e.rules rules) { e with rules } f) := by
  have hu := Engine.updateRules_error_iff (h := h) e rules
  unfold follow
  simp only [hv, hr]
  cases hup : e.updateRules h rules with | mk e' result
  rw [hup] at hu
  cases result with
  | ok ws =>
    refine ⟨rfl, fun _ f hi => ?_, fun _ => rfl⟩
    cases (hu (.raised f)).2 ⟨f, rfl, hi⟩
  | error stop =>
    refine ⟨rfl, fun hn => by simp at hn, fun hn => ?_⟩
    obtain ⟨f, -, hi⟩ := (hu stop).1 rfl
    exact absurd hi (hn f)

theorem follow_ok_iff (e : Engine) (merged : Entries) :
    (follow h e merged).2 = .ok () ↔ Followable h e merged := by
  cases hv : rulesOf merged with
  | error g => simp [follow_without_members hv, Followable, hv]
  | ok v =>
    cases hl : Rule.listOfValue v with
    | error f =>
      cases hu : f.isUnwritable with
      | true => simp [follow_unwritable hv hl hu, Followable, hv, hl, hu]
      | false => simp [follow_refused hv hl hu, Followable, hv, hl, hu]
    | ok rules =>
      rw [(follow_accepted hv hl).2]
      constructor
      · intro hn
        refine ⟨v, hv, fun f hf => ?_, fun rules' f hr => ?_⟩
        · rw [hl] at hf
          cases hf
        · rw [hl] at hr
          cases hr
          exact hn f
      · rintro ⟨v', hv', -, hn⟩ f
        rw [hv] at hv'
        cases hv'
        exact hn rules f hl

theorem follow_raised {e : Engine} {merged : Entries} {f : Fault}
    (hf : (follow h e merged).2 = .error f) (hs : ∀ stop, f ≠ .stop stop) :
    (follow h e merged).1 = e := by
  cases hv : rulesOf merged with
  | error g => rw [follow_without_members hv]
  | ok v =>
    cases hl : Rule.listOfValue v with
    | error g =>
      cases hu : g.isUnwritable with
      | true => rw [follow_unwritable hv hl hu]
      | false =>
        rw [follow_refused hv hl hu] at hf
        cases hf
    | ok rules =>
      unfold follow at hf
      simp only [hv, hl] at hf
      -- accepted rules are in place before their files are read, which is why stops are left out
      cases hup : e.updateRules h rules with | mk e' result
      rw [hup] at hf
      cases result with
      | ok ws => cases hf
      | error stop =>
        cases hf
        exact absurd rfl (hs stop)

theorem refusing_records (e : Engine) (f : Rule.Fault) :
    (refusing e f).journal.records = e.journal.records ++
      if e.journal.threshold.admits .error then
        [.make .error "Ignoring invalid rule settings" e.journal.contexts
          [("error", .text f.message)] false]
      else [] := by
  unfold refusing Engine.note Log.Journal.note Log.Journal.add
  dsimp only
  split
  · rfl
  · exact (List.append_nil _).symm

theorem tellEach_append {merged : Entries} {before : List Watcher} {w w₁ : Workspace}
    (hb : tellEach h merged before w = (w₁, .ok ())) (rest : List Watcher) :
    tellEach h merged (before ++ rest) w = tellEach h merged rest w₁ := by
  induction before generalizing w with
  | nil =>
    cases hb
    rfl
  | cons x before ih =>
    simp only [List.cons_append, tellEach] at hb ⊢
    cases ht : w.tell h merged x with | mk w₂ result
    rw [ht] at hb
    cases result with
    | error f => cases hb
    | ok u => exact ih hb

/-- Whatever change was made and whoever was told before, the engine's watcher raises exactly if what
it is told is not followable. A rule list that is refused costs one note of level error and leaves
rules and sources as they were. What the watcher raises comes out of the change, which stays; the
engine itself has then changed only if a reading was interrupted. -/
theorem tell_engine_outcome {w w₁ : Workspace} {x : Change} {merged : Entries}
    {before after : List Watcher} (hm : (x.made w.settings).2 = .ok ())
    (hl : (x.made w.settings).1.layers.all = .ok merged)
    (hw : w.watchers = before ++ .engine :: after)
    (hb : tellEach h merged before { w with settings := (x.made w.settings).1 } = (w₁, .ok ())) :
    ((w₁.tell h merged .engine).2 = .ok () ↔ Followable h w₁.engine merged) ∧
    (∀ v f, rulesOf merged = .ok v → Rule.listOfValue v = .error f → f.isUnwritable = false →
      (w₁.tell h merged .engine).2 = .ok () ∧
      (w₁.tell h merged .engine).1.engine.rules = w₁.engine.rules ∧
      (w₁.tell h merged .engine).1.engine.cache = w₁.engine.cache ∧
      (w₁.tell h merged .engine).1.engine.journal.records = w₁.engine.journal.records ++
        if w₁.engine.journal.threshold.admits .error then
          [.make .error "Ignoring invalid rule settings" w₁.engine.journal.contexts
            [("error", .text f.message)] false]
        else []) ∧
    ∀ f, (w₁.tell h merged .engine).2 = .error f →
      w.apply h x = ((w₁.tell h merged .engine).1, .error f) ∧
      ((∀ stop, f ≠ .stop stop) → (w₁.tell h merged .engine).1 = w₁) := by
  refine ⟨follow_ok_iff _ _, fun v f hv hf hu => ?_, fun f hf => ⟨?_, fun hs => ?_⟩⟩
  · have ht := follow_refused (h := h) (e := w₁.engine) hv hf hu
    simp only [tell, ht]
    exact ⟨trivial, rfl, rfl, refusing_records _ _⟩
  · rw [apply_eq]
    cases hx : x.made w.settings with | mk settings result
    simp only [hx] at hm hl hb
    subst hm
    simp only [notify, hl]
    -- those before the engine have been told, and none after it is told any more
    rw [hw, tellEach_append (hw ▸ hb)]
    cases ht : w₁.tell h merged .engine with | mk w₂ result
    rw [ht] at hf
    obtain rfl : result = .error f := hf
    simp only [tellEach, ht]
  · have hraised : (follow h w₁.engine merged).2 = .error f := hf
    have he := follow_raised hraised hs
    simp only [tell, he]

def watching : Workspace :=
  ⟨⟨.start, []⟩, [.engine], .start [⟨"1", "Work", true, "", .functionFile "work.py"⟩] .debug, []⟩

def numberForRules : Change :=
  .replace (.record [("fmdecorator", .record [("rules", .int 5)])]) .runtime

def numbered : Entries := Entries.fields [("fmdecorator", .record [("vault", .text "."),
  ("rules", .int 5), ("logging", .record [("level", .text "INFO"), ("file", .null)]),
  ("loader", .record [("background", .bool true)])])]

theorem tell_engine_number :
    let w₁ := { watching with settings := (numberForRules.made watching.settings).1 }
    w₁.settings.layers.all = .ok numbered ∧ (w₁.tell .idle numbered .engine).2 = .ok () ∧
    (w₁.tell .idle numbered .engine).1.engine.rules = watching.engine.rules := by
  have hl : (numberForRules.made watching.settings).1.layers.all = .ok numbered := by cbv
  have hv : rulesOf numbered = .ok (.int 5) := by cbv
  have hf : Rule.listOfValue (.int 5) = .error .notList := rfl
  have hw : watching.watchers = [] ++ .engine :: [] := rfl
  obtain ⟨-, hrefused, -⟩ := tell_engine_outcome (h := .idle) (x := numberForRules) rfl hl hw rfl
  obtain ⟨hok, hrules, -⟩ := hrefused _ _ hv hf rfl
  exact ⟨hl, hok, hrules⟩

def nullForRoot : Change := .set "fmdecorator" .null .runtime

theorem apply_null_raises : (watching.apply .idle nullForRoot).2 = .error (.path .noMembers) := by
  have hm : nullForRoot.made watching.settings =
      ((nullForRoot.made watching.settings).1, .ok ()) :=
    Prod.ext rfl (eq_ok_of_isOk (by decide +kernel))
  have hl : (nullForRoot.made watching.settings).1.layers.all =
      .ok (Entries.fields [("fmdecorator", .null)]) := by cbv
  have hv : rulesOf (Entries.fields [("fmdecorator", .null)]) = .error .noMembers := rfl
  have hw : watching.watchers = [.engine] := rfl
  rw [apply_eq, hm]
  simp only [notify, hl, hw, tellEach, tell, follow_without_members hv]

end NoteDecor.Workspace
