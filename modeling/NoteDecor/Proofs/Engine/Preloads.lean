import NoteDecor.Proofs.Engine.Equations
import NoteDecor.Proofs.Steps

/-! When preloading stops: only at a reading whose fault is no ordinary one or has no text, and then
whatever was read before it has been read without that. -/

namespace NoteDecor

inductive Fault.LetsOut : Fault → Fault → Prop where
  | itself {f : Fault} : f.kind.isOrdinary = false → LetsOut f f
  | asked {k : Fault.Kind} {asked : Fault} : k.isOrdinary = true → LetsOut (.mute k asked) asked

theorem Fault.LetsOut.ofReading_eq {f g : Fault} (h : f.LetsOut g) (path : String) :
    Stop.ofReading path f = .raised g := by
  cases h with
  | itself hk => simp only [Stop.ofReading, hk, Bool.false_eq_true, if_false]
  | asked hk => exact if_pos hk

theorem Stop.ofReading_cases (path : String) (f : Fault) :
    (∃ t : Fault.Told, f = .told t ∧ t.kind.isOrdinary = true ∧
      ofReading path f = .load ⟨path, some t⟩) ∨
    ∃ g, f.LetsOut g ∧ ofReading path f = .raised g := by
  cases hk : f.kind.isOrdinary with
  | false =>
    have hout : f.LetsOut f := .itself hk
    exact .inr ⟨f, hout, hout.ofReading_eq path⟩
  | true =>
    cases f with
    | told t => exact .inl ⟨t, rfl, hk, if_pos hk⟩
    | mute k asked =>
      have hout : (Fault.mute k asked).LetsOut asked := .asked hk
      exact .inr ⟨asked, hout, hout.ofReading_eq path⟩

namespace Engine

variable {h : Host}

/-- After some of the files, the reader answers for the next one with a fault that lets one out. -/
def Interrupted (h : Host) (files : List (Rule × String)) (e : Engine) (g : Fault) : Prop :=
  ∃ done r path rest e' ws f, files = done ++ (r, path) :: rest ∧
    preloadEach h done e = (e', .ok ws) ∧
    h.read e'.journal.records e'.reads.length path = .error f ∧ f.LetsOut g

theorem preload_of_error {e : Engine} {path : String} {f : Fault}
    (hr : h.read e.journal.records e.reads.length path = .error f) :
    (e.preload h path).2 = .error (.ofReading path f) := by
  unfold preload read
  simp only [hr]

theorem preload_cases (e : Engine) (path : String) :
    (∃ source, (e.preload h path).2 = .ok source) ∨
    (∃ f, (e.preload h path).2 = .error (.load f)) ∨
    ∃ f g, (e.preload h path).2 = .error (.raised g) ∧
      h.read e.journal.records e.reads.length path = .error f ∧ f.LetsOut g := by
  cases hr : h.read e.journal.records e.reads.length path with
  | ok source =>
    refine .inl ⟨source, ?_⟩
    unfold preload read
    simp only [hr]
  | error f =>
    rw [preload_of_error hr]
    rcases Stop.ofReading_cases path f with ⟨t, -, -, hload⟩ | ⟨g, hout, hraised⟩
    · exact .inr (.inl ⟨_, by rw [hload]⟩)
    · exact .inr (.inr ⟨f, g, by rw [hraised], rfl, hout⟩)

theorem preload_of_letsOut {e : Engine} {path : String} {f g : Fault}
    (hr : h.read e.journal.records e.reads.length path = .error f) (hout : f.LetsOut g) :
    (e.preload h path).2 = .error (.raised g) := by
  rw [preload_of_error hr, hout.ofReading_eq]

theorem preload_stopped {e e' : Engine} {path : String} {stop : Stop}
    (hp : e.preload h path = (e', .error stop)) (hstop : ∀ f, stop ≠ .load f) :
    ∃ f g, stop = .raised g ∧ h.read e.journal.records e.reads.length path = .error f ∧
      f.LetsOut g := by
  rcases preload_cases (h := h) e path with ⟨source, hs⟩ | ⟨f, hs⟩ | ⟨f, g, hs, hr, hout⟩ <;>
    rw [hp] at hs <;> cases hs
  · exact absurd rfl (hstop f)
  · exact ⟨f, g, rfl, hr, hout⟩

theorem preloadEach_append {done : List (Rule × String)} {e e' : Engine} {ws : List Warning}
    (hd : preloadEach h done e = (e', .ok ws)) (rest : List (Rule × String)) :
    preloadEach h (done ++ rest) e =
      ((preloadEach h rest e').1, (preloadEach h rest e').2.map (ws ++ ·)) := by
  induction done generalizing e ws with
  | nil =>
    cases hd
    refine Prod.ext rfl ?_
    change (preloadEach h rest e').2 = _
    cases (preloadEach h rest e').2 <;> rfl
  | cons file done ih =>
    rw [List.cons_append]
    cases hp : e.preload h file.2 with | mk e₁ result
    cases result with
    | ok source =>
      rw [preloadEach_cons_ok hp] at hd ⊢
      exact ih hd
    | error stop =>
      cases stop with
      | load f =>
        rw [preloadEach_cons_load hp] at hd ⊢
        obtain ⟨rfl, hresult⟩ := Prod.mk.inj hd
        obtain ⟨vs, hvs, rfl⟩ := map_eq_ok.1 hresult
        rw [ih (Prod.ext rfl hvs)]
        cases (preloadEach h rest _).2 <;> rfl
      | raised f =>
        rw [preloadEach_cons_stopped hp nofun] at hd
        cases hd
      | misuse m =>
        rw [preloadEach_cons_stopped hp nofun] at hd
        cases hd

theorem preloadEach_append_engine {done : List (Rule × String)} {e e' : Engine} {ws : List Warning}
    (hd : preloadEach h done e = (e', .ok ws)) (rest : List (Rule × String)) :
    (preloadEach h (done ++ rest) e).1 = (preloadEach h rest e').1 := by
  rw [preloadEach_append hd]

theorem Interrupted.append {done rest : List (Rule × String)} {e e' : Engine} {ws : List Warning}
    {f : Fault} (hd : preloadEach h done e = (e', .ok ws)) (hi : Interrupted h rest e' f) :
    Interrupted h (done ++ rest) e f := by
  obtain ⟨more, r, path, left, e'', vs, g, rfl, hm, hr, hout⟩ := hi
  refine ⟨done ++ more, r, path, left, e'', ws ++ vs, g, by rw [List.append_assoc], ?_, hr, hout⟩
  rw [preloadEach_append hd, hm]
  rfl

theorem preloadEach_error_iff (files : List (Rule × String)) (e : Engine) (stop : Stop) :
    (preloadEach h files e).2 = .error stop ↔
      ∃ f, stop = .raised f ∧ Interrupted h files e f := by
  constructor
  · intro he
    induction files generalizing e with
    | nil => cases he
    | cons file rest ih =>
      -- the first file is interrupted, or it is done and a later one is
      have hlater {e₁ ws} (hone : preloadEach h [file] e = (e₁, .ok ws))
          (hrest : (preloadEach h rest e₁).2 = .error stop) :
          ∃ f, stop = .raised f ∧ Interrupted h (file :: rest) e f := by
        obtain ⟨f, hf, hi⟩ := ih e₁ hrest
        exact ⟨f, hf, Interrupted.append hone hi⟩
      have hhere {e₁} (hp : e.preload h file.2 = (e₁, .error stop)) (hstop : ∀ f, stop ≠ .load f) :
          ∃ f, stop = .raised f ∧ Interrupted h (file :: rest) e f := by
        obtain ⟨f, g, hg, hr, hout⟩ := preload_stopped hp hstop
        exact ⟨g, hg, [], file.1, file.2, rest, e, [], f, rfl, rfl, hr, hout⟩
      cases hp : e.preload h file.2 with | mk e₁ result
      cases result with
      | ok source =>
        rw [preloadEach_cons_ok hp] at he
        exact hlater (preloadEach_cons_ok hp []) he
      | error stop' =>
        cases stop' with
        | load f =>
          rw [preloadEach_cons_load hp] at he
          exact hlater (preloadEach_cons_load hp []) (map_eq_error.1 he)
        | raised f =>
          rw [preloadEach_cons_stopped hp nofun] at he
          cases he
          exact hhere hp nofun
        | misuse m =>
          rw [preloadEach_cons_stopped hp nofun] at he
          cases he
          exact hhere hp nofun
  · rintro ⟨g, rfl, done, r, path, rest, e', ws, f, rfl, hd, hr, hout⟩
    have hp : e'.preload h path = ((e'.preload h path).1, .error (.raised g)) :=
      Prod.ext rfl (preload_of_letsOut hr hout)
    have hraised : ∀ l : LoadFault, Stop.raised g ≠ .load l := nofun
    have hstopped : preloadEach h ((r, path) :: rest) e' =
        ((e'.preload h path).1, .error (.raised g)) := preloadEach_cons_stopped hp hraised rest
    rw [preloadEach_append hd, hstopped]
    rfl

theorem updateRules_error_iff (e : Engine) (rules : List Rule) (stop : Stop) :
    (e.updateRules h rules).2 = .error stop ↔
      ∃ f, stop = .raised f ∧ Interrupted h (newFiles e.rules rules) { e with rules } f := by
  rw [← preloadEach_error_iff, updateRules, preloadFiles_result]

end Engine

end NoteDecor
