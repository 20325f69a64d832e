import NoteDecor.Proofs.Engine.Faithful
import NoteDecor.Proofs.Engine.Preloads

/-! Loading on demand against loading in front. A pass leaves the file of every rule that it
evaluates either held, as far as it can be read, or pending; once nothing is pending, the next pass
is one over the same texts as after a preload. -/

namespace NoteDecor.Engine

variable {h : Host} {text : String → Except Fault String} {e e' : Engine}

theorem preload_result (hr : h.Reads text) (e : Engine) (path : String) :
    (e.preload h path).2 = (text path).mapError (.ofReading path) := by
  have hread := read_eq hr e path
  unfold preload
  cases he : e.read h path with | mk e' result
  rw [he] at hread
  obtain rfl := hread
  cases text path <;> rfl

theorem genuine_preloads (hr : h.Reads text) (files : List (Rule × String)) (e : Engine) :
    Genuine text (preloads h files e) := by
  induction files generalizing e with
  | nil => exact genuine_nil
  | cons file rest ih =>
    intro x hx
    rcases List.mem_append.1 hx with hx | hx
    · exact genuine_preloaded hr e file.2 x hx
    · cases hp : e.preload h file.2 with | mk e' result
      rw [hp] at hx
      cases result with
      | ok source => exact ih e' x hx
      | error stop =>
        cases stop with
        | load f => exact ih _ x hx
        | raised f => cases hx
        | misuse m => cases hx

theorem preloadEach_onward (hr : h.Reads text) (he : e.Faithful text)
    (files : List (Rule × String)) : Onward text e (preloadEach h files e).1 :=
  (preloadEach_brings files e).onward he (genuine_preloads hr files e)

theorem preloadEach_ok_iff (hr : h.Reads text) (files : List (Rule × String)) (e : Engine) :
    (∃ ws, (preloadEach h files e).2 = .ok ws) ↔ ∀ file ∈ files, Tellable text file.2 := by
  induction files generalizing e with
  | nil => exact iff_of_true ⟨[], rfl⟩ (List.forall_mem_nil _)
  | cons file rest ih =>
    have hresult := preload_result hr e file.2
    cases hp : e.preload h file.2 with | mk e' result
    rw [hp] at hresult
    rw [List.forall_mem_cons]
    cases ht : text file.2 with
    | ok source =>
      rw [ht] at hresult
      obtain rfl : result = .ok source := hresult
      have htold : Tellable text file.2 := fun k asked hmute => by cases ht.symm.trans hmute
      rw [preloadEach_cons_ok hp, ih, and_iff_right htold]
    | error f =>
      rw [ht] at hresult
      rcases Stop.ofReading_cases file.2 f with ⟨t, rfl, -, hload⟩ | ⟨g, hout, hraised⟩
      · obtain rfl : result = .error (.load ⟨file.2, some t⟩) :=
          hresult.trans (congrArg Except.error hload)
        have htold : Tellable text file.2 := fun k asked hmute => by cases ht.symm.trans hmute
        rw [preloadEach_cons_load hp, and_iff_right htold, ← ih]
        simp only [map_eq_ok]
        exact ⟨fun ⟨_, ws, hws, _⟩ => ⟨ws, hws⟩, fun ⟨ws, hws⟩ => ⟨_, ws, hws, rfl⟩⟩
      · obtain rfl : result = .error (.raised g) := hresult.trans (congrArg Except.error hraised)
        obtain ⟨k, rfl⟩ := (hr.letsOut_iff ht).1 hout
        rw [preloadEach_cons_stopped hp nofun]
        exact iff_of_false (fun ⟨ws, hws⟩ => by cases hws) fun ⟨htold, _⟩ => htold k g ht

theorem preloadEach_singleton_holds (hr : h.Reads text) (he : e.Faithful text)
    (file : Rule × String) : (preloadEach h [file] e).1.Holds text file.2 := by
  have hresult := preload_result hr e file.2
  have hheld := holds_preload hr he file.2
  cases hp : e.preload h file.2 with | mk e' result
  rw [hp] at hresult hheld
  cases ht : text file.2 with
  | ok source =>
    rw [ht] at hresult
    obtain rfl : result = .ok source := hresult
    rw [preloadEach_cons_ok hp []]
    exact hheld
  | error f =>
    -- there is nothing to be held
    intro source hs
    rw [ht] at hs
    cases hs

theorem preloadEach_holds (hr : h.Reads text) (he : e.Faithful text)
    {files : List (Rule × String)} (hf : ∀ file ∈ files, Tellable text file.2) :
    ∀ file ∈ files, (preloadEach h files e).1.Holds text file.2 := by
  induction files generalizing e with
  | nil => exact fun _ hg => absurd hg List.not_mem_nil
  | cons file rest ih =>
    obtain ⟨hfile, hrest⟩ := List.forall_mem_cons.1 hf
    intro g hg
    obtain ⟨ws, hws⟩ := (preloadEach_ok_iff hr [file] e).2 (List.forall_mem_singleton.2 hfile)
    have hone := preloadEach_onward hr he [file]
    have hsplit : (preloadEach h (file :: rest) e).1 =
        (preloadEach h rest (preloadEach h [file] e).1).1 :=
      preloadEach_append_engine (Prod.ext rfl hws) rest
    rw [hsplit]
    rcases List.mem_cons.1 hg with rfl | hg
    · exact (preloadEach_onward hr hone.faithful rest).holds _
        (preloadEach_singleton_holds hr he g)
    · exact ih hone.faithful hrest g hg

def Supplied (text : String → Except Fault String) (e : Engine) (rules : List Rule) : Prop :=
  ∀ r ∈ rules, r.enabled = true → ∀ path, r.filePath? = some path → e.Holds text path

theorem Supplied.onward {rules : List Rule} (hs : e.Supplied text rules)
    (ho : Onward text e e') : e'.Supplied text rules :=
  fun r hm hen path hp => ho.holds path (hs r hm hen path hp)

theorem mem_functionRules {rules : List Rule} {file : Rule × String} :
    file ∈ functionRules rules ↔
      file.1 ∈ rules ∧ file.1.enabled = true ∧ file.1.filePath? = some file.2 := by
  unfold functionRules Rule.usedFile?
  simp only [List.mem_filterMap, Option.map_eq_some_iff, Option.ite_none_right_eq_some]
  constructor
  · rintro ⟨r, hm, path, ⟨hen, hp⟩, rfl⟩
    exact ⟨hm, hen, hp⟩
  · rintro ⟨hm, hen, hp⟩
    exact ⟨file.1, hm, file.2, ⟨hen, hp⟩, rfl⟩

def TellableAll (text : String → Except Fault String) (rules : List Rule) : Prop :=
  ∀ r ∈ rules, r.enabled = true → ∀ path, r.filePath? = some path → Tellable text path

theorem tellableAll_iff {rules : List Rule} :
    TellableAll text rules ↔ ∀ file ∈ functionRules rules, Tellable text file.2 := by
  constructor
  · intro ht file hf
    obtain ⟨hm, hen, hp⟩ := mem_functionRules.1 hf
    exact ht file.1 hm hen file.2 hp
  · intro ht r hm hen path hp
    exact ht (r, path) (mem_functionRules.2 ⟨hm, hen, hp⟩)

theorem preloadRules_onward (hr : h.Reads text) (he : e.Faithful text) :
    Onward text e (e.preloadRules h).1 :=
  (preloadFiles_brings _ e).onward he (genuine_preloads hr _ e)

theorem supplied_preloadRules (hr : h.Reads text) (he : e.Faithful text)
    (htold : TellableAll text e.rules) : (e.preloadRules h).1.Supplied text e.rules := by
  intro r hm hen path hp
  have hheld := preloadEach_holds hr he (tellableAll_iff.1 htold) (r, path)
    (mem_functionRules.2 ⟨hm, hen, hp⟩)
  unfold preloadRules preloadFiles
  cases hf : preloadEach h (functionRules e.rules) e with | mk e' result
  rw [hf] at hheld
  cases result <;> exact hheld

def sharingRules : List Rule :=
  [⟨"1", "Title", true, "", .functionFile "title.py"⟩,
    ⟨"2", "Gone", true, "", .functionFile "gone.py"⟩,
    ⟨"3", "Title again", true, "", .functionFile "title.py"⟩,
    ⟨"4", "Work", true, "is-work", .criteria ⟨["work"], [], [], []⟩⟩]

end NoteDecor.Engine
