import NoteDecor.Proofs.Engine.Ordinary
import NoteDecor.Proofs.Engine.Runs

/-! Caches that hold nothing but what the reader yields, when the reader always answers for a path
in the same way. No step takes a text away or loses a pending load: what can be read of a path stays
held once it is, and a pending load ends with it being held. -/

namespace NoteDecor

/-- The reader answers for a path always in the same way, and its faults are ordinary ones. -/
structure Host.Reads (h : Host) (text : String → Except Fault String) : Prop where
  read_eq : ∀ records n path, h.read records n path = text path
  ordinary : ∀ path f, text path = .error f → f.kind.isOrdinary = true

def Tellable (text : String → Except Fault String) (path : String) : Prop :=
  ∀ k asked, text path ≠ .error (.mute k asked)

theorem Host.Reads.letsOut_iff {h : Host} {text : String → Except Fault String} (hr : h.Reads text)
    {path : String} {f g : Fault} (hf : text path = .error f) : f.LetsOut g ↔ ∃ k, f = .mute k g :=
  Fault.letsOut_iff (hr.ordinary path f hf)

namespace Engine

open Reading

variable {h : Host} {text : String → Except Fault String} {e e' : Engine}

/-- The cache holds nothing but what the reader yields. -/
def Faithful (text : String → Except Fault String) (e : Engine) : Prop :=
  ∀ path source, e.cache.find? path = some source → text path = .ok source

/-- What can be read of a path is held. -/
def Holds (text : String → Except Fault String) (e : Engine) (path : String) : Prop :=
  ∀ source, text path = .ok source → e.cache.find? path = some source

def Provided (text : String → Except Fault String) (e : Engine) (path : String) : Prop :=
  e.Holds text path ∨ path ∈ e.jobs

def Genuine (text : String → Except Fault String) (rs : List Reading) : Prop :=
  ∀ x ∈ rs, text x.path = .ok x.source

theorem genuine_nil : Genuine text [] := fun _ hx => absurd hx List.not_mem_nil

theorem find?_of_holds {path : String} (he : e.Faithful text) (hh : e.Holds text path) :
    e.cache.find? path = (text path).toOption := by
  cases ht : text path with
  | ok source => exact hh source ht
  | error f =>
    cases hc : e.cache.find? path with
    | none => rfl
    | some source =>
      have hs := he path source hc
      rw [ht] at hs
      cases hs

theorem lastPreloaded?_genuine {rs : List Reading} (hg : Genuine text rs) {path source : String}
    (hl : lastPreloaded? path rs = some source) : text path = .ok source := by
  induction rs with
  | nil => cases hl
  | cons x rs ih =>
    have hrest : Genuine text rs := fun y hy => hg y (List.mem_cons_of_mem x hy)
    cases x with
    | fetched p t => exact ih hrest hl
    | preloaded p t =>
      rcases Option.or_eq_some_iff.1 hl with hl | ⟨-, hl⟩
      · exact ih hrest hl
      · split at hl
        · next hp =>
            cases hl
            exact hp ▸ hg (.preloaded p source) List.mem_cons_self
        · cases hl

theorem firstFetched?_genuine {rs : List Reading} (hg : Genuine text rs) {path source : String}
    (hl : firstFetched? path rs = some source) : text path = .ok source := by
  induction rs with
  | nil => cases hl
  | cons x rs ih =>
    have hrest : Genuine text rs := fun y hy => hg y (List.mem_cons_of_mem x hy)
    cases x with
    | preloaded p t => exact ih hrest hl
    | fetched p t =>
      simp only [firstFetched?] at hl
      split at hl
      · next hp =>
          cases hl
          exact hp ▸ hg (.fetched p source) List.mem_cons_self
      · exact ih hrest hl

variable {rs : List Reading} {later : List String}

theorem Brings.find?_eq (hb : Brings e e' rs later) (path : String) :
    e'.cache.find? path =
      (lastPreloaded? path rs).or ((e.cache.find? path).or (firstFetched? path rs)) := by
  rw [SourceCache.find?_eq, hb.entries, valueAt?_stored, ← SourceCache.find?_eq]

theorem Faithful.brings (he : e.Faithful text) (hb : Brings e e' rs later)
    (hg : Genuine text rs) : e'.Faithful text := by
  intro path source hs
  rw [hb.find?_eq] at hs
  rcases Option.or_eq_some_iff.1 hs with hl | ⟨-, hs⟩
  · exact lastPreloaded?_genuine hg hl
  · rcases Option.or_eq_some_iff.1 hs with hh | ⟨-, hf⟩
    · exact he path source hh
    · exact firstFetched?_genuine hg hf

theorem Faithful.holds_of_isSome (he : e.Faithful text) {path : String}
    (hs : ∀ source, text path = .ok source → (e.cache.find? path).isSome) : e.Holds text path := by
  intro source ht
  obtain ⟨held, hh⟩ := Option.isSome_iff_exists.1 (hs source ht)
  have hsame := he path held hh
  rw [ht] at hsame
  rw [hh, Except.ok.inj hsame]

theorem Holds.brings {path : String} (hh : e.Holds text path) (he : e.Faithful text)
    (hb : Brings e e' rs later) (hg : Genuine text rs) : e'.Holds text path := by
  refine (he.brings hb hg).holds_of_isSome fun source ht => ?_
  rw [hb.find?_eq, hh source ht, Option.some_or, Option.isSome_or, Option.isSome_some, Bool.or_true]

theorem Provided.brings {path : String} (hp : e.Provided text path) (he : e.Faithful text)
    (hb : Brings e e' rs later) (hg : Genuine text rs) : e'.Provided text path := by
  rcases hp with hh | hj
  · exact .inl (hh.brings he hb hg)
  · exact .inr (hb.jobs ▸ List.mem_append_left later hj)

theorem read_eq (hr : h.Reads text) (e : Engine) (path : String) :
    (e.read h path).2 = (text path).mapError (.ofReading path) := by
  unfold read
  dsimp only
  rw [hr.read_eq]
  cases text path <;> rfl

theorem preloaded_eq (hr : h.Reads text) (e : Engine) (path : String) :
    e.preloaded h path = match text path with
      | .ok source => [.preloaded path source]
      | .error _ => [] := by
  unfold preloaded
  cases ht : text path <;> simp only [hr.read_eq, ht]

theorem fetched_eq (hr : h.Reads text) (he : e.Faithful text) (path : String) :
    e.fetched h path = match text path with
      | .ok source => [.fetched path source]
      | .error _ => [] := by
  unfold fetched
  cases hc : e.cache.find? path with
  | some source => simp only [he path source hc]
  | none => cases ht : text path <;> simp only [hr.read_eq, ht]

theorem genuine_preloaded (hr : h.Reads text) (e : Engine) (path : String) :
    Genuine text (e.preloaded h path) := by
  rw [preloaded_eq hr]
  cases ht : text path with
  | ok source => simpa [Genuine, Reading.path, Reading.source] using ht
  | error f => simp [Genuine]

theorem genuine_fetched (hr : h.Reads text) (he : e.Faithful text) (path : String) :
    Genuine text (e.fetched h path) := by
  rw [fetched_eq hr he]
  cases ht : text path with
  | ok source => simpa [Genuine, Reading.path, Reading.source] using ht
  | error f => simp [Genuine]

theorem holds_preload (hr : h.Reads text) (he : e.Faithful text) (path : String) :
    (e.preload h path).1.Holds text path := by
  have hb := preload_brings (h := h) e path
  refine (he.brings hb (genuine_preloaded hr e path)).holds_of_isSome fun source ht => ?_
  rw [hb.find?_eq, preloaded_eq hr, ht]
  simp [lastPreloaded?]

structure Onward (text : String → Except Fault String) (e e' : Engine) : Prop where
  faithful : e'.Faithful text
  holds : ∀ path, e.Holds text path → e'.Holds text path
  provided : ∀ path, e.Provided text path → e'.Provided text path
  threshold : e'.journal.threshold = e.journal.threshold
  rules : e'.rules = e.rules

theorem Onward.refl (he : e.Faithful text) : Onward text e e :=
  ⟨he, fun _ => id, fun _ => id, rfl, rfl⟩

theorem Onward.trans {e'' : Engine} (h₁ : Onward text e e') (h₂ : Onward text e' e'') :
    Onward text e e'' where
  faithful := h₂.faithful
  holds path hh := h₂.holds path (h₁.holds path hh)
  provided path hp := h₂.provided path (h₁.provided path hp)
  threshold := h₂.threshold.trans h₁.threshold
  rules := h₂.rules.trans h₁.rules

theorem Brings.onward (hb : Brings e e' rs later) (he : e.Faithful text)
    (hg : Genuine text rs) : Onward text e e' :=
  ⟨he.brings hb hg, fun _ hh => hh.brings he hb hg, fun _ hp => hp.brings he hb hg, hb.threshold,
    hb.rules⟩

theorem genuine_soughtNow (hr : h.Reads text) (he : e.Faithful text) (r : Rule) :
    Genuine text (e.soughtNow h r) := by
  unfold soughtNow
  split
  · next path _ =>
      unfold fetchedNow
      split
      · exact genuine_nil
      · exact genuine_fetched hr (he.brings (asking_brings e path) genuine_nil) path
  · exact genuine_nil

theorem evaluateEnabled_onward (hr : h.Reads text) (he : e.Faithful text) (r : Rule)
    (s : Snapshot) : Onward text e (e.evaluateEnabled h r s).1 :=
  (evaluateEnabled_brings e r s).onward he (genuine_soughtNow hr (e := e.entering r) he r)

end Engine

end NoteDecor
