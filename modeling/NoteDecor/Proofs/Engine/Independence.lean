import Mathlib.Data.List.Forall2
import NoteDecor.Proofs.Engine.Loading
import NoteDecor.Proofs.Steps

/-! What the evaluation of a rule depends on: the text that is held of its file, if it has one, and
the level from which records are kept. When loads only wait, no evaluation changes either, so that a
pass is as many evaluations from one state. -/

namespace NoteDecor

theorem mapM_eq_ok_iff {ε α β : Type} {f : α → Except ε β} {xs : List α} {ys : List β} :
    xs.mapM f = .ok ys ↔ List.Forall₂ (fun x y => f x = .ok y) xs ys := by
  induction xs generalizing ys with
  | nil =>
    rw [List.mapM_nil, List.forall₂_nil_left_iff]
    exact ⟨fun h => (Except.ok.inj h).symm, fun h => h ▸ rfl⟩
  | cons x xs ih =>
    rw [mapM_cons_eq_ok, List.forall₂_cons_left_iff]
    constructor
    · rintro ⟨y, rest, hy, hr, rfl⟩
      exact ⟨y, rest, hy, ih.1 hr, rfl⟩
    · rintro ⟨y, rest, hy, hr, rfl⟩
      exact ⟨y, rest, hy, ih.2 hr, rfl⟩

/-- Rule functions depend on their source, their path and the document, not on the time. -/
def Host.Steady (h : Host) : Prop :=
  ∀ n m source path, h.function n source path = h.function m source path

def Host.Quiet (h : Host) (path : String) : Prop :=
  ∀ e : Engine, (e.loadInBackground h path).2 = .ok ()

namespace Engine

variable {h : Host}

theorem quiet_of_queued (hq : h.schedule = .queued) (path : String) : h.Quiet path := by
  intro e
  unfold loadInBackground
  rw [hq]

theorem evaluateSource_congr (hs : h.Steady) (e e' : Engine) (path source : String) (s : Snapshot) :
    (e.evaluateSource h path source s).2 = (e'.evaluateSource h path source s).2 := by
  unfold evaluateSource
  rw [hs (e.tally.evaluations - 1) (e'.tally.evaluations - 1)]
  cases Evaluation.run (h.function (e'.tally.evaluations - 1) source path) s with
  | ok o => cases o <;> rfl
  | error f => cases f <;> rfl

theorem evaluateFile_congr {path : String} (hq : h.Quiet path) (hs : h.Steady) {e e' : Engine}
    (hf : e.cache.find? path = e'.cache.find? path) (s : Snapshot) :
    (e.evaluateFile h path s).2 = (e'.evaluateFile h path s).2 := by
  cases hp : e.cache.find? path with
  | some source =>
    have hp' := hf.symm.trans hp
    unfold evaluateFile
    simp only [hp, hp']
    exact evaluateSource_congr hs ..
  | none =>
    have hn := hq (e.asking path)
    have hn' := hq (e'.asking path)
    rw [evaluateFile_missing hp, evaluateFile_missing (hf.symm.trans hp)]
    cases hl : (e.asking path).loadInBackground h path with | mk f result
    cases hl' : (e'.asking path).loadInBackground h path with | mk f' result'
    rw [hl] at hn
    rw [hl'] at hn'
    subst hn hn'
    rfl

theorem evaluateRule_congr {r : Rule} (hq : ∀ path, r.filePath? = some path → h.Quiet path)
    (hs : h.Steady) {e e' : Engine}
    (hf : ∀ path, r.filePath? = some path → e.cache.find? path = e'.cache.find? path)
    (s : Snapshot) : (e.evaluateRule h r s).2 = (e'.evaluateRule h r s).2 := by
  unfold evaluateRule
  unfold Rule.filePath? at hf hq
  cases hc : r.config with
  | criteria c =>
    unfold evaluateCriteria
    dsimp only
    split <;> rfl
  | functionFile path =>
    rw [hc] at hf hq
    exact evaluateFile_congr (hq path rfl) hs (hf path rfl) s
  | unrecognized type options => rfl

theorem noteApplied_congr {e e' : Engine} (ht : e.journal.threshold = e'.journal.threshold)
    (r : Rule) (s : Snapshot) (o : Outcome) :
    (e.noteApplied r s o).2 = (e'.noteApplied r s o).2 := by
  unfold noteApplied
  cases o.toValue with
  | error m => rfl
  | ok v =>
    simp only [ht]
    split <;> rfl

theorem evaluateEnabled_congr {r : Rule} (hq : ∀ path, r.filePath? = some path → h.Quiet path)
    (hs : h.Steady) {e e' : Engine}
    (hf : ∀ path, r.filePath? = some path → e.cache.find? path = e'.cache.find? path)
    (ht : e.journal.threshold = e'.journal.threshold) (s : Snapshot) :
    (e.evaluateEnabled h r s).2 = (e'.evaluateEnabled h r s).2 := by
  have hentered : ∀ path, r.filePath? = some path →
      (e.entering r).cache.find? path = (e'.entering r).cache.find? path := hf
  have hr : (e.evaluateWithin h r s).2 = (e'.evaluateWithin h r s).2 :=
    evaluateRule_congr hq hs hentered s
  have hthreshold : (e.evaluateWithin h r s).1.journal.threshold =
      (e'.evaluateWithin h r s).1.journal.threshold := by
    rw [(evaluateWithin_brings e r s).threshold, (evaluateWithin_brings e' r s).threshold, ht]
  simp only [evaluateEnabled_result, hr, noteApplied_congr hthreshold]

theorem evaluateEnabled_eq_ok {e : Engine} {r : Rule} {s : Snapshot} {v : Evaluation}
    (hv : (e.evaluateEnabled h r s).2 = .ok v) :
    v.rule = r ∧ (e.evaluateWithin h r s).2 = .ok v.outcome := by
  rw [evaluateEnabled_result] at hv
  obtain ⟨outcome, hwithin, hv⟩ := bind_eq_ok.1 hv
  cases outcome with
  | none =>
    cases hv
    exact ⟨rfl, hwithin⟩
  | some o =>
    obtain ⟨_, -, hv⟩ := bind_eq_ok.1 hv
    cases hv
    exact ⟨rfl, hwithin⟩

theorem soughtNow_queued (hq : h.schedule = .queued) (e : Engine) (r : Rule) :
    e.soughtNow h r = [] := by
  unfold soughtNow fetchedNow
  split
  · rw [if_pos hq]
  · rfl

theorem passReadings_queued (hq : h.schedule = .queued) (s : Snapshot) (rules : List Rule)
    (e : Engine) : passReadings h s rules e = [] :=
  List.flatMap_eq_nil_iff.2 fun v _ => soughtNow_queued hq v.1 v.2

theorem evaluateAll_entries (hq : h.schedule = .queued) (s : Snapshot) (rules : List Rule)
    (e : Engine) : (evaluateAll h s rules e).1.cache.entries = e.cache.entries := by
  rw [(evaluateAll_brings s rules e).entries, passReadings_queued hq]
  rfl

theorem evaluateAll_eq_mapM (hq : h.schedule = .queued) (hs : h.Steady) (s : Snapshot)
    (rules : List Rule) (e : Engine) :
    (evaluateAll h s rules e).2 =
      (rules.filter Rule.enabled).mapM fun r => (e.evaluateEnabled h r s).2 := by
  induction rules generalizing e with
  | nil => rfl
  | cons r rs ih =>
    by_cases hr : r.enabled
    · have hb := evaluateEnabled_brings (h := h) e r s
      rw [soughtNow_queued hq] at hb
      -- the engine left by one rule is as good for the others as the one before it
      have hsame (q : Rule) :
          ((e.evaluateEnabled h r s).1.evaluateEnabled h q s).2 = (e.evaluateEnabled h q s).2 :=
        evaluateEnabled_congr (fun path _ => quiet_of_queued hq path) hs
          (fun path _ => by rw [SourceCache.find?_eq, hb.entries]; rfl) hb.threshold s
      rw [evaluateAll_cons_result hr, ih, List.filter_cons_of_pos hr, List.mapM_cons]
      simp only [hsame]
    · rw [evaluateAll_disabled hr, List.filter_cons_of_neg hr, ih]

theorem evaluateAll_congr (hq : h.schedule = .queued) (hs : h.Steady) {e e' : Engine}
    (hc : e.cache.entries = e'.cache.entries)
    (ht : e.journal.threshold = e'.journal.threshold) (s : Snapshot) (rules : List Rule) :
    (evaluateAll h s rules e).2 = (evaluateAll h s rules e').2 := by
  rw [evaluateAll_eq_mapM hq hs, evaluateAll_eq_mapM hq hs]
  congr 1
  funext r
  refine evaluateEnabled_congr (fun path _ => quiet_of_queued hq path) hs (fun path _ => ?_) ht s
  rw [SourceCache.find?_eq, SourceCache.find?_eq, hc]

theorem evaluateEnabled_alone (hq : h.schedule = .queued) (hs : h.Steady) {e : Engine} {r : Rule}
    {s : Snapshot} {v : Evaluation} (hv : (e.evaluateEnabled h r s).2 = .ok v) {e' : Engine}
    (hc : e'.cache.entries = e.cache.entries) :
    v.rule = r ∧ (e'.evaluateRule h r s).2 = .ok v.outcome := by
  obtain ⟨hr, hw⟩ := evaluateEnabled_eq_ok hv
  refine ⟨hr, Eq.trans ?_ hw⟩
  have hsame : ∀ path, r.filePath? = some path →
      e'.cache.find? path = (e.entering r).cache.find? path := fun path _ => by
    rw [SourceCache.find?_eq, hc]
    rfl
  exact evaluateRule_congr (fun path _ => quiet_of_queued hq path) hs hsame s

theorem evaluateAll_append (hq : h.schedule = .queued) (hs : h.Steady) (s : Snapshot)
    (r₁ r₂ : List Rule) (e : Engine) :
    (evaluateAll h s (r₁ ++ r₂) e).2 = do
      let vs₁ ← (evaluateAll h s r₁ e).2
      let vs₂ ← (evaluateAll h s r₂ e).2
      return vs₁ ++ vs₂ := by
  simp only [evaluateAll_eq_mapM hq hs, List.filter_append, List.mapM_append]

theorem evaluateAll_mem (hq : h.schedule = .queued) (hs : h.Steady) {s : Snapshot}
    {rules : List Rule} {e : Engine} {vs : List Evaluation}
    (hv : (evaluateAll h s rules e).2 = .ok vs) {r : Rule} (hr : r ∈ rules)
    (he : r.enabled = true) : ∃ v ∈ vs, (e.evaluateEnabled h r s).2 = .ok v := by
  rw [evaluateAll_eq_mapM hq hs] at hv
  exact mapM_mem_left hv (List.mem_filter.2 ⟨hr, he⟩)

theorem evaluateAll_of_mem (hq : h.schedule = .queued) (hs : h.Steady) {s : Snapshot}
    {rules : List Rule} {e : Engine} {vs : List Evaluation}
    (hv : (evaluateAll h s rules e).2 = .ok vs) {v : Evaluation} (hm : v ∈ vs) :
    v.rule ∈ rules ∧ v.rule.enabled = true ∧ (e.evaluateEnabled h v.rule s).2 = .ok v := by
  rw [evaluateAll_eq_mapM hq hs] at hv
  obtain ⟨r, hr, hf⟩ := mapM_mem_right hv hm
  obtain ⟨hr, he⟩ := List.mem_filter.1 hr
  obtain ⟨rfl, -⟩ := evaluateEnabled_eq_ok hf
  exact ⟨hr, he, hf⟩

theorem evaluateAll_common (hq : h.schedule = .queued) (hs : h.Steady) {s : Snapshot}
    {rules other : List Rule} {e : Engine} {vs ws : List Evaluation}
    (hv : (evaluateAll h s rules e).2 = .ok vs) (hw : (evaluateAll h s other e).2 = .ok ws)
    {w : Evaluation} (hm : w ∈ ws) (hr : w.rule ∈ rules) : w ∈ vs := by
  obtain ⟨-, he, hf⟩ := evaluateAll_of_mem hq hs hw hm
  obtain ⟨v, hv, hg⟩ := evaluateAll_mem hq hs hv hr he
  rw [hf] at hg
  cases hg
  exact hv

theorem evaluateAll_part (hq : h.schedule = .queued) (hs : h.Steady) {s : Snapshot}
    {rules other : List Rule} {e : Engine} {vs : List Evaluation}
    (hv : (evaluateAll h s rules e).2 = .ok vs) (ho : ∀ r ∈ other, r.enabled → r ∈ rules) :
    ∃ ws, (evaluateAll h s other e).2 = .ok ws := by
  rw [evaluateAll_eq_mapM hq hs]
  rcases mapM_split (fun r => (e.evaluateEnabled h r s).2) (other.filter Rule.enabled) with
    hall | ⟨done, r, rest, ys, stop, hsplit, -, hstop⟩
  · exact hall
  · obtain ⟨hr, he⟩ := List.mem_filter.1 (hsplit ▸ List.mem_append_right done List.mem_cons_self)
    obtain ⟨v, -, hf⟩ := evaluateAll_mem hq hs hv (ho r hr he) he
    rw [hstop] at hf
    cases hf

/-- A pass that goes through evaluates each enabled rule as if it were alone, whatever else but the
cache the engine has been through. It leaves the cache as it is and would come out the same once
more; a part of its rules, in any order, comes out with the same evaluations, and so does what its
rules have in common with any other list of rules that goes through. -/
theorem evaluateAll_independent (hq : h.schedule = .queued) (hs : h.Steady) {s : Snapshot}
    {rules : List Rule} {e : Engine} {vs : List Evaluation}
    (hv : (evaluateAll h s rules e).2 = .ok vs) :
    List.Forall₂ (fun r v => v.rule = r ∧ ∀ e' : Engine, e'.cache.entries = e.cache.entries →
      (e'.evaluateRule h r s).2 = .ok v.outcome) (rules.filter Rule.enabled) vs ∧
    (evaluateAll h s rules e).1.cache.entries = e.cache.entries ∧
    (evaluateAll h s rules (evaluateAll h s rules e).1).2 = .ok vs ∧
    (∀ r₁ r₂, rules = r₁ ++ r₂ → ∃ vs₁ vs₂, (evaluateAll h s r₁ e).2 = .ok vs₁ ∧
      (evaluateAll h s r₂ e).2 = .ok vs₂ ∧ vs = vs₁ ++ vs₂) ∧
    (∀ other, (∀ r ∈ other, r.enabled → r ∈ rules) →
      ∃ ws, (evaluateAll h s other e).2 = .ok ws ∧ ∀ w ∈ ws, w ∈ vs) ∧
    ∀ other ws, (evaluateAll h s other e).2 = .ok ws → ∀ w ∈ ws, w.rule ∈ rules → w ∈ vs := by
  have hall := hv
  rw [evaluateAll_eq_mapM hq hs, mapM_eq_ok_iff] at hall
  have hkept := evaluateAll_entries hq s rules e
  refine ⟨hall.imp fun r v hf => ?_, hkept, ?_, ?_, fun other ho => ?_,
    fun other ws hw w hm hr => evaluateAll_common hq hs hv hw hm hr⟩
  · exact ⟨(evaluateEnabled_eq_ok hf).1, fun e' hc => (evaluateEnabled_alone hq hs hf hc).2⟩
  · have ht := (evaluateAll_brings (h := h) s rules e).threshold
    rw [evaluateAll_congr hq hs hkept ht, hv]
  · rintro r₁ r₂ rfl
    rw [evaluateAll_append hq hs] at hv
    obtain ⟨vs₁, h₁, hrest⟩ := bind_eq_ok.1 hv
    obtain ⟨vs₂, h₂, hvs⟩ := bind_eq_ok.1 hrest
    exact ⟨vs₁, vs₂, h₁, h₂, (Except.ok.inj hvs).symm⟩
  · obtain ⟨ws, hw⟩ := evaluateAll_part hq hs hv ho
    refine ⟨ws, hw, fun w hm => ?_⟩
    obtain ⟨hr, he, -⟩ := evaluateAll_of_mem hq hs hw hm
    exact evaluateAll_common hq hs hv hw hm (ho w.rule hr he)

def titling : Host := ⟨fun _ _ _ => .ok "",
  fun _ _ _ => .ok fun s => .ok (.record [("classNames", .texts [s.title])]), .queued⟩

def mixedRules : List Rule :=
  [⟨"1", "Title", true, "", .functionFile "title.py"⟩,
    ⟨"2", "Draft", true, "", .functionFile "draft.py"⟩,
    ⟨"3", "Work", true, "is-work", .criteria ⟨["work"], [], [], []⟩⟩,
    ⟨"4", "Later", true, "", .unrecognized "script" []⟩,
    ⟨"5", "Off", false, "", .functionFile "title.py"⟩]

def titleHeld : Engine :=
  { start mixedRules .debug with cache := SourceCache.empty.store "title.py" "" }

theorem evaluateAll_independent_mixed :
    titling.schedule = .queued ∧ titling.Steady ∧ ∃ vs,
      (evaluateAll titling ⟨"x.md", "X", ["work"], []⟩ mixedRules titleHeld).2 = .ok vs ∧
      vs.map Evaluation.isMatch = [true, false, true, false] ∧
      ∃ ws, (evaluateAll titling ⟨"x.md", "X", ["work"], []⟩ mixedRules.reverse titleHeld).2 =
        .ok ws ∧ ∀ w ∈ ws, w ∈ vs := by
  have hs : titling.Steady := fun _ _ _ _ => rfl
  refine ⟨rfl, hs, _, rfl, rfl, ?_⟩
  exact (evaluateAll_independent rfl hs rfl).2.2.2.2.1 mixedRules.reverse
    fun r hr _ => List.mem_reverse.1 hr

end Engine

end NoteDecor
