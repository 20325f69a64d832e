import NoteDecor.Proofs.Engine.Loading
import NoteDecor.Proofs.Log.Merging
import NoteDecor.Proofs.Steps

/-! Whose records a pass makes. While an enabled rule is handled its id and name are the innermost
open context, so that every record in between carries the id, whatever is open around it; and however
a pass ends, what was open before it is open after it. -/

namespace NoteDecor

namespace Log

theorem Record.valueAt?_make (k : String) (level : Level) (message : String)
    (opened : List Context) (own : Context) (exception : Bool) :
    valueAt? k (Record.make level message opened own exception).context =
      (valueAt? k own.reverse).or (valueAt? k opened.flatten.reverse) := by
  have hcontext : (Record.make level message opened own exception).context =
      Context.collected (opened.flatten ++ own) := Context.merge_extend opened own
  rw [hcontext, Context.valueAt?_collected, List.reverse_append, valueAt?_append]

structure Journal.Continues (kind : Record → Prop) (j j' : Journal) : Prop where
  records : ∃ new, j'.records = j.records ++ new ∧ ∀ record ∈ new, kind record
  contexts : j'.contexts = j.contexts

namespace Journal.Continues

variable {kind : Record → Prop} {j j' j'' : Journal}

theorem refl (j : Journal) : Continues kind j j := ⟨⟨[], (List.append_nil _).symm, nofun⟩, rfl⟩

theorem of_eq (h : j' = j) : Continues kind j j' := by
  rw [h]
  exact refl j

theorem trans (h : Continues kind j j') (h' : Continues kind j' j'') : Continues kind j j'' where
  records := by
    obtain ⟨new, hnew, hkind⟩ := h.records
    obtain ⟨more, hmore, hkind'⟩ := h'.records
    refine ⟨new ++ more, ?_, ?_⟩
    · rw [hmore, hnew, List.append_assoc]
    · intro record hrecord
      rcases List.mem_append.1 hrecord with hrecord | hrecord
      · exact hkind record hrecord
      · exact hkind' record hrecord
  contexts := h'.contexts.trans h.contexts

theorem add {level : Level} {message : String} {own : Context} {exception : Bool}
    (hkind : kind (.make level message j.contexts own exception)) :
    Continues kind j (j.add level message own exception) := by
  obtain ⟨new, hadd, hmade⟩ := j.exists_add level message own exception
  rw [hadd]
  refine ⟨⟨new, rfl, ?_⟩, rfl⟩
  intro record hrecord
  rw [hmade record hrecord]
  exact hkind

theorem within {c : Context} (h : Continues kind (j.enter c) j') : Continues kind j j'.leave where
  records := h.records
  contexts := by
    have hopen : j'.contexts = j.contexts ++ [c] := h.contexts
    have hleft : j'.leave.contexts = j'.contexts.dropLast := rfl
    rw [hleft, hopen, List.dropLast_concat]

end Journal.Continues

end Log

/-- What is open while a rule is handled. -/
def Rule.context (r : Rule) : Log.Context := [("rule_id", .text r.id), ("rule_name", .text r.name)]

def Rule.Named (r : Rule) (record : Log.Record) : Prop :=
  valueAt? "rule_id" record.context = some (.text r.id)

def Rule.Innermost (r : Rule) (j : Log.Journal) : Prop := ∃ outer, j.contexts = outer ++ [r.context]

namespace Rule

variable {r : Rule} {j j' : Log.Journal}

theorem Innermost.enter (r : Rule) (j : Log.Journal) : r.Innermost (j.enter r.context) :=
  ⟨j.contexts, rfl⟩

theorem Innermost.continues {kind : Log.Record → Prop} (h : r.Innermost j)
    (hj : Log.Journal.Continues kind j j') : r.Innermost j' := by
  obtain ⟨outer, houter⟩ := h
  exact ⟨outer, hj.contexts.trans houter⟩

theorem Innermost.named (h : r.Innermost j) {own : Log.Context}
    (hown : valueAt? "rule_id" own.reverse = none) (level : Log.Level) (message : String)
    (exception : Bool) : r.Named (.make level message j.contexts own exception) := by
  obtain ⟨outer, houter⟩ := h
  have hopen : valueAt? "rule_id" (outer ++ [r.context]).flatten.reverse = some (.text r.id) := by
    rw [List.flatten_append, List.reverse_append, valueAt?_append]
    rfl
  unfold Named
  rw [Log.Record.valueAt?_make, hown, Option.none_or, houter, hopen]

theorem Innermost.note (h : r.Innermost j) {own : Log.Context}
    (hown : valueAt? "rule_id" own.reverse = none) (level : Log.Level) (message : String) :
    Log.Journal.Continues r.Named j (j.note level message own) :=
  .add (h.named hown level message false)

end Rule

namespace Engine

variable {h : Host} {r : Rule}

abbrev Names (r : Rule) (e e' : Engine) : Prop := Log.Journal.Continues r.Named e.journal e'.journal

theorem read_journal (h : Host) (e : Engine) (path : String) :
    (e.read h path).1.journal = e.journal := by
  unfold read
  dsimp only
  split <;> rfl

theorem keep_names {e : Engine} (hr : r.Innermost e.journal) (path source note : String) :
    Names r e (e.keep path source note) := hr.note rfl ..

theorem load_names {e : Engine} (hr : r.Innermost e.journal) (path : String) :
    Names r e (e.load h path).1 := by
  unfold load
  dsimp only
  cases e.cache.find? path with
  | some source => exact .refl _
  | none =>
    have hjournal := read_journal h { e with cache := e.cache.count path } path
    dsimp only
    cases hread : read h { e with cache := e.cache.count path } path with | mk e' result
    rw [hread] at hjournal
    have hasked : Names r e e' := .of_eq hjournal
    cases result with
    | error stop => exact hasked
    | ok source => exact hasked.trans (keep_names (hr.continues hasked) path source _)

theorem runJob_names {e : Engine} (hr : r.Innermost e.journal) (path : String) :
    Names r e (e.runJob h path).1 := by
  have hload := load_names (h := h) hr path
  rcases runJob_engine h e path with heq | ⟨f, heq⟩ <;> rw [heq]
  · exact hload
  · exact hload.trans ((hr.continues hload).note rfl ..)

theorem loadInBackground_names (hs : h.schedule ≠ .apart) {e : Engine}
    (hr : r.Innermost e.journal) (path : String) : Names r e (e.loadInBackground h path).1 := by
  unfold loadInBackground
  cases hsched : h.schedule with
  | queued => exact .refl _
  | inline => exact runJob_names hr path
  | apart => exact absurd hsched hs

theorem evaluateSource_names {e : Engine} (hr : r.Innermost e.journal) (path source : String)
    (s : Snapshot) : Names r e (e.evaluateSource h path source s).1 := by
  unfold evaluateSource
  split
  · exact hr.note rfl ..
  · exact .refl _
  · exact .refl _
  · exact .refl _
  · exact .add (hr.named rfl ..)

theorem evaluateFile_names (hs : h.schedule ≠ .apart) {e : Engine} (hr : r.Innermost e.journal)
    (path : String) (s : Snapshot) : Names r e (e.evaluateFile h path s).1 := by
  cases hf : e.cache.find? path with
  | some source =>
    unfold evaluateFile
    simp only [hf]
    exact evaluateSource_names (e := { e with
      tally := { e.tally with evaluations := e.tally.evaluations + 1 }
      cache := e.cache.count path }) hr path source s
  | none =>
    have hasking : Names r e (e.asking path) := hr.note rfl ..
    have hload := loadInBackground_names hs (hr.continues hasking) path
    rw [evaluateFile_missing hf]
    cases hl : (e.asking path).loadInBackground h path with | mk e' result
    rw [hl] at hload
    cases result <;> exact hasking.trans hload

theorem evaluateCriteria_names {e : Engine} (hr : r.Innermost e.journal) (c : Criteria)
    (s : Snapshot) : Names r e (e.evaluateCriteria c s).1 := by
  unfold evaluateCriteria
  dsimp only
  split
  · exact .refl _
  · refine hr.note ?_ ..
    cases c.verdict s <;> rfl

theorem evaluateRule_names (hs : h.schedule ≠ .apart) {e : Engine} (hr : r.Innermost e.journal)
    (s : Snapshot) : Names r e (e.evaluateRule h r s).1 := by
  unfold evaluateRule
  cases r.config with
  | criteria c => exact evaluateCriteria_names hr c s
  | functionFile path => exact evaluateFile_names hs hr path s
  | unrecognized type options =>
    -- here the call itself says the id once more
    refine .add ?_
    unfold Rule.Named
    rw [Log.Record.valueAt?_make]
    rfl

theorem evaluateWithin_names (hs : h.schedule ≠ .apart) (e : Engine) (r : Rule) (s : Snapshot) :
    Names r e (e.evaluateWithin h r s).1 := by
  have hrule : Names r (e.entering r) ((e.entering r).evaluateRule h r s).1 :=
    evaluateRule_names hs (.enter r e.journal) s
  exact hrule.within

theorem noteApplied_names (e : Engine) (r : Rule) (s : Snapshot) (o : Outcome) :
    Names r e (e.noteApplied r s o).1 := by
  unfold noteApplied
  split
  · exact .refl _
  · split
    · exact .refl _
    · refine .add ?_
      unfold Rule.Named
      rw [Log.Record.valueAt?_make]
      rfl

theorem evaluateEnabled_names (hs : h.schedule ≠ .apart) (e : Engine) (r : Rule) (s : Snapshot) :
    Names r e (e.evaluateEnabled h r s).1 := by
  have hwithin := evaluateWithin_names hs e r s
  rcases evaluateEnabled_engine h e r s with heq | ⟨o, heq⟩ <;> rw [heq]
  · exact hwithin
  · exact hwithin.trans (noteApplied_names _ r s o)

/-- The enabled rules that a pass comes to, each with the records that are made while it is
handled. -/
def handled (h : Host) (s : Snapshot) : List Rule → Engine → List (Rule × List Log.Record)
  | [], _ => []
  | r :: rs, e =>
    if r.enabled then
      let e' := (e.evaluateEnabled h r s).1
      (r, e'.journal.records.drop e.journal.records.length) ::
        match (e.evaluateEnabled h r s).2 with
        | .ok _ => handled h s rs e'
        | .error _ => []
    else handled h s rs e

theorem evaluateEnabled_adds (hs : h.schedule ≠ .apart) (e : Engine) (r : Rule) (s : Snapshot) :
    let e' := (e.evaluateEnabled h r s).1
    let new := e'.journal.records.drop e.journal.records.length
    e'.journal.records = e.journal.records ++ new ∧ ∀ record ∈ new, r.Named record := by
  intro e' new
  obtain ⟨added, hadded, hnamed⟩ := (evaluateEnabled_names hs e r s).records
  have hnew : new = added := by
    change e'.journal.records.drop _ = added
    rw [hadded, List.drop_left]
  rw [hnew]
  exact ⟨hadded, hnamed⟩

theorem evaluateAll_contexts (hs : h.schedule ≠ .apart) (s : Snapshot) (rules : List Rule)
    (e : Engine) : (evaluateAll h s rules e).1.journal.contexts = e.journal.contexts := by
  induction rules generalizing e with
  | nil => rfl
  | cons r rs ih =>
    by_cases hr : r.enabled = true
    · have hone := (evaluateEnabled_names hs e r s).contexts
      cases hv : (e.evaluateEnabled h r s).2 with
      | error stop => rw [evaluateAll_cons_stopped hr hv, hone]
      | ok v => rw [evaluateAll_cons_engine hr hv, ih, hone]
    · rw [evaluateAll_disabled hr, ih]

theorem evaluateAll_records (hs : h.schedule ≠ .apart) (s : Snapshot) (rules : List Rule)
    (e : Engine) : (evaluateAll h s rules e).1.journal.records =
      e.journal.records ++ (handled h s rules e).flatMap Prod.snd := by
  induction rules generalizing e with
  | nil => exact (List.append_nil _).symm
  | cons r rs ih =>
    by_cases hr : r.enabled = true
    · have hone := (evaluateEnabled_adds hs e r s).1
      rw [handled, if_pos hr]
      dsimp only
      rw [List.flatMap_cons]
      cases hv : (e.evaluateEnabled h r s).2 with
      | error stop => rw [evaluateAll_cons_stopped hr hv, List.flatMap_nil, List.append_nil, ← hone]
      | ok v => rw [evaluateAll_cons_engine hr hv, ih, ← List.append_assoc, ← hone]
    · rw [evaluateAll_disabled hr, handled, if_neg hr, ih]

theorem handled_named (hs : h.schedule ≠ .apart) (s : Snapshot) (rules : List Rule) (e : Engine) :
    ∀ x ∈ handled h s rules e, ∀ record ∈ x.2, x.1.Named record := by
  induction rules generalizing e with
  | nil => nofun
  | cons r rs ih =>
    by_cases hr : r.enabled = true
    · rw [handled, if_pos hr]
      intro x hx
      rcases List.mem_cons.1 hx with rfl | hx
      · exact (evaluateEnabled_adds hs e r s).2
      · cases hv : (e.evaluateEnabled h r s).2 with
        | error stop =>
          rw [hv] at hx
          cases hx
        | ok v =>
          rw [hv] at hx
          exact ih _ x hx
    · rw [handled, if_neg hr]
      exact ih e

theorem handled_rules (s : Snapshot) (rules : List Rule) (e : Engine) :
    (handled h s rules e).map Prod.fst <+: rules.filter Rule.enabled ∧
    ∀ vs, (evaluateAll h s rules e).2 = .ok vs →
      (handled h s rules e).map Prod.fst = rules.filter Rule.enabled := by
  induction rules generalizing e with
  | nil => exact ⟨List.prefix_rfl, fun _ _ => rfl⟩
  | cons r rs ih =>
    by_cases hr : r.enabled = true
    · rw [handled, if_pos hr, List.filter_cons_of_pos hr, evaluateAll_cons_result hr]
      obtain ⟨hstart, hall⟩ := ih (e.evaluateEnabled h r s).1
      dsimp only
      rw [List.map_cons]
      cases hv : (e.evaluateEnabled h r s).2 with
      | error stop => exact ⟨List.prefix_cons_inj r |>.2 (List.nil_prefix), nofun⟩
      | ok v =>
        refine ⟨(List.prefix_cons_inj r).2 hstart, fun vs hvs => ?_⟩
        obtain ⟨v', hv', hrest⟩ := bind_eq_ok.1 hvs
        obtain ⟨vs', hvs', -⟩ := bind_eq_ok.1 hrest
        rw [hall vs' hvs']
    · rw [handled, if_neg hr, List.filter_cons_of_neg hr, evaluateAll_disabled hr]
      exact ih e

/-- The records of a pass are those that were made while its rules were handled, one rule after the
other, and each of them carries the id of its rule, whatever is open around the pass. However the
pass ends, the same contexts are open as before. -/
theorem evaluateAll_named (hs : h.schedule ≠ .apart) (s : Snapshot) (rules : List Rule)
    (e : Engine) :
    (evaluateAll h s rules e).1.journal.contexts = e.journal.contexts ∧
    (evaluateAll h s rules e).1.journal.records =
      e.journal.records ++ (handled h s rules e).flatMap Prod.snd ∧
    (∀ r records, (r, records) ∈ handled h s rules e → ∀ record ∈ records,
      valueAt? "rule_id" record.context = some (.text r.id)) ∧
    (handled h s rules e).map Prod.fst <+: rules.filter Rule.enabled ∧
    ∀ vs, (evaluateAll h s rules e).2 = .ok vs →
      (handled h s rules e).map Prod.fst = rules.filter Rule.enabled := by
  obtain ⟨hstart, hall⟩ := handled_rules (h := h) s rules e
  refine ⟨evaluateAll_contexts hs s rules e, evaluateAll_records hs s rules e, ?_, hstart, hall⟩
  intro r records hmem record hrecord
  exact handled_named hs s rules e (r, records) hmem record hrecord

def interrupted : Host :=
  ⟨fun _ _ _ => .error (.told ⟨.interrupt, ""⟩), fun _ _ _ => .ok fun _ => .ok .null, .inline⟩

def betweenRules : List Rule :=
  [⟨"1", "Work", true, "is-work", .criteria ⟨["work"], [], [], []⟩⟩,
    ⟨"2", "Status", true, "", .functionFile "status.py"⟩,
    ⟨"3", "Home", true, "is-home", .criteria ⟨["home"], [], [], []⟩⟩]

def surrounded : Engine :=
  let e := start betweenRules .debug
  { e with journal := e.journal.enter [("rule_id", .text "outer")] }

theorem evaluateAll_interrupted :
    let pass := evaluateAll interrupted ⟨"x.md", "x", ["work"], []⟩ betweenRules surrounded
    let past := handled interrupted ⟨"x.md", "x", ["work"], []⟩ betweenRules surrounded
    interrupted.schedule ≠ .apart ∧ pass.2 = .error (.raised (.told ⟨.interrupt, ""⟩)) ∧
    past.map (fun x => (x.1.id, x.2.length)) = [("1", 2), ("2", 1)] ∧
    (∀ r records, (r, records) ∈ past → ∀ record ∈ records,
      valueAt? "rule_id" record.context = some (.text r.id)) ∧
    pass.1.journal.contexts = [[("rule_id", .text "outer")]] := by
  have hs : interrupted.schedule ≠ .apart := by decide
  obtain ⟨hcontexts, -, hnamed, -, -⟩ :=
    evaluateAll_named hs ⟨"x.md", "x", ["work"], []⟩ betweenRules surrounded
  exact ⟨hs, rfl, rfl, hnamed, hcontexts⟩

end Engine

end NoteDecor
