import NoteDecor.Proofs.CommandLine.Endings
import NoteDecor.Proofs.Engine.LazyLoading
import NoteDecor.Proofs.Engine.Statistics
import NoteDecor.Proofs.Notice.Listing

/-! A check and an evaluation over the same rule files. Both warn of the files that cannot be read,
and the one pass of an evaluation finds all others held. -/

namespace NoteDecor

namespace Engine

abbrev Files := String → Except Fault.Told String

/-- What a reader answers that reads such files. -/
def Files.answer (files : Files) (path : String) : Except Fault String :=
  (files path).mapError .told

variable {h : Host} {files : Files} {e : Engine}

theorem Files.tellable (files : Files) (path : String) : Tellable files.answer path := by
  intro k asked hmute
  obtain ⟨f, -, hf⟩ := mapError_eq_error.1 hmute
  cases hf

theorem Files.tellableAll (files : Files) (rules : List Rule) : TellableAll files.answer rules :=
  fun _ _ _ path _ => files.tellable path

theorem Files.answer_toOption (files : Files) (path : String) :
    (files.answer path).toOption = (files path).toOption := by
  unfold Files.answer
  cases files path <;> rfl

def Unreadable (files : Files) (r : Rule) : Prop :=
  ∃ path f, r.filePath? = some path ∧ files path = .error f

def warning? (files : Files) (file : Rule × String) : Option Warning :=
  match files file.2 with
  | .ok _ => none
  | .error f => some ⟨file.1.name, file.2, f.text⟩

def warningsOf (files : Files) (rules : List Rule) : List Warning :=
  (functionRules rules).filterMap (warning? files)

def outcomeOf (h : Host) (files : Files) (s : Snapshot) (n : Nat) (r : Rule) : Option Outcome :=
  match r.config with
  | .criteria c => if (c.verdict s).isMatch then some .empty else none
  | .functionFile path => (files path).toOption.bind fun source =>
    (Evaluation.run (h.function n source path) s).toOption.join
  | .unrecognized _ _ => none

def numbered : Nat → List Rule → List (Nat × Rule)
  | _, [] => []
  | n, r :: rs =>
    if r.enabled then (n, r) :: numbered (n + r.filePath?.toList.length) rs else numbered n rs

theorem map_numbered (n : Nat) (rules : List Rule) :
    (numbered n rules).map Prod.snd = rules.filter Rule.enabled := by
  induction rules generalizing n with
  | nil => rfl
  | cons r rs ih =>
    by_cases hr : r.enabled
    · simp only [numbered, if_pos hr, List.map_cons, ih, List.filter_cons_of_pos hr]
    · simp only [numbered, if_neg hr, ih, List.filter_cons_of_neg hr]

theorem outcomeOf_steady (hs : h.Steady) (s : Snapshot) (n m : Nat) (r : Rule) :
    outcomeOf h files s n r = outcomeOf h files s m r := by
  unfold outcomeOf
  simp only [hs n m]

theorem config_of_filePath? {r : Rule} {path : String} (hp : r.filePath? = some path) :
    r.config = .functionFile path := by
  unfold Rule.filePath? at hp
  split at hp
  · next q hq => rw [hq, Option.some.inj hp]
  · cases hp

theorem outcomeOf_of_unreadable {r : Rule} (hr : Unreadable files r) (s : Snapshot) (n : Nat) :
    outcomeOf h files s n r = none := by
  obtain ⟨path, f, hp, hf⟩ := hr
  unfold outcomeOf
  simp only [config_of_filePath? hp, hf]
  rfl

theorem outcomeOf_of_readable {r : Rule} {path source : String} (hp : r.filePath? = some path)
    (ht : files path = .ok source) (s : Snapshot) (n : Nat) :
    outcomeOf h files s n r = (Evaluation.run (h.function n source path) s).toOption.join := by
  unfold outcomeOf
  simp only [config_of_filePath? hp, ht]
  rfl

theorem warningsOf_ne_nil_iff (rules : List Rule) :
    warningsOf files rules ≠ [] ↔ ∃ r ∈ rules, r.enabled = true ∧ Unreadable files r := by
  unfold warningsOf
  rw [ne_eq, List.filterMap_eq_nil_iff]
  constructor
  · intro hne
    push Not at hne
    obtain ⟨file, hfile, hw⟩ := hne
    obtain ⟨hm, hen, hp⟩ := mem_functionRules.1 hfile
    cases ht : files file.2 with
    | ok source => simp [warning?, ht] at hw
    | error f => exact ⟨file.1, hm, hen, file.2, f, hp, ht⟩
  · rintro ⟨r, hm, hen, path, f, hp, hf⟩ hall
    have hw := hall (r, path) (mem_functionRules.2 ⟨hm, hen, hp⟩)
    simp [warning?, hf] at hw

theorem preload_files (hr : h.Reads files.answer) (e : Engine) (path : String) :
    (e.preload h path).2 = (files path).mapError fun f => .load ⟨path, some f⟩ := by
  rw [preload_result hr]
  unfold Files.answer
  cases hf : files path with
  | ok source => rfl
  | error f =>
    have hk : f.kind.isOrdinary = true := hr.ordinary path (.told f) (by rw [Files.answer, hf]; rfl)
    exact congrArg Except.error (if_pos hk)

theorem preloadEach_result (hr : h.Reads files.answer) (asked : List (Rule × String))
    (e : Engine) : (preloadEach h asked e).2 = .ok (asked.filterMap (warning? files)) := by
  induction asked generalizing e with
  | nil => rfl
  | cons file rest ih =>
    have hone := preload_files hr e file.2
    cases hp : e.preload h file.2 with | mk e' result
    rw [hp] at hone
    obtain rfl := hone
    cases ht : files file.2 with
    | ok source =>
      rw [ht] at hp
      rw [preloadEach_cons_ok hp, List.filterMap_cons_none (by simp only [warning?, ht])]
      exact ih e'
    | error f =>
      rw [ht] at hp
      have hw : warning? files file = some ⟨file.1.name, file.2, f.text⟩ := by
        simp only [warning?, ht]
      rw [preloadEach_cons_load hp, List.filterMap_cons_some hw]
      dsimp only [LoadFault.detail]
      rw [ih]
      rfl

theorem preloadRules_result (hr : h.Reads files.answer) (e : Engine) :
    (e.preloadRules h).2 = .ok (warningsOf files e.rules) := by
  rw [preloadRules, preloadFiles_result]
  exact preloadEach_result hr (functionRules e.rules) e

theorem preloadRules_evaluations (e : Engine) :
    (e.preloadRules h).1.tally.evaluations = e.tally.evaluations := by
  have hnone (files : List (Rule × String)) (e : Engine) :
      (preloadEvents h files e).countP Event.isEvaluation = 0 := by
    induction files generalizing e with
    | nil => rfl
    | cons file rest ih =>
      have hasked : (e.asked h file.2).countP Event.isEvaluation = 0 := rfl
      unfold preloadEvents
      rw [List.countP_append, hasked, Nat.zero_add]
      split
      · exact ih _
      · exact ih _
      · rfl
  rw [preloadRules, (preloadFiles_accounts (h := h) _ e).evaluations, hnone, Nat.add_zero]

theorem evaluateEnabled_evaluations (e : Engine) (r : Rule) (s : Snapshot) :
    (e.evaluateEnabled h r s).1.tally.evaluations =
      e.tally.evaluations + r.filePath?.toList.length := by
  have hjob (e : Engine) (path : String) : (e.jobEvents h path).countP Event.isEvaluation = 0 := by
    unfold jobEvents asked
    split <;> rfl
  have hfile (e : Engine) (path : String) :
      (e.fileEvents h path s).countP Event.isEvaluation = 1 := by
    unfold fileEvents
    rw [List.countP_cons_of_pos rfl, Nat.add_eq_right]
    cases e.cache.find? path with
    | none =>
      dsimp only
      rw [List.countP_cons_of_neg (by simp [Event.isEvaluation])]
      split
      · rfl
      · exact hjob _ path
    | some source =>
      unfold sourceEvents
      dsimp only
      split <;> rfl
  rw [(evaluateEnabled_accounts e r s).evaluations]
  unfold ruleEvents
  cases r.filePath? with
  | none => rfl
  | some path => exact congrArg _ (hfile (e.entering r) path)

theorem evaluateFile_eq {r : Rule} {path : String} (hp : r.filePath? = some path)
    (hheld : e.cache.find? path = (files path).toOption) {s : Snapshot} {outcome : Option Outcome}
    (hresult : (e.evaluateFile h path s).2 = .ok outcome) :
    outcome = outcomeOf h files s e.tally.evaluations r := by
  cases ht : files path with
  | error f =>
    rw [ht] at hheld
    rw [evaluateFile_missing hheld] at hresult
    rw [outcomeOf_of_unreadable ⟨path, f, hp, ht⟩]
    split at hresult
    · exact (Except.ok.inj hresult).symm
    · cases hresult
  | ok source =>
    have hsource : e.cache.find? path = some source := by
      rw [ht] at hheld
      exact hheld
    simp only [evaluateFile, hsource, evaluateSource, Nat.add_sub_cancel] at hresult
    rw [outcomeOf_of_readable hp ht]
    cases hrun : Evaluation.run (h.function e.tally.evaluations source path) s with
    | ok o =>
      rw [hrun] at hresult
      cases o <;> exact (Except.ok.inj hresult).symm
    | error f =>
      rw [hrun] at hresult
      cases f with
      | failed c => exact (Except.ok.inj hresult).symm
      | mute asked => cases hresult
      | stopped f => cases hresult

theorem evaluateEnabled_eq (he : e.Faithful files.answer) {r : Rule}
    (hh : ∀ path, r.filePath? = some path → e.Holds files.answer path) {s : Snapshot} {v : Evaluation}
    (hv : (e.evaluateEnabled h r s).2 = .ok v) :
    v = ⟨r, outcomeOf h files s e.tally.evaluations r⟩ := by
  obtain ⟨hrule, hwithin⟩ := evaluateEnabled_eq_ok hv
  have hresult : ((e.entering r).evaluateRule h r s).2 = .ok v.outcome := hwithin
  suffices v.outcome = outcomeOf h files s e.tally.evaluations r by rw [← this, ← hrule]
  generalize v.outcome = outcome at hresult ⊢
  unfold evaluateRule at hresult
  cases hc : r.config with
  | criteria c =>
    simp only [hc, evaluateCriteria] at hresult
    split at hresult
    · cases hresult
    · simp only [outcomeOf, hc]
      exact (Except.ok.inj hresult).symm
  | unrecognized type options =>
    simp only [hc] at hresult
    simp only [outcomeOf, hc]
    exact (Except.ok.inj hresult).symm
  | functionFile path =>
    have hp : r.filePath? = some path := by simp only [Rule.filePath?, hc]
    have hheld : (e.entering r).cache.find? path = (files path).toOption :=
      (find?_of_holds he (hh path hp)).trans (files.answer_toOption path)
    simp only [hc] at hresult
    exact evaluateFile_eq hp hheld hresult

theorem evaluateAll_eq (hr : h.Reads files.answer) (he : e.Faithful files.answer) {s : Snapshot}
    {rules : List Rule} (hh : e.Supplied files.answer rules) {vs : List Evaluation}
    (hv : (evaluateAll h s rules e).2 = .ok vs) :
    vs = (numbered e.tally.evaluations rules).map fun p => ⟨p.2, outcomeOf h files s p.1 p.2⟩ := by
  induction rules generalizing e vs with
  | nil => exact (Except.ok.inj hv).symm
  | cons r rs ih =>
    have hrest : e.Supplied files.answer rs := fun q hq => hh q (List.mem_cons_of_mem r hq)
    by_cases hen : r.enabled
    · have honward := evaluateEnabled_onward hr he r s
      rw [evaluateAll_cons_result hen] at hv
      obtain ⟨v, hone, hv⟩ := bind_eq_ok.1 hv
      obtain ⟨ws, hws, hv⟩ := bind_eq_ok.1 hv
      obtain rfl : v :: ws = vs := Except.ok.inj hv
      have hlater := ih honward.faithful (hrest.onward honward) hws
      rw [evaluateEnabled_evaluations] at hlater
      rw [numbered, if_pos hen, List.map_cons, ← hlater,
        evaluateEnabled_eq he (hh r List.mem_cons_self hen) hone]
    · rw [evaluateAll_disabled hen] at hv
      rw [numbered, if_neg hen]
      exact ih he hrest hv

end Engine

namespace CommandLine

open Engine

variable {takes : Char → Bool} {h : Host} {files : Files} {e : Engine}

def unmatched (r : Rule) : Value := .record
  [("id", .text r.id), ("name", .text r.name), ("matched", .bool false), ("classNames", .list [])]

def ownNames (r : Rule) : List Value :=
  match r.config with
  | .criteria _ => [.text r.className]
  | _ => []

inductive Badges (o : Outcome) : List (String × Value) → Prop where
  | none : o.elements.isTrue = false → Badges o []
  | some {badges described : List Value} : o.elements.isTrue = true →
      o.elements.walk = .ok badges → badges.mapM Value.describe = .ok described →
      Badges o [("elements", .list described)]

inductive Entry (r : Rule) : Option Outcome → Value → Prop where
  | unmatched : Entry r none (unmatched r)
  | matched {o : Outcome} {names : List Value} {badges : List (String × Value)} :
      o.classNames.walk = .ok names → Badges o badges →
      Entry r (some o) (.record ([("id", .text r.id), ("name", .text r.name),
        ("matched", .bool true),
        ("classNames", .list ((ownNames r ++ names).filter Value.isTrue))] ++ badges))

theorem describeAll_eq (vs : List Value) : Value.describeAll vs = vs.mapM Value.describe := by
  induction vs with
  | nil => rfl
  | cons v vs ih =>
    rw [Value.describeAll, List.mapM_cons, ih]

theorem badges_of_described {r : Rule} {o : Outcome} {badges : List (String × Value)}
    (hb : Evaluation.describedBadges ⟨r, some o⟩ = .ok badges) : Badges o badges := by
  unfold Evaluation.describedBadges at hb
  dsimp only at hb
  split at hb
  · next htrue =>
    have hnull : ¬ o.elements.isNull = true := by
      intro hnull
      unfold Value.isNull at hnull
      split at hnull
      · next hnone =>
        rw [hnone] at htrue
        exact Bool.false_ne_true htrue
      · cases hnull
    obtain ⟨walked, hw, hb⟩ := bind_eq_ok.1 hb
    obtain ⟨described, hd, hb⟩ := bind_eq_ok.1 hb
    rw [Outcome.badges, if_neg hnull] at hw
    rw [describeAll_eq] at hd
    cases hb
    exact .some htrue hw hd
  · next hfalse =>
    cases hb
    exact .none (Bool.eq_false_iff.2 hfalse)

theorem names_of_applied {r : Rule} {o : Outcome} {names : List Value}
    (hn : Evaluation.appliedNames ⟨r, some o⟩ = .ok names) :
    ∃ given, o.classNames.walk = .ok given ∧
      names = (ownNames r ++ given).filter Value.isTrue := by
  have hown : Evaluation.ownClass r = (ownNames r).filter Value.isTrue := by
    have htext (s : String) : (Value.text s).isTrue = (s != "") := rfl
    unfold Evaluation.ownClass ownNames
    cases r.config with
    | criteria c => by_cases hc : r.className = "" <;> simp [hc, htext]
    | functionFile path => rfl
    | unrecognized type options => rfl
  obtain ⟨said, hs, hn⟩ := bind_eq_ok.1 hn
  obtain ⟨given, hg, hs⟩ := bind_eq_ok.1 hs
  cases hs
  cases hn
  exact ⟨given, hg, by rw [hown, List.filter_append]⟩

theorem entry_of_report {r : Rule} {o : Option Outcome} {entry : Value}
    (hreport : Evaluation.report ⟨r, o⟩ = .ok entry) : Entry r o entry := by
  obtain ⟨names, hn, hreport⟩ := bind_eq_ok.1 hreport
  obtain ⟨badges, hb, hreport⟩ := bind_eq_ok.1 hreport
  cases hreport
  cases o with
  | none =>
    cases hn
    cases hb
    exact .unmatched
  | some o =>
    obtain ⟨given, hg, rfl⟩ := names_of_applied hn
    exact .matched hg (badges_of_described hb)

theorem pass_eq (hr : h.Reads files.answer) (he : e.Faithful files.answer) {s : Snapshot}
    {vs : List Evaluation} (hv : pass h e s = .ok vs) :
    vs = (numbered e.tally.evaluations e.rules).map fun p =>
      ⟨p.2, outcomeOf h files s p.1 p.2⟩ := by
  have honward := preloadRules_onward hr he
  have hsupplied := supplied_preloadRules hr he (files.tellableAll e.rules)
  unfold pass Engine.evaluate at hv
  rw [honward.rules] at hv
  rw [evaluateAll_eq hr honward.faithful hsupplied hv, preloadRules_evaluations]

def jsonOf (vs : List Evaluation) : Except Misuse String := do
  (Value.list (← vs.mapM Evaluation.report)).json

theorem written_of_json {vs : List Evaluation} {json : String} (hj : jsonOf vs = .ok json)
    (hp : Printable takes json) : written takes vs = .ok ⟨0, json ++ "\n"⟩ := by
  refine bind_eq_ok.2 ⟨json, mapError_eq_ok.2 hj, ?_⟩
  rw [print_of_printable hp]
  rfl

theorem eq_ok_of_toOption {ε α : Type} {x : Except ε α} {a : α} (h : x.toOption = some a) :
    x = .ok a := by
  cases x with
  | error e => cases h
  | ok b => exact congrArg Except.ok (Option.some.inj h)

theorem written_eq_ok {vs : List Evaluation} {answer : Answer}
    (ha : written takes vs = .ok answer) :
    ∃ entries json, vs.mapM Evaluation.report = .ok entries ∧
      (Value.list entries).json = .ok json ∧ answer = ⟨0, json ++ "\n"⟩ := by
  obtain ⟨json, hj, ha⟩ := bind_eq_ok.1 ha
  obtain ⟨entries, hentries, hjson⟩ := bind_eq_ok.1 (mapError_eq_ok.1 hj)
  obtain ⟨out, hout, ha⟩ := bind_eq_ok.1 ha
  cases ha
  exact ⟨entries, json, hentries, hjson, by rw [(print_eq_ok.1 hout).2]⟩

def noticeOf (ws : List Warning) : List String :=
  if ws = [] then [] else [Notice.listing ws ++ "\n"]

theorem mention_eq (ws : List Warning) : mention ws = .ok ((noticeOf ws).map .text) := by
  unfold mention noticeOf
  by_cases hws : ws = []
  · rw [if_pos hws, hws]
    rfl
  · rw [if_neg hws, if_neg (by simpa using hws), Notice.default_eq_listing hws]
    rfl

theorem check_eq_ok_iff (hr : h.Reads files.answer) (e : Engine) (answer : Answer) :
    let ws := warningsOf files e.rules
    (check takes h e).result = .ok answer ↔ Printable takes (findings e.rules ws) ∧
      answer = ⟨if ws = [] then 0 else 1, findings e.rules ws ++ "\n"⟩ := by
  intro ws
  rw [check_result (preloadRules_result hr e), map_eq_ok]
  constructor
  · rintro ⟨out, hout, rfl⟩
    obtain ⟨hprint, rfl⟩ := print_eq_ok.1 hout
    exact ⟨hprint, rfl⟩
  · rintro ⟨hprint, rfl⟩
    exact ⟨_, print_eq_ok.2 ⟨hprint, rfl⟩, rfl⟩

theorem evaluate_lines (hr : h.Reads files.answer) (e : Engine) (s : Snapshot) :
    ∃ before after : List Log.Record, (evaluate takes h e s).lines =
      before.map .record ++ (noticeOf (warningsOf files e.rules)).map .text ++
        after.map .record := by
  have hwarnings := preloadRules_result hr e
  unfold evaluate
  cases hp : e.preloadRules h with | mk e' result
  rw [hp] at hwarnings
  obtain rfl := hwarnings
  dsimp only
  unfold evaluateLoaded
  rw [mention_eq]
  exact ⟨_, _, rfl⟩

theorem Reads.reports (hr : h.Reads files.answer) : h.Reports := by
  intro records n path f hf
  rw [hr.read_eq] at hf
  have hk := hr.ordinary path f hf
  obtain ⟨t, -, rfl⟩ := mapError_eq_error.1 hf
  exact ⟨t, rfl, hk⟩

theorem evaluate_entries (hr : h.Reads files.answer) (he : e.Faithful files.answer) {s : Snapshot}
    {answer : Answer} (ha : (evaluate takes h e s).result = .ok answer) :
    ∃ entries json, List.Forall₂ (fun p entry => Entry p.2 (outcomeOf h files s p.1 p.2) entry)
        (numbered e.tally.evaluations e.rules) entries ∧
      (Value.list entries).json = .ok json ∧ answer = ⟨0, json ++ "\n"⟩ := by
  rw [evaluate_result (Reads.reports hr)] at ha
  obtain ⟨vs, hvs, hwritten⟩ := bind_eq_ok.1 ha
  obtain ⟨entries, json, hentries, hjson, hanswer⟩ := written_eq_ok hwritten
  rw [pass_eq hr he (mapError_eq_ok.1 hvs), mapM_eq_ok_iff, List.forall₂_map_left_iff] at hentries
  exact ⟨entries, json, hentries.imp fun _ _ => entry_of_report, hjson, hanswer⟩

/-- Over rule files that stay as they are, a check answers whenever it can print what it finds, with
one exactly if the file of an enabled rule cannot be read, and then with a notice of just these
rules in their order. An evaluation gives the same notice between its records, or none when the
check finds nothing; when it comes to its end it has printed one entry for each enabled rule in
order. The rules of the notice have entries that say nothing, and the entry of any other rule with a
file tells what one run of the text of that file comes to on the document. -/
theorem check_evaluate_agree (takes : Char → Bool) (hr : h.Reads files.answer)
    (he : e.Faithful files.answer) (s : Snapshot) :
    let ws := warningsOf files e.rules
    (∀ answer, (check takes h e).result = .ok answer ↔ Printable takes (findings e.rules ws) ∧
      answer = ⟨if ws = [] then 0 else 1, findings e.rules ws ++ "\n"⟩) ∧
    (ws ≠ [] ↔ ∃ r ∈ e.rules, r.enabled = true ∧ Unreadable files r) ∧
    (∃ before after : List Log.Record, (evaluate takes h e s).lines =
      before.map .record ++ (noticeOf ws).map .text ++ after.map .record) ∧
    ∀ answer, (evaluate takes h e s).result = .ok answer →
      let calls := numbered e.tally.evaluations e.rules
      ∃ entries json, (Value.list entries).json = .ok json ∧ answer = ⟨0, json ++ "\n"⟩ ∧
        calls.map Prod.snd = e.rules.filter Rule.enabled ∧
        List.Forall₂ (fun call entry =>
          Entry call.2 (outcomeOf h files s call.1 call.2) entry ∧
          (Unreadable files call.2 → entry = unmatched call.2) ∧
          ∀ path source, call.2.filePath? = some path → files path = .ok source →
            ∀ n, n = call.1 ∨ h.Steady →
              Entry call.2 (Evaluation.run (h.function n source path) s).toOption.join entry)
          calls entries := by
  refine ⟨check_eq_ok_iff hr e, warningsOf_ne_nil_iff e.rules, evaluate_lines hr e s,
    fun answer ha => ?_⟩
  obtain ⟨entries, json, hentries, hjson, hanswer⟩ := evaluate_entries hr he ha
  refine ⟨entries, json, hjson, hanswer, map_numbered _ e.rules, hentries.imp ?_⟩
  -- a function that is steady comes to the same at any number of evaluations
  intro call entry hentry
  refine ⟨hentry, fun hu => ?_, fun path source hp ht n hn => ?_⟩
  · rw [outcomeOf_of_unreadable hu] at hentry
    cases hentry
    rfl
  · have hsame : outcomeOf h files s call.1 call.2 = outcomeOf h files s n call.2 := by
      rcases hn with rfl | hs
      · rfl
      · exact outcomeOf_steady hs s _ _ call.2
    rwa [hsame, outcomeOf_of_readable hp ht] at hentry

theorem hostAt_reads (w : Surroundings) {log : Log.Files} (hlog : log.files = []) (root : Path) :
    (hostAt w log root).Reads (Files.answer (Vault.read log.disk root)) := by
  have hsame (records : List Log.Record) : writeLog log records = log := by
    induction records with
    | nil => rfl
    | cons r records ih =>
      have hline : log.append 0 (r.line programName) = log := by
        simp only [Log.Files.append, hlog, List.getElem?_nil]
      unfold writeLog at ih ⊢
      rw [List.foldl_cons, hline, ih]
  refine ⟨fun records n path => ?_, fun path f hf => ?_⟩
  · simp only [hostAt, Files.answer, hsame]
  · obtain ⟨t, ht, rfl⟩ := mapError_eq_error.1 hf
    exact read_ordinary ht

def titleVault : Disk := ⟨"", ⟨"/", []⟩, [(["title.py"], [])], [], fun _ => none⟩

theorem check_evaluate_agree_shared :
    let h := hostAt ⟨titleVault, [], titling.function, fun _ => true⟩ (.on titleVault) ⟨"/", []⟩
    let files : Files := Vault.read titleVault ⟨"/", []⟩
    let e := Engine.start sharingRules .info
    let s : Snapshot := ⟨"x.md", "X", ["work"], []⟩
    h.Reads files.answer ∧ e.Faithful files.answer ∧
    (∃ answer, (check (fun _ => true) h e).result = .ok answer ∧ answer.code = 1) ∧
    ∃ answer entries json, (evaluate (fun _ => true) h e s).result = .ok answer ∧
      (Value.list entries).json = .ok json ∧ answer = ⟨0, json ++ "\n"⟩ ∧
      entries.length = 4 ∧
      entries[1]? = some (unmatched ⟨"2", "Gone", true, "", .functionFile "gone.py"⟩) := by
  intro h files e s
  have hr : h.Reads files.answer := hostAt_reads _ rfl _
  have he : e.Faithful files.answer := nofun
  have hgone : Unreadable files ⟨"2", "Gone", true, "", .functionFile "gone.py"⟩ :=
    ⟨"gone.py", _, rfl, rfl⟩
  obtain ⟨hcheck, hne, -, hall⟩ := check_evaluate_agree (fun _ => true) hr he s
  have hmem : (⟨"2", "Gone", true, "", .functionFile "gone.py"⟩ : Rule) ∈ e.rules :=
    List.mem_cons_of_mem _ List.mem_cons_self
  have hne' : warningsOf files e.rules ≠ [] := hne.2 ⟨_, hmem, rfl, hgone⟩
  have hprintable (text : String) : Printable (fun _ => true) text := fun _ _ => rfl
  rw [if_neg hne'] at hcheck
  have hanswer := (hcheck ⟨1, findings e.rules (warningsOf files e.rules) ++ "\n"⟩).2
    ⟨hprintable _, rfl⟩
  refine ⟨hr, he, ⟨_, hanswer, rfl⟩, ?_⟩
  have hok : ((pass h e s).toOption.bind fun vs => (jsonOf vs).toOption).isSome = true := by
    decide +kernel
  obtain ⟨json, hjson⟩ := Option.isSome_iff_exists.1 hok
  obtain ⟨vs, hvs, hjson⟩ := Option.bind_eq_some_iff.1 hjson
  have hresult : (evaluate (fun _ => true) h e s).result = .ok ⟨0, json ++ "\n"⟩ := by
    rw [evaluate_result (Reads.reports hr), eq_ok_of_toOption hvs]
    exact written_of_json (eq_ok_of_toOption hjson) (hprintable json)
  obtain ⟨entries, json', hjson', hprinted, -, hentries⟩ := hall _ hresult
  have hlength := hentries.length_eq
  obtain ⟨first, rest, -, hrest, rfl⟩ := List.forall₂_cons_left_iff.1 hentries
  obtain ⟨second, rest, hsecond, -, rfl⟩ := List.forall₂_cons_left_iff.1 hrest
  exact ⟨_, _, json', hresult, hjson', hprinted, hlength.symm, congrArg some (hsecond.2.1 hgone)⟩

end CommandLine

end NoteDecor
