import NoteDecor.Proofs.Rule.Reading
import NoteDecor.Proofs.Value.Display
import NoteDecor.Proofs.Value.Fields
import NoteDecor.Proofs.Value.Freezing
import NoteDecor.Rule.CriteriaText

/-! Rules that are written to settings and read again. -/

namespace NoteDecor
open Value

namespace Criteria

theorem checkScalar_eq_ok {f : Fault} {v : Value} :
    checkScalar f v = .ok () ↔ isScalar v = true ∧ v.isWritable = true := by
  unfold checkScalar refuse
  split
  · next h => exact iff_of_true rfl ((Bool.and_eq_true _ _).mp h)
  · next h => exact iff_of_false (by split <;> nofun) fun hv => h ((Bool.and_eq_true _ _).mpr hv)

theorem thaw_of_isScalar {v : Value} (h : isScalar v = true) : thaw v = v := by
  cases v with
  | list _ | tuple _ | map _ | «sealed» _ => cases h
  | _ => rfl

theorem thawList_of_isScalar {vs : List Value} (h : ∀ v ∈ vs, isScalar v = true) :
    thawList vs = vs := by
  induction vs with
  | nil => rfl
  | cons v vs ih =>
    rw [List.forall_mem_cons] at h
    rw [thawList, thaw_of_isScalar h.1, ih h.2]

theorem checkValue_thaw {key : String} {v : Value} (h : checkValue key v = .ok ()) :
    checkValue key (thaw v) = .ok () := by
  have hlisted {vs : List Value} (h : vs.forM (fun w => checkScalar (.item key w) w) = .ok ()) :
      (thawList vs).forM (fun w => checkScalar (.item key w) w) = .ok () := by
    rwa [thawList_of_isScalar fun w hw => (checkScalar_eq_ok.1 (forM_eq_ok.1 h w hw)).1]
  cases v with
  | list vs => exact hlisted h
  | tuple vs => exact hlisted h
  | map _ => cases (checkScalar_eq_ok.1 h).1
  | «sealed» _ => cases (checkScalar_eq_ok.1 h).1
  | _ => exact h

theorem checkEntry_thaw {k v : Value} (h : checkEntry (k, v) = .ok ()) :
    checkEntry (k, thaw v) = .ok () := by
  cases k with
  | text key => exact checkValue_thaw h
  | _ => exact h

theorem checkFrontmatter_eq_ok {v : Value} {es : Entries} :
    checkFrontmatter v = .ok es ↔ v.entries? = some es ∧ ∀ e ∈ es, checkEntry e = .ok () := by
  unfold checkFrontmatter
  cases v.entries? with
  | none => simp
  | some fs =>
    simp only [bind_eq_ok, Option.some.injEq]
    constructor
    · rintro ⟨_, hchecked, h⟩
      cases h
      exact ⟨rfl, forM_eq_ok.1 hchecked⟩
    · rintro ⟨rfl, hchecked⟩
      exact ⟨(), forM_eq_ok.2 hchecked, rfl⟩

theorem checkFrontmatter_thaw {v : Value} {es : Entries} (h : checkFrontmatter v = .ok es) :
    checkFrontmatter (map (thawEntries es)) = .ok (thawEntries es) := by
  refine checkFrontmatter_eq_ok.2 ⟨rfl, ?_⟩
  replace h := (checkFrontmatter_eq_ok.1 h).2
  induction es with
  | nil => nofun
  | cons e es ih =>
    rw [List.forall_mem_cons] at h
    rw [thawEntries, List.forall_mem_cons]
    exact ⟨checkEntry_thaw h.1, ih h.2⟩

structure Settled (c : Criteria) : Prop where
  frozen : freezeEntries c.frontmatter = c.frontmatter
  checked : checkFrontmatter (map (thawEntries c.frontmatter)) = .ok (thawEntries c.frontmatter)

theorem make_settled {v : Value} {es : Entries} (h : checkFrontmatter v = .ok es)
    (tags paths titles : List String) : (make tags paths titles es).Settled := by
  refine ⟨freezeEntries_freezeEntries es, ?_⟩
  rw [make, thawEntries_freezeEntries]
  exact checkFrontmatter_thaw h

theorem updateFrontmatter_settled {c c' : Criteria} {text : String}
    (h : c.updateFrontmatter text = .ok c') : c'.Settled := by
  obtain ⟨es, hes, h⟩ := bind_eq_ok.1 h
  cases h
  unfold parseFrontmatter at hes
  split at hes
  · cases hes
    exact make_settled (v := map []) rfl _ _ _
  · split at hes
    · exact make_settled (mapError_eq_ok.1 hes) _ _ _
    · cases hes
    · cases hes

end Criteria

namespace Rule

theorem readCriteria_settled {es : Entries} {c : Criteria} (h : readCriteria es = .ok c) :
    c.Settled := by
  obtain ⟨tags, -, h⟩ := bind_eq_ok.1 h
  obtain ⟨paths, -, h⟩ := bind_eq_ok.1 h
  obtain ⟨titles, -, h⟩ := bind_eq_ok.1 h
  obtain ⟨fm, hfm, h⟩ := bind_eq_ok.1 h
  cases h
  exact Criteria.make_settled (mapError_eq_ok.1 hfm) _ _ _

theorem readTokens_of_texts {es : Entries} {key : String} {ss : List String}
    (h : es.field? key = some (texts ss)) : readTokens es key = .ok ss := by
  have hitems : (((es.field? key).getD null).orElse (list [])).items? = some (ss.map text) := by
    rw [h, Option.getD_some, texts, list_orElse]
    rfl
  rw [readTokens, hitems]
  simp only [mapM_text?_eq_some.2 rfl]

theorem readCriteria_toEntries {c : Criteria} (h : c.Settled) :
    readCriteria (Config.criteria c).toEntries = .ok c := by
  have hfm : (Criteria.checkFrontmatter (((Entries.field? (Config.criteria c).toEntries
      "frontmatter").getD null).orElse (map []))).mapError Fault.criteria =
      .ok (thawEntries c.frontmatter) := by
    change (Criteria.checkFrontmatter ((map (thawEntries c.frontmatter)).orElse _)).mapError _ = _
    rw [map_orElse, h.checked]
    rfl
  refine bind_eq_ok.2 ⟨c.tags, readTokens_of_texts rfl, bind_eq_ok.2 ⟨c.paths,
    readTokens_of_texts rfl, bind_eq_ok.2 ⟨c.titles, readTokens_of_texts rfl,
    bind_eq_ok.2 ⟨_, hfm, ?_⟩⟩⟩⟩
  rw [Criteria.make, freezeEntries_thawEntries, h.frozen]
  rfl

def Config.Settled : Config → Prop
  | .criteria c => c.Settled
  | .functionFile _ => True
  | .unrecognized type options => type ≠ "individual" ∧ type ≠ "function-file" ∧
    ∀ e ∈ options, e.1.isKey "type" = false

def Config.plain : Config → Config
  | .unrecognized type options => .unrecognized type (thawEntries options)
  | c => c

def Config.SameClass : Config → Config → Prop
  | .criteria _, .criteria _ | .functionFile _, .functionFile _
  | .unrecognized .., .unrecognized .. => True
  | _, _ => False

theorem Config.sameClass_plain (c : Config) : c.SameClass c.plain := by
  cases c <;> trivial

theorem Config.toValue_plain (c : Config) : c.plain.toValue = c.toValue := by
  cases c with
  | unrecognized type options =>
    simp only [plain, toValue, toEntries, thawEntries_thawEntries]
  | _ => rfl

theorem Config.settled_of_ok {v : Value} {c : Config} (h : Config.ofValue v = .ok c) :
    c.Settled := by
  obtain ⟨es, -, hc⟩ := Config.ofValue_eq_ok.1 h
  cases hc with
  | criteria c _ hread => exact readCriteria_settled hread
  | functionFile path _ _ => trivial
  | unrecognized hi hf _ =>
    refine ⟨fun he => hi (eq_text_of_display he (by decide)),
      fun he => hf (eq_text_of_display he (by decide)), fun e he => ?_⟩
    simpa using (List.mem_filter.1 he).2

theorem Config.ends_plain (c : Config) : c.plain.ends = c.ends := by
  cases c with
  | unrecognized type options => exact endsEach_thawEntries options
  | _ => rfl

theorem Config.ends_iff {c : Config} : c.ends = true ↔
    ∀ type options, c = .unrecognized type options → endsEach options = true := by
  cases c with
  | unrecognized type options =>
    constructor
    · rintro h _ _ ⟨⟩
      exact h
    · exact fun h => h type options rfl
  | _ => exact iff_of_true rfl (by nofun)

theorem ends_stated {es : Entries} (h : endsEach es = true) (key : String) :
    (stated es key).ends = true := by
  unfold stated Entries.field?
  cases hfound : es.find? fun e => e.1.isKey key with
  | none => rfl
  | some e => exact endsEach_iff.1 h e (List.mem_of_find?_eq_some hfound)

theorem Config.ends_of_ok {v : Value} {c : Config} (h : Config.ofValue v = .ok c)
    (hv : v.ends = true) : c.ends = true := by
  obtain ⟨es, hes, hc⟩ := Config.ofValue_eq_ok.1 h
  cases hc with
  | criteria _ _ _ => rfl
  | functionFile _ _ _ => rfl
  | unrecognized _ _ _ =>
    exact endsEach_iff.2 fun e he =>
      endsEach_iff.1 (endsEach_of_entries hv hes) e (List.mem_filter.1 he).1

theorem thawEntries_eq_map (es : Entries) :
    thawEntries es = es.map fun e => (e.1, thaw e.2) := by
  induction es with
  | nil => rfl
  | cons e r ih => rw [thawEntries, List.map_cons, ih]

theorem Config.plain_settled {c : Config} (h : c.Settled) : c.plain.Settled := by
  cases c with
  | unrecognized type options =>
    refine ⟨h.1, h.2.1, ?_⟩
    rw [thawEntries_eq_map, List.forall_mem_map]
    exact h.2.2
  | _ => exact h

theorem setField_of_absent {es : Entries} {key : String} (v : Value)
    (h : ∀ e ∈ es, e.1.isKey key = false) : es.setField key v = es ++ [(text key, v)] := by
  induction es with
  | nil => rfl
  | cons e r ih =>
    rw [List.forall_mem_cons] at h
    rw [Entries.setField, h.1, ih h.2]
    rfl

theorem stated_append {es : Entries} {key : String} (h : ∀ e ∈ es, e.1.isKey key = false)
    (v : Value) : stated (es ++ [(text key, v)]) key = v := by
  have hnone : es.find? (fun e => e.1.isKey key) = none :=
    List.find?_eq_none.2 fun e he => by simp [h e he]
  have hkey : [(text key, v)].find? (fun e => e.1.isKey key) = some (text key, v) :=
    List.find?_cons_of_pos (isKey_eq.2 rfl)
  rw [stated, Entries.field?, List.find?_append, hnone, hkey]
  rfl

theorem others_append {es : Entries} {key : String} (h : ∀ e ∈ es, e.1.isKey key = false)
    (v : Value) : (es ++ [(text key, v)]).filter (fun e => !e.1.isKey key) = es := by
  have hkey : [(text key, v)].filter (fun e => !e.1.isKey key) = [] :=
    List.filter_cons_of_neg (by simp [isKey_eq.2 rfl])
  rw [List.filter_append, List.filter_eq_self.2 fun e he => by simp [h e he], hkey,
    List.append_nil]

theorem Config.ofValue_written {c : Config} (h : c.Settled) :
    Config.ofValue c.toValue = .ok c.plain := by
  refine Config.ofValue_eq_ok.2 ⟨c.toEntries, rfl, ?_⟩
  cases c with
  | criteria c => exact .criteria c rfl (readCriteria_toEntries h)
  | functionFile path => exact .functionFile path rfl rfl
  | unrecognized type options =>
    -- There was no type among the options, so that the one written is the only one to be read.
    have habsent := (plain_settled h).2.2
    have hread : ReadFrom (thawEntries options ++ [(text "type", text type)])
        (.unrecognized (stated (thawEntries options ++ [(text "type", text type)]) "type").display
          ((thawEntries options ++ [(text "type", text type)]).filter
            fun e => !e.1.isKey "type")) := by
      apply ReadFrom.unrecognized <;> rw [stated_append habsent]
      · exact fun he => h.1 (text.inj he)
      · exact fun he => h.2.1 (text.inj he)
      · rfl
    rw [stated_append habsent, others_append habsent] at hread
    rw [toEntries, setField_of_absent _ habsent]
    exact hread

structure Settled (r : Rule) : Prop where
  id : r.id ≠ ""
  config : r.config.Settled

def plain (r : Rule) : Rule := { r with config := r.config.plain }

theorem toValue_plain (r : Rule) : r.plain.toValue = r.toValue := by
  rw [toValue, plain, Config.toValue_plain]
  rfl

theorem settled_of_ok {v : Value} {r : Rule} (h : ofValue v = .ok r) : r.Settled := by
  obtain ⟨es, -, hr⟩ := ofValue_eq_ok.1 h
  obtain ⟨id, hid, -, hshown⟩ := hr.id
  refine ⟨fun he => (readId_eq_ok.1 hid).2.2 (eq_text_of_display ?_ (by decide)),
    Config.settled_of_ok hr.config⟩
  rw [hshown, he]

theorem ofValue_written {r : Rule} (h : r.Settled) : ofValue r.toValue = .ok r.plain := by
  refine ofValue_eq_ok.2 ⟨_, rfl, ⟨text r.id, ?_, rfl, rfl⟩, ⟨text r.name, rfl, rfl, rfl⟩, rfl, rfl,
    ?_⟩
  · exact readId_eq_ok.2 ⟨rfl, by nofun, fun he => h.id (text.inj he)⟩
  · change Config.ofValue ((map r.config.toEntries).orElse _) = _
    rw [map_orElse]
    exact Config.ofValue_written h.config

theorem write_plain (r : Rule) : r.plain.write = r.write := by
  rw [write, write, toValue_plain, plain, Config.ends_plain]

theorem ends_of_ok {v : Value} {r : Rule} (h : ofValue v = .ok r) (hv : v.ends = true) :
    r.config.ends = true := by
  obtain ⟨es, hes, hr⟩ := ofValue_eq_ok.1 h
  refine Config.ends_of_ok hr.config ?_
  unfold Value.orElse
  split
  · exact ends_stated (endsEach_of_entries hv hes) "config"
  · rfl

/-- A rule that has been given other frontmatter as text, any number of times. -/
inductive Edited (r : Rule) : Rule → Prop where
  | same : Edited r r
  | again {s : Rule} {c c' : Criteria} {text : String} : Edited r s → s.config = .criteria c →
      c.updateFrontmatter text = .ok c' → Edited r { s with config := .criteria c' }

theorem Edited.id_eq {r s : Rule} (h : Edited r s) : s.id = r.id := by
  induction h with
  | same => rfl
  | again _ _ _ ih => exact ih

theorem Edited.settled {r s : Rule} (h : Edited r s) (hr : r.Settled) : s.Settled := by
  induction h with
  | same => exact hr
  | again _ _ hupdate ih => exact ⟨ih.id, Criteria.updateFrontmatter_settled hupdate⟩

theorem Edited.ends_eq {r s : Rule} (h : Edited r s) : s.config.ends = r.config.ends := by
  induction h with
  | same => rfl
  | again _ hconfig _ ih =>
    rw [hconfig] at ih
    exact ih

theorem Edited.all_settled {rules edited : List Rule} (h : List.Forall₂ Edited rules edited)
    (hrules : ∀ r ∈ rules, r.Settled) : ∀ r ∈ edited, r.Settled := by
  induction h with
  | nil => nofun
  | cons hr _ ih =>
    rw [List.forall_mem_cons] at hrules ⊢
    exact ⟨hr.settled hrules.1, ih hrules.2⟩

theorem Edited.map_id {rules edited : List Rule} (h : List.Forall₂ Edited rules edited) :
    edited.map (·.id) = rules.map (·.id) := by
  induction h with
  | nil => rfl
  | cons hr _ ih => rw [List.map_cons, List.map_cons, hr.id_eq, ih]

theorem Edited.all_end_iff {rules edited : List Rule} (h : List.Forall₂ Edited rules edited) :
    (∀ r ∈ edited, r.config.ends = true) ↔ ∀ r ∈ rules, r.config.ends = true := by
  induction h with
  | nil => simp
  | cons hr _ ih => rw [List.forall_mem_cons, List.forall_mem_cons, hr.ends_eq, ih]

theorem writeAll_eq_ok {rules : List Rule} {vs : List Value} : writeAll rules = .ok vs ↔
    (∀ r ∈ rules, r.config.ends = true) ∧ rules.map toValue = vs := by
  induction rules generalizing vs with
  | nil => simp [writeAll, pure, Except.pure]
  | cons r rs ih =>
    rw [writeAll, mapM_cons_eq_ok, List.forall_mem_cons, List.map_cons]
    constructor
    · rintro ⟨w, ws, hw, hws, rfl⟩
      obtain ⟨hends, rfl⟩ := ih.1 hws
      unfold write at hw
      split at hw
      · next he =>
        cases hw
        exact ⟨⟨he, hends⟩, rfl⟩
      · cases hw
    · rintro ⟨⟨he, hends⟩, rfl⟩
      exact ⟨r.toValue, rs.map toValue, if_pos he, ih.2 ⟨hends, rfl⟩, rfl⟩

theorem all_settled_of_read {vs : List Value} {rules : List Rule}
    (h : List.Forall₂ (fun v r => ofValue v = .ok r) vs rules) : ∀ r ∈ rules, r.Settled := by
  induction h with
  | nil => nofun
  | cons hr _ ih =>
    rw [List.forall_mem_cons]
    exact ⟨settled_of_ok hr, ih⟩

theorem all_end_of_read {vs : List Value} {rules : List Rule}
    (h : List.Forall₂ (fun v r => ofValue v = .ok r) vs rules) (hvs : ∀ v ∈ vs, v.ends = true) :
    ∀ r ∈ rules, r.config.ends = true := by
  induction h with
  | nil => nofun
  | cons hr _ ih =>
    rw [List.forall_mem_cons] at hvs ⊢
    exact ⟨ends_of_ok hr hvs.1, ih hvs.2⟩

theorem settled_of_listOfValue {v : Value} {rules : List Rule} (h : listOfValue v = .ok rules) :
    (∀ r ∈ rules, r.Settled) ∧ (rules.map (·.id)).Nodup := by
  rcases listOfValue_eq_ok.1 h with ⟨-, rfl⟩ | ⟨vs, -, hread, hdistinct⟩
  · exact ⟨by nofun, List.nodup_nil⟩
  · exact ⟨all_settled_of_read hread, hdistinct⟩

theorem all_end_of_listOfValue {v : Value} {rules : List Rule} (h : listOfValue v = .ok rules)
    (hv : v.ends = true) : ∀ r ∈ rules, r.config.ends = true := by
  rcases listOfValue_eq_ok.1 h with ⟨-, rfl⟩ | ⟨vs, hvs, hread, -⟩
  · nofun
  · exact all_end_of_read hread fun w hw => ends_of_mem_items hv hvs hw

theorem listOfValue_written {rules : List Rule} (hsettled : ∀ r ∈ rules, r.Settled)
    (hdistinct : (rules.map (·.id)).Nodup) :
    listOfValue (.list (rules.map toValue)) = .ok (rules.map plain) := by
  have hread : List.Forall₂ (fun v r => ofValue v = .ok r) (rules.map toValue)
      (rules.map plain) := by
    rw [List.forall₂_map_left_iff, List.forall₂_map_right_iff, List.forall₂_same]
    exact fun r hr => ofValue_written (hsettled r hr)
  refine listOfValue_eq_ok.2 (.inr ⟨_, rfl, hread, ?_⟩)
  rw [List.map_map]
  exact hdistinct

theorem writeAll_plain {rules : List Rule} {vs : List Value} (h : writeAll rules = .ok vs) :
    writeAll (rules.map plain) = .ok vs := by
  obtain ⟨hends, rfl⟩ := writeAll_eq_ok.1 h
  refine writeAll_eq_ok.2 ⟨?_, ?_⟩
  · rw [List.forall_mem_map]
    exact fun r hr => (Config.ends_plain r.config).trans (hends r hr)
  · rw [List.map_map]
    exact List.map_congr_left fun r _ => toValue_plain r

/-- Rules that were read from settings, and edited or not, can be written down unless options of an
unknown type hold themselves; those of settings that end always can. What is written is read again:
in the same order, each rule with a config of its class and with nothing else to be written, so that
from then on writing and reading change nothing at all. -/
theorem listOfValue_writeAll {v : Value} {rules edited : List Rule} (h : listOfValue v = .ok rules)
    (hedited : List.Forall₂ Edited rules edited) :
    ((∃ vs, writeAll edited = .ok vs) ↔ ∀ r ∈ rules, ∀ type options,
      r.config = .unrecognized type options → Value.endsEach options = true) ∧
    (v.ends = true → ∃ vs, writeAll edited = .ok vs) ∧
    ∀ vs, writeAll edited = .ok vs → ∃ again, listOfValue (.list vs) = .ok again ∧
      List.Forall₂ (fun r s => r.config.SameClass s.config ∧ s.write = r.write) edited again ∧
      writeAll again = .ok vs := by
  obtain ⟨hsettled, hdistinct⟩ := settled_of_listOfValue h
  -- What has been read is settled and stays so when it is edited; all that writing leaves out of it
  -- is which of its containers were tuples or sealed.
  have hwrites : (∃ vs, writeAll edited = .ok vs) ↔ ∀ r ∈ rules, r.config.ends = true := by
    rw [← Edited.all_end_iff hedited]
    constructor
    · rintro ⟨vs, hvs⟩
      exact (writeAll_eq_ok.1 hvs).1
    · exact fun hends => ⟨_, writeAll_eq_ok.2 ⟨hends, rfl⟩⟩
  refine ⟨?_, fun hv => hwrites.2 (all_end_of_listOfValue h hv), fun vs hvs => ?_⟩
  · rw [hwrites]
    simp only [Config.ends_iff]
  · have hread : listOfValue (.list vs) = .ok (edited.map plain) := by
      rw [← (writeAll_eq_ok.1 hvs).2]
      refine listOfValue_written (Edited.all_settled hedited hsettled) ?_
      rw [Edited.map_id hedited]
      exact hdistinct
    refine ⟨edited.map plain, hread, ?_, writeAll_plain hvs⟩
    rw [List.forall₂_map_right_iff, List.forall₂_same]
    exact fun r _ => ⟨Config.sameClass_plain r.config, write_plain r⟩

def mixed : Value := .list
  [.record [("id", .text "1"), ("config", .record [("type", .text "individual"),
      ("tags", .texts ["work"])])],
    .record [("id", .text "2"), ("config", .record [("type", .text "later"),
      ("sizes", .tuple [.int 1])])]]

theorem listOfValue_writeAll_mixed : ∃ c c' later vs again,
    listOfValue mixed = .ok [⟨"1", "", true, "", .criteria c⟩, later] ∧
    c.updateFrontmatter "status: done" = .ok c' ∧
    writeAll [⟨"1", "", true, "", .criteria c'⟩, later] = .ok vs ∧
    listOfValue (.list vs) = .ok again ∧ writeAll again = .ok vs := by
  have hread : listOfValue mixed = .ok
      [⟨"1", "", true, "", .criteria ⟨["work"], [], [], []⟩⟩,
        ⟨"2", "", true, "", .unrecognized "later" [(text "sizes", tuple [int 1])]⟩] := by
    rfl
  have hparsed : (Criteria.updateFrontmatter ⟨["work"], [], [], []⟩ "status: done").isOk = true := by
    decide +kernel
  cases hc : Criteria.updateFrontmatter ⟨["work"], [], [], []⟩ "status: done" with
  | error f =>
    rw [hc] at hparsed
    cases hparsed
  | ok c' =>
    obtain ⟨-, hwrites, hfixed⟩ :=
      listOfValue_writeAll hread (.cons (.again .same rfl hc) (.cons .same .nil))
    obtain ⟨vs, hvs⟩ := hwrites rfl
    obtain ⟨again, hagain, -, hsame⟩ := hfixed vs hvs
    exact ⟨_, c', _, vs, again, hread, hc, hvs, hagain, hsame⟩

def looped : Value := .list [.record [("id", .text "a"),
  ("config", .record [("type", .text "later"), ("loop", .knot [.list [.cell 0]] 0)])]]

theorem writeAll_looped : ∃ rules, listOfValue looped = .ok rules ∧
    writeAll rules = .error .endless :=
  ⟨_, rfl, rfl⟩

end Rule

end NoteDecor
