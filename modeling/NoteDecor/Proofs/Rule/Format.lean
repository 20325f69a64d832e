import NoteDecor.Proofs.Deciding
import NoteDecor.Proofs.Rule.Reading
import NoteDecor.Proofs.Value.Display
import NoteDecor.Proofs.Value.Fields

/-! Which values are rule lists. A list is read exactly if it has the format of one and no number in
what is shown of it is too long to be written. -/

namespace NoteDecor.Rule
open Value

def IsTextList (v : Value) : Prop :=
  v.isTrue = false ∨ ∃ ss : List String, v.items? = some (ss.map text)

def IsScalar : Value → Prop
  | .text _ | .bool _ | .int _ | .float _ | .date _ | .moment _ => True
  | _ => False

/-- A scalar, or a list of scalars. -/
def IsCriterion (v : Value) : Prop :=
  IsScalar v ∨ ∃ vs, v.items? = some vs ∧ ∀ w ∈ vs, IsScalar w

def IsFrontmatter (v : Value) : Prop :=
  v.isTrue = false ∨ ∃ es, v.entries? = some es ∧
    ∀ e ∈ es, (∃ key, e.1 = text key) ∧ IsCriterion e.2

structure CriteriaFormat (es : Entries) : Prop where
  tags : IsTextList (stated es "tags")
  paths : IsTextList (stated es "paths")
  titles : IsTextList (stated es "titles")
  frontmatter : IsFrontmatter (stated es "frontmatter")

structure ConfigFormat (es : Entries) : Prop where
  criteria : stated es "type" = text "individual" → CriteriaFormat es
  functionFile : stated es "type" = text "function-file" →
    ∃ path, fieldOr es "filePath" "file_path" (text "") = text path

structure EntryFormat (es : Entries) : Prop where
  id : ∃ v, es.field? "id" = some v ∧ v ≠ null ∧ v ≠ text ""
  className : ∃ name, fieldOr es "className" "class_name" (text "") = text name
  enabled : es.field? "enabled" = none ∨ ∃ b, es.field? "enabled" = some (.bool b)
  config : (stated es "config").isTrue = false ∨
    ∃ fs, (stated es "config").entries? = some fs ∧ ConfigFormat fs

def idText (v : Value) : String := (stated (v.entries?.getD []) "id").display

/-- Nothing, or a list of mappings with ids that differ as texts. -/
def ListFormat (v : Value) : Prop :=
  v = null ∨ ∃ vs, v.items? = some vs ∧
    (∀ w ∈ vs, ∃ es, w.entries? = some es ∧ EntryFormat es) ∧ (vs.map idText).Nodup

/-- The items of a list, or else the value itself. -/
def parts (v : Value) : List Value := v.items?.getD [v]

structure ConfigWritable (es : Entries) : Prop where
  frontmatter : stated es "type" = text "individual" →
    ∀ e ∈ (stated es "frontmatter").entries?.getD [],
      e.1.isWritable = true ∧ ∀ w ∈ parts e.2, w.isWritable = true
  type : (stated es "type").isWritable = true

structure EntryWritable (es : Entries) : Prop where
  id : (stated es "id").isWritable = true
  name : (stated es "name").isWritable = true
  config : ConfigWritable ((stated es "config").entries?.getD [])

def ListWritable (v : Value) : Prop :=
  ∀ w ∈ v.items?.getD [], EntryWritable (w.entries?.getD [])

def isNumberFault : Criteria.Fault → Bool
  | .unwritable => true
  | _ => false

theorem items?_of_isScalar {v : Value} (h : IsScalar v) : v.items? = none := by
  cases v <;> first | rfl | exact h.elim

theorem isScalar_iff (v : Value) : Criteria.isScalar v = true ↔ IsScalar v := by
  cases v <;> simp [Criteria.isScalar, comparable?, IsScalar]

theorem refuse_decides {f : Criteria.Fault} (hf : isNumberFault f = false) {v : Value} {P : Prop}
    (hP : ¬ (P ∧ v.isWritable = true)) :
    Decides isNumberFault (Criteria.refuse f v) P (v.isWritable = true) := by
  unfold Criteria.refuse
  refine ⟨⟨by nofun, fun h => absurd h hP⟩, fun g hg hw => ?_, fun g hg hp => ?_⟩
  · rw [if_pos hw] at hg
    cases hg
    exact hf
  · rw [if_neg fun hw => hP ⟨hp, hw⟩] at hg
    cases hg
    rfl

theorem checkScalar_decides {f : Criteria.Fault} (hf : isNumberFault f = false) (v : Value) :
    Decides isNumberFault (Criteria.checkScalar f v) (IsScalar v) (v.isWritable = true) := by
  unfold Criteria.checkScalar
  split
  · next h =>
    rw [Bool.and_eq_true, isScalar_iff] at h
    exact (Decides.ok ()).congr (iff_true_intro h.1) (iff_true_intro h.2)
  · next h =>
    rw [Bool.and_eq_true, isScalar_iff] at h
    exact refuse_decides hf h

theorem checkValue_decides (key : String) (v : Value) :
    Decides isNumberFault (Criteria.checkValue key v) (IsCriterion v)
      (∀ w ∈ parts v, w.isWritable = true) := by
  unfold Criteria.checkValue IsCriterion parts
  cases hv : v.items? with
  | some vs =>
    have hno : ¬ IsScalar v := fun hs => by
      rw [items?_of_isScalar hs] at hv
      cases hv
    refine (Decides.forM vs fun w _ => checkScalar_decides rfl w).congr ?_ Iff.rfl
    simp [hno]
  | none =>
    refine (checkScalar_decides rfl v).congr ?_ ?_ <;> simp

theorem checkEntry_decides (e : Value × Value) :
    Decides isNumberFault (Criteria.checkEntry e) ((∃ key, e.1 = text key) ∧ IsCriterion e.2)
      (e.1.isWritable = true ∧ ∀ w ∈ parts e.2, w.isWritable = true) := by
  unfold Criteria.checkEntry
  split
  · next key hkey =>
    refine (checkValue_decides key e.2).congr ?_ ?_
    · simp [hkey]
    · simp [hkey, isWritable_text]
  · next hno =>
    have hP : ¬ ((∃ key, e.1 = text key) ∧ IsCriterion e.2) := fun ⟨⟨key, hkey⟩, _⟩ => hno key hkey
    -- A key that is no text is all that is shown of its entry.
    exact (refuse_decides rfl fun h => hP h.1).of_not hP And.left

theorem checkFrontmatter_decides (v : Value) :
    Decides isNumberFault (Criteria.checkFrontmatter v)
      (∃ es, v.entries? = some es ∧ ∀ e ∈ es, (∃ key, e.1 = text key) ∧ IsCriterion e.2)
      (∀ e ∈ v.entries?.getD [], e.1.isWritable = true ∧ ∀ w ∈ parts e.2, w.isWritable = true) := by
  unfold Criteria.checkFrontmatter
  cases hv : v.entries? with
  | none => exact .error rfl (by simp)
  | some es =>
    refine ((Decides.forM es fun e _ => checkEntry_decides e).bind fun _ _ => .ok es).congr ?_ ?_
    · simp
    · simp

theorem isTextList_iff (v : Value) :
    IsTextList v ↔ ∃ ss : List String, (v.orElse (list [])).items? = some (ss.map text) := by
  unfold IsTextList Value.orElse
  cases hv : v.isTrue with
  | true => simp
  | false => exact iff_of_true (.inl rfl) ⟨[], rfl⟩

theorem readTokens_decides (es : Entries) (key : String) :
    Decides Fault.isUnwritable (readTokens es key) (IsTextList (stated es key)) True := by
  rw [isTextList_iff]
  unfold readTokens stated
  split
  · next hno => exact .error rfl (by simp [hno])
  · next vs hvs =>
    simp only [hvs, Option.some.injEq, ← mapM_text?_eq_some]
    split
    · next hno => exact .error rfl (by simp [hno])
    · next ss hss => exact (Decides.ok ss).congr (iff_true_intro ⟨ss, hss⟩) Iff.rfl

theorem entries?_of_empty {v : Value} (h : v.isTrue = false) : v.entries?.getD [] = [] := by
  unfold Value.isTrue at h
  unfold entries?
  cases hv : v.opened <;> simp [hv] at h ⊢ <;> exact h

theorem entries?_orElse_of_empty {v : Value} (h : v.isTrue = false) :
    (v.orElse (map [])).entries? = some [] := by
  rw [Value.orElse, h]
  rfl

theorem readCriteria_decides (es : Entries) :
    Decides Fault.isUnwritable (readCriteria es) (CriteriaFormat es)
      (∀ e ∈ (stated es "frontmatter").entries?.getD [],
        e.1.isWritable = true ∧ ∀ w ∈ parts e.2, w.isWritable = true) := by
  have hfm : Decides Fault.isUnwritable ((Criteria.checkFrontmatter
      ((stated es "frontmatter").orElse (map []))).mapError Fault.criteria)
      (IsFrontmatter (stated es "frontmatter"))
      (∀ e ∈ (stated es "frontmatter").entries?.getD [],
        e.1.isWritable = true ∧ ∀ w ∈ parts e.2, w.isWritable = true) := by
    refine ((checkFrontmatter_decides _).mapError (fun f => by cases f <;> rfl)).congr ?_ ?_
    · unfold IsFrontmatter
      cases hv : (stated es "frontmatter").isTrue with
      | true => simp [Value.orElse, hv]
      | false => simp [entries?_orElse_of_empty hv]
    · cases hv : (stated es "frontmatter").isTrue with
      | true => simp [Value.orElse, hv]
      | false => simp [entries?_orElse_of_empty hv, entries?_of_empty hv]
  refine ((readTokens_decides es "tags").bind fun tags _ =>
    (readTokens_decides es "paths").bind fun paths _ =>
    (readTokens_decides es "titles").bind fun titles _ =>
    hfm.bind fun fm _ => .ok (Criteria.make tags paths titles fm)).congr ?_ ?_
  · exact ⟨fun h => ⟨h.tags, h.paths, h.titles, h.frontmatter, trivial⟩,
      fun ⟨ht, hp, hl, hf, _⟩ => ⟨ht, hp, hl, hf⟩⟩
  · simp

theorem checkWritable_decides (v : Value) :
    Decides Fault.isUnwritable (checkWritable v) True (v.isWritable = true) := by
  unfold checkWritable
  split
  · next h => exact (Decides.ok ()).congr Iff.rfl (iff_true_intro h)
  · next h =>
    refine ⟨⟨by nofun, fun hw => absurd hw.2 h⟩, fun _ _ hw => absurd hw h, fun f hf _ => ?_⟩
    cases hf
    rfl

theorem configOfValue_decides (v : Value) :
    Decides Fault.isUnwritable (Config.ofValue v)
      (∃ es, v.entries? = some es ∧ ConfigFormat es) (ConfigWritable (v.entries?.getD [])) := by
  unfold Config.ofValue
  cases hv : v.entries? with
  | none => exact .error rfl (by simp)
  | some es =>
    simp only [Option.some.injEq, exists_eq_left', Option.getD_some]
    change Decides _ (if (stated es "type").isKey "individual" then _ else if
      (stated es "type").isKey "function-file" then _ else _) _ _
    -- the type decides which of the other fields are looked at
    split
    · next hk =>
      have ht := isKey_eq.1 hk
      refine ((readCriteria_decides es).map _).congr ?_ ?_
      · exact ⟨fun h => h.criteria ht, fun h => ⟨fun _ => h, fun hf => by simp [ht] at hf⟩⟩
      · exact ⟨fun h => h.frontmatter ht, fun h => ⟨fun _ => h, by rw [ht]; rfl⟩⟩
    · next hno =>
      have hi : stated es "type" ≠ text "individual" := fun hi => hno (isKey_eq.2 hi)
      split
      · next hk =>
        have ht := isKey_eq.1 hk
        have hw : ConfigWritable es := ⟨fun h => absurd h hi, by rw [ht]; rfl⟩
        split
        · next path hp =>
          refine (Decides.ok _).congr (iff_true_intro ?_) (iff_true_intro hw)
          exact ⟨fun h => absurd h hi, fun _ => ⟨path, hp⟩⟩
        · next hno =>
          exact .error rfl fun h => by
            obtain ⟨path, hp⟩ := h.functionFile ht
            exact hno path hp
      · next hno =>
        have hf : stated es "type" ≠ text "function-file" := fun hf => hno (isKey_eq.2 hf)
        refine ((checkWritable_decides (stated es "type")).bind fun _ _ => .ok _).congr ?_ ?_
        · exact iff_of_true ⟨fun h => absurd h hi, fun h => absurd h hf⟩ ⟨trivial, trivial⟩
        · exact ⟨fun h => ⟨h.type, trivial⟩, fun h => ⟨fun hc => absurd hc hi, h.1⟩⟩

theorem readId_decides (es : Entries) :
    Decides Fault.isUnwritable (readId es)
      (∃ v, es.field? "id" = some v ∧ v ≠ null ∧ v ≠ text "") True := by
  unfold readId
  split
  · next hv => exact .error rfl (by simp [hv])
  · next hv => exact .error rfl (by simp [hv])
  · next hv => exact .error rfl (by simp [hv])
  · next v hnull hempty hv =>
    exact (Decides.ok v).congr (iff_true_intro ⟨v, hv, hnull, hempty⟩) Iff.rfl

theorem refuseField_decides {f : Fault} (hf : f.isUnwritable = false) {id : Value} {α : Type}
    {P W : Prop} (hP : ¬ P) (hW : W → id.isWritable = true) :
    Decides Fault.isUnwritable (checkWritable id >>= fun _ => (.error f : Except Fault α)) P W := by
  refine ⟨⟨?_, fun h => absurd h.1 hP⟩, fun g hg hw => ?_, fun g _ h => absurd h hP⟩
  · rintro ⟨a, ha⟩
    obtain ⟨_, -, ha⟩ := bind_eq_ok.1 ha
    cases ha
  · rw [checkWritable, if_pos (hW hw)] at hg
    cases hg
    exact hf

theorem configFormat_nil : ConfigFormat [] := ⟨by nofun, by nofun⟩

theorem statedConfig_decides (v : Value) :
    Decides Fault.isUnwritable (Config.ofValue (v.orElse (map [])))
      (v.isTrue = false ∨ ∃ es, v.entries? = some es ∧ ConfigFormat es)
      (ConfigWritable (v.entries?.getD [])) := by
  refine (configOfValue_decides _).congr ?_ ?_
  · cases hv : v.isTrue with
    | true => simp [Value.orElse, hv]
    | false => simp [entries?_orElse_of_empty hv, configFormat_nil]
  · cases hv : v.isTrue with
    | true => simp [Value.orElse, hv]
    | false => simp [entries?_orElse_of_empty hv, entries?_of_empty hv]

theorem enabled_iff (es : Entries) :
    (es.field? "enabled" = none ∨ ∃ b, es.field? "enabled" = some (bool b)) ↔
      ∃ b, (es.field? "enabled").getD (bool true) = bool b := by
  cases es.field? "enabled" with
  | none => exact iff_of_true (.inl rfl) ⟨true, rfl⟩
  | some w => simp

theorem isWritable_stated_name (es : Entries) :
    (stated es "name").isWritable = ((es.field? "name").getD (text "")).isWritable := by
  unfold stated
  cases es.field? "name" <;> rfl

theorem ofValue_decides (v : Value) :
    Decides Fault.isUnwritable (ofValue v) (∃ es, v.entries? = some es ∧ EntryFormat es)
      (EntryWritable (v.entries?.getD [])) := by
  unfold ofValue
  cases hv : v.entries? with
  | none => exact .error rfl (by simp)
  | some es =>
    simp only [Option.some.injEq, exists_eq_left', Option.getD_some]
    -- The later faults show the id, so what follows it is decided with all of the format in hand.
    refine ((readId_decides es).bind (Q := EntryFormat es) (V := EntryWritable es)
      fun id hid => ?_).congr ?_ ?_
    · have hshown : EntryWritable es → id.isWritable = true := fun h => by
        have := h.id
        rwa [stated, (readId_eq_ok.1 hid).1] at this
      split
      · next className hclass =>
        split
        · next enabled henabled =>
          refine ((checkWritable_decides id).bind fun _ _ =>
            (checkWritable_decides _).bind fun _ _ =>
            (statedConfig_decides (stated es "config")).bind fun _ _ => .ok _).congr ?_ ?_
          · exact ⟨fun h => ⟨trivial, trivial, h.config, trivial⟩,
              fun h => ⟨((readId_decides es).ok_iff.1 ⟨id, hid⟩).1, ⟨className, hclass⟩,
                (enabled_iff es).2 ⟨enabled, henabled⟩, h.2.2.1⟩⟩
          · rw [← isWritable_stated_name]
            refine ⟨fun h => ⟨hshown h, h.name, h.config, trivial⟩, fun h => ⟨?_, h.2.1, h.2.2.1⟩⟩
            rw [stated, (readId_eq_ok.1 hid).1]
            exact h.1
        · next hno =>
          exact refuseField_decides rfl (fun h => by
            obtain ⟨b, hb⟩ := (enabled_iff es).1 h.enabled
            exact hno b hb) hshown
      · next hno =>
        exact refuseField_decides rfl (fun h => by
          obtain ⟨name, hn⟩ := h.className
          exact hno name hn) hshown
    · exact ⟨fun h => ⟨h.id, h⟩, fun h => h.2⟩
    · exact ⟨fun h => ⟨trivial, h⟩, fun h => h.2⟩

theorem idText_of_ok {v : Value} {r : Rule} (h : ofValue v = .ok r) : idText v = r.id := by
  obtain ⟨es, hv, hr⟩ := ofValue_eq_ok.1 h
  obtain ⟨id, hid, -, hshown⟩ := hr.id
  rw [idText, hv, Option.getD_some, stated, (readId_eq_ok.1 hid).1]
  exact hshown

theorem readAll_decides (taken : List String) (vs : List Value) :
    Decides Fault.isUnwritable (readAll taken vs)
      ((∀ w ∈ vs, ∃ es, w.entries? = some es ∧ EntryFormat es) ∧ (vs.map idText).Nodup ∧
        ∀ w ∈ vs, idText w ∉ taken)
      (∀ w ∈ vs, EntryWritable (w.entries?.getD [])) := by
  -- The ids that are taken grow with each entry that is read.
  induction vs generalizing taken with
  | nil => exact (Decides.ok []).congr (by simp) (by simp)
  | cons v vs ih =>
    refine ((ofValue_decides v).bind (Q := idText v ∉ taken ∧
      (∀ w ∈ vs, ∃ es, w.entries? = some es ∧ EntryFormat es) ∧ (vs.map idText).Nodup ∧
        ∀ w ∈ vs, idText w ∉ idText v :: taken)
      (V := ∀ w ∈ vs, EntryWritable (w.entries?.getD [])) fun r hr => ?_).congr ?_ ?_
    · rw [idText_of_ok hr]
      split
      · next htaken =>
        rw [List.contains_iff_mem] at htaken
        exact .error rfl fun h => h.1 htaken
      · next hfree =>
        rw [List.contains_iff_mem] at hfree
        refine ((ih (r.id :: taken)).bind fun _ _ => .ok _).congr ?_ ?_
        · simp [hfree]
        · simp
    · have hothers : (∀ w ∈ vs, idText w ∉ idText v :: taken) ↔
          idText v ∉ vs.map idText ∧ ∀ w ∈ vs, idText w ∉ taken := by
        simp only [List.mem_cons, not_or, List.mem_map, not_exists, not_and, forall_and]
      rw [hothers]
      simp only [List.forall_mem_cons, List.map_cons, List.nodup_cons]
      constructor
      · rintro ⟨⟨hv, hvs⟩, ⟨hother, hdistinct⟩, hfree, hfrees⟩
        exact ⟨hv, hfree, hvs, hdistinct, hother, hfrees⟩
      · rintro ⟨hv, hfree, hvs, hdistinct, hother, hfrees⟩
        exact ⟨⟨hv, hvs⟩, ⟨hother, hdistinct⟩, hfree, hfrees⟩
    · simp only [List.forall_mem_cons]

theorem listOfValue_decides (v : Value) :
    Decides Fault.isUnwritable (listOfValue v) (ListFormat v) (ListWritable v) := by
  unfold listOfValue
  split
  · refine (Decides.ok []).congr (iff_true_intro (.inl rfl)) (iff_true_intro ?_)
    rintro w hw
    cases hw
  · next hne =>
    have hv : v ≠ null := hne
    unfold ListFormat ListWritable
    split
    · next vs hvs =>
      refine (readAll_decides [] vs).congr ?_ ?_
      · simp [hv, hvs]
      · simp [hvs]
    · next hno =>
      exact .error rfl (by simp [hv, hno])

def statedType (v : Value) : Value :=
  stated ((stated (v.entries?.getD []) "config").entries?.getD []) "type"

def Config.type : Config → String
  | .criteria _ => "individual"
  | .functionFile _ => "function-file"
  | .unrecognized type _ => type

/-- A rule has the id of its entry and the config that the type of the entry stands for, which only
the two texts that are known types share with their entries and with nothing else. -/
structure ReadAs (v : Value) (r : Rule) : Prop where
  id : r.id = idText v
  type : r.config.type = (statedType v).display
  criteria : r.config.type = "individual" ↔ ∃ c, r.config = .criteria c
  functionFile : r.config.type = "function-file" ↔ ∃ path, r.config = .functionFile path
  known : r.config.type = "individual" ∨ r.config.type = "function-file" →
    statedType v = text r.config.type

theorem entries?_orElse_getD (v : Value) :
    (v.orElse (map [])).entries?.getD [] = v.entries?.getD [] := by
  cases hv : v.isTrue with
  | true => rw [Value.orElse, hv, if_pos rfl]
  | false => rw [entries?_orElse_of_empty hv, entries?_of_empty hv, Option.getD_some]

theorem readAs_of_ok {v : Value} {r : Rule} (h : ofValue v = .ok r) : ReadAs v r := by
  obtain ⟨es, hv, hr⟩ := ofValue_eq_ok.1 h
  obtain ⟨fs, hfs, hc⟩ := Config.ofValue_eq_ok.1 hr.config
  have ht : statedType v = stated fs "type" := by
    rw [statedType, hv, Option.getD_some, ← entries?_orElse_getD, hfs, Option.getD_some]
  have hid : r.id = idText v := (idText_of_ok h).symm
  generalize hconfig : r.config = config at hc
  cases hc with
  | criteria c hi _ =>
    refine ⟨hid, ?_, ?_, ?_, ?_⟩ <;> rw [hconfig]
    · rw [ht, hi]
      rfl
    · exact iff_of_true rfl ⟨c, rfl⟩
    · exact iff_of_false (by simp [Config.type]) (by nofun)
    · exact fun _ => ht.trans hi
  | functionFile path hf _ =>
    refine ⟨hid, ?_, ?_, ?_, ?_⟩ <;> rw [hconfig]
    · rw [ht, hf]
      rfl
    · exact iff_of_false (by simp [Config.type]) (by nofun)
    · exact iff_of_true rfl ⟨path, rfl⟩
    · exact fun _ => ht.trans hf
  | unrecognized hi hf _ =>
    have hni : (stated fs "type").display ≠ "individual" :=
      fun h => hi (eq_text_of_display h (by decide))
    have hnf : (stated fs "type").display ≠ "function-file" :=
      fun h => hf (eq_text_of_display h (by decide))
    refine ⟨hid, ?_, ?_, ?_, ?_⟩ <;> rw [hconfig]
    · rw [ht]
      rfl
    · exact iff_of_false hni (by nofun)
    · exact iff_of_false hnf (by nofun)
    · rintro (h | h)
      · exact absurd h hni
      · exact absurd h hnf

theorem containerClass_injective {r s : Rule} (h : r.containerClass = s.containerClass) :
    r.id = s.id := by
  have hchars := congrArg String.toList h
  simpa [containerClass, String.toList_append, String.toList_inj] using hchars

/-- Exactly the values that have the format of a rule list, and no number too long to be written in
what is shown of them, are read as one. A value without the format is refused with the code of bad
input as long as its numbers can be written. An accepted list has the rules of its entries in their
order, with container classes of their own. -/
theorem listOfValue_accepts (v : Value) :
    ((∃ rules, listOfValue v = .ok rules) ↔ ListFormat v ∧ ListWritable v) ∧
    (∀ f, listOfValue v = .error f → (ListWritable v → f.code? = some 1) ∧
      (ListFormat v → f.code? = none)) ∧
    ∀ rules, listOfValue v = .ok rules →
      List.Forall₂ ReadAs (v.items?.getD []) rules ∧ (rules.map containerClass).Nodup := by
  have hdecides := listOfValue_decides v
  refine ⟨hdecides.ok_iff, fun f hf => ⟨fun hw => ?_, fun hp => ?_⟩, fun rules hrules => ?_⟩
  · rw [Fault.code?, hdecides.formatFault f hf hw]
    rfl
  · rw [Fault.code?, hdecides.numberFault f hf hp]
    rfl
  · rcases listOfValue_eq_ok.1 hrules with ⟨rfl, rfl⟩ | ⟨vs, hvs, hread, hdistinct⟩
    · exact ⟨.nil, List.nodup_nil⟩
    · rw [hvs, Option.getD_some]
      refine ⟨hread.imp fun _ _ => readAs_of_ok, ?_⟩
      rw [List.Nodup, List.pairwise_map] at hdistinct ⊢
      exact hdistinct.imp fun hne he => hne (containerClass_injective he)

def numbered : Value := .list [.record [("id", .int (Nat.pow 10 Numeral.decimalLimit))]]

theorem listOfValue_numbered : ListFormat numbered ∧
    ∃ f, listOfValue numbered = .error f ∧ f.code? = none := by
  have hformat : ListFormat numbered := by
    refine .inr ⟨_, rfl, ?_, List.pairwise_singleton _ _⟩
    rintro w hw
    rw [List.mem_singleton] at hw
    subst hw
    exact ⟨_, rfl, ⟨_, rfl, by nofun, by nofun⟩, ⟨"", rfl⟩, .inl rfl, .inl rfl⟩
  have hlong : ¬ ListWritable numbered := fun h => by
    have hid : (int (Nat.pow 10 Numeral.decimalLimit)).isWritable = true :=
      (h _ List.mem_cons_self).id
    rw [isWritable, writable, Numeral.isWritable, Int.natAbs_natCast, decide_eq_true_eq] at hid
    exact Nat.lt_irrefl _ hid
  have hdecides := listOfValue_decides numbered
  refine ⟨hformat, ?_⟩
  cases hl : listOfValue numbered with
  | ok rules => exact absurd (hdecides.ok_iff.1 ⟨rules, hl⟩).2 hlong
  | error f =>
    refine ⟨f, rfl, ?_⟩
    rw [Fault.code?, hdecides.numberFault f hl hformat]
    rfl

end NoteDecor.Rule
