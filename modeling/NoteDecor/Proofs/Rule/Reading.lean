import Mathlib.Data.List.Forall2
import NoteDecor.Proofs.Steps
import NoteDecor.Proofs.Value.Merging
import NoteDecor.Rule.Settings

/-! What rules have taken from the values they were read from. -/

namespace NoteDecor.Rule
open Value

def stated (es : Entries) (key : String) : Value := (es.field? key).getD .null

theorem readId_eq_ok {es : Entries} {id : Value} :
    readId es = .ok id ↔ es.field? "id" = some id ∧ id ≠ null ∧ id ≠ text "" := by
  unfold readId
  split
  · next hv => simp [hv]
  · next hv =>
    rw [hv]
    refine iff_of_false (by nofun) fun ⟨he, hne, _⟩ => hne ?_
    exact (Option.some.inj he).symm
  · next hv =>
    rw [hv]
    refine iff_of_false (by nofun) fun ⟨he, _, hne⟩ => hne ?_
    exact (Option.some.inj he).symm
  · next v hnull hempty hv =>
    rw [hv, Except.ok.injEq, Option.some.injEq]
    constructor
    · rintro rfl
      exact ⟨rfl, hnull, hempty⟩
    · rintro ⟨rfl, -, -⟩
      rfl

theorem checkWritable_eq_ok {v : Value} {u : Unit} :
    checkWritable v = .ok u ↔ v.isWritable = true := by
  unfold checkWritable
  split
  · next h => exact iff_of_true rfl h
  · next h => exact iff_of_false (by nofun) h

inductive Config.ReadFrom (es : Entries) : Config → Prop where
  | criteria (c : Criteria) : stated es "type" = text "individual" → readCriteria es = .ok c →
      ReadFrom es (.criteria c)
  | functionFile (path : String) : stated es "type" = text "function-file" →
      fieldOr es "filePath" "file_path" (text "") = text path → ReadFrom es (.functionFile path)
  | unrecognized : stated es "type" ≠ text "individual" → stated es "type" ≠ text "function-file" →
      (stated es "type").isWritable = true →
      ReadFrom es (.unrecognized (stated es "type").display
        (es.filter fun e => !e.1.isKey "type"))

theorem Config.ofValue_eq_ok {v : Value} {c : Config} :
    Config.ofValue v = .ok c ↔ ∃ es, v.entries? = some es ∧ Config.ReadFrom es c := by
  unfold Config.ofValue
  cases hv : v.entries? with
  | none => simp
  | some es =>
    simp only [Option.some.injEq, exists_eq_left']
    change (if (stated es "type").isKey "individual" then _ else if
      (stated es "type").isKey "function-file" then _ else _) = _ ↔ _
    -- the known types are tried in turn; any other type is kept as it is stated
    split
    · next hk =>
      have ht := isKey_eq.1 hk
      rw [map_eq_ok]
      constructor
      · rintro ⟨c, hc, rfl⟩
        exact .criteria c ht hc
      · rintro (⟨c, -, hc⟩ | ⟨path, hf, -⟩ | ⟨hno, -, -⟩)
        · exact ⟨c, hc, rfl⟩
        · simp [ht] at hf
        · exact absurd ht hno
    · next hk =>
      have hi : stated es "type" ≠ text "individual" := fun hi => hk (isKey_eq.2 hi)
      split
      · next hk =>
        have ht := isKey_eq.1 hk
        split
        · next path hp =>
          rw [Except.ok.injEq]
          constructor
          · rintro rfl
            exact .functionFile path ht hp
          · rintro (⟨c, h, -⟩ | ⟨path', -, hp'⟩ | ⟨-, hno, -⟩)
            · exact absurd h hi
            · rw [hp, text.injEq] at hp'
              rw [hp']
            · exact absurd ht hno
        · next hno =>
          refine iff_of_false (by nofun) ?_
          rintro (⟨c, h, -⟩ | ⟨path, -, hp⟩ | ⟨-, h, -⟩)
          · exact hi h
          · exact hno path hp
          · exact h ht
      · next hk =>
        have hf : stated es "type" ≠ text "function-file" := fun hf => hk (isKey_eq.2 hf)
        rw [bind_eq_ok]
        constructor
        · rintro ⟨_, hw, h⟩
          cases h
          exact .unrecognized hi hf (checkWritable_eq_ok.1 hw)
        · rintro (⟨c, h, -⟩ | ⟨path, h, -⟩ | ⟨-, -, hw⟩)
          · exact absurd h hi
          · exact absurd h hf
          · exact ⟨(), checkWritable_eq_ok.2 hw, rfl⟩

structure ReadFrom (es : Entries) (r : Rule) : Prop where
  id : ∃ v, readId es = .ok v ∧ v.isWritable = true ∧ v.display = r.id
  name : ∃ v, (es.field? "name").getD (text "") = v ∧ v.isWritable = true ∧ v.display = r.name
  enabled : (es.field? "enabled").getD (bool true) = bool r.enabled
  className : fieldOr es "className" "class_name" (text "") = text r.className
  config : Config.ofValue ((stated es "config").orElse (map [])) = .ok r.config

theorem ofValue_eq_ok {v : Value} {r : Rule} :
    ofValue v = .ok r ↔ ∃ es, v.entries? = some es ∧ ReadFrom es r := by
  unfold ofValue
  constructor
  · intro h
    split at h
    · cases h
    · next es hv =>
      obtain ⟨id, hid, h⟩ := bind_eq_ok.1 h
      split at h
      · next className hclass =>
        split at h
        · next enabled henabled =>
          obtain ⟨_, hidw, h⟩ := bind_eq_ok.1 h
          obtain ⟨_, hnamew, h⟩ := bind_eq_ok.1 h
          obtain ⟨config, hconfig, h⟩ := bind_eq_ok.1 h
          cases h
          exact ⟨es, hv, ⟨id, hid, checkWritable_eq_ok.1 hidw, rfl⟩,
            ⟨_, rfl, checkWritable_eq_ok.1 hnamew, rfl⟩, henabled, hclass, hconfig⟩
        · obtain ⟨_, -, h⟩ := bind_eq_ok.1 h
          cases h
      · obtain ⟨_, -, h⟩ := bind_eq_ok.1 h
        cases h
  · rintro ⟨es, hv, ⟨id, hid, hidw, hshown⟩, ⟨name, rfl, hnamew, hname⟩, henabled, hclass, hconfig⟩
    rw [hv]
    dsimp only
    rw [hclass, henabled]
    simp only [bind_eq_ok]
    refine ⟨id, hid, (), checkWritable_eq_ok.2 hidw, (), checkWritable_eq_ok.2 hnamew, r.config,
      hconfig, ?_⟩
    rw [hshown, hname]
    rfl

theorem readAll_eq_ok {taken : List String} {vs : List Value} {rs : List Rule} :
    readAll taken vs = .ok rs ↔ List.Forall₂ (fun v r => ofValue v = .ok r) vs rs ∧
      (rs.map (·.id)).Nodup ∧ ∀ r ∈ rs, r.id ∉ taken := by
  -- a rule that is read takes its id away from all that come after it
  induction vs generalizing taken rs with
  | nil =>
    rw [readAll, Except.ok.injEq, List.forall₂_nil_left_iff]
    constructor
    · rintro rfl
      exact ⟨rfl, List.nodup_nil, by nofun⟩
    · rintro ⟨rfl, -⟩
      rfl
  | cons v vs ih =>
    rw [readAll]
    simp only [bind_eq_ok]
    constructor
    · rintro ⟨r, hr, h⟩
      split at h
      · cases h
      · next hfree =>
        obtain ⟨rest, hrest, h⟩ := bind_eq_ok.1 h
        cases h
        obtain ⟨hread, hdistinct, hother⟩ := ih.1 hrest
        simp only [List.contains_iff_mem] at hfree
        simp only [List.mem_cons, not_or] at hother
        refine ⟨.cons hr hread, ?_, ?_⟩
        · rw [List.map_cons, List.nodup_cons]
          refine ⟨fun hmem => ?_, hdistinct⟩
          obtain ⟨s, hs, he⟩ := List.mem_map.1 hmem
          exact (hother s hs).1 he
        · rw [List.forall_mem_cons]
          exact ⟨hfree, fun s hs => (hother s hs).2⟩
    · rintro ⟨hread, hdistinct, hfree⟩
      cases hread with
      | @cons _ r _ rest hr hread =>
        rw [List.map_cons, List.nodup_cons] at hdistinct
        rw [List.forall_mem_cons] at hfree
        have hrest : readAll (r.id :: taken) vs = .ok rest := by
          refine ih.2 ⟨hread, hdistinct.2, fun s hs => ?_⟩
          rw [List.mem_cons, not_or]
          exact ⟨fun he => hdistinct.1 (List.mem_map.2 ⟨s, hs, he⟩), hfree.2 s hs⟩
        refine ⟨r, hr, ?_⟩
        rw [if_neg fun h => hfree.1 (List.contains_iff_mem.1 h), hrest]
        rfl

theorem listOfValue_eq_ok {v : Value} {rs : List Rule} :
    listOfValue v = .ok rs ↔ (v = null ∧ rs = []) ∨ ∃ vs, v.items? = some vs ∧
      List.Forall₂ (fun v r => ofValue v = .ok r) vs rs ∧ (rs.map (·.id)).Nodup := by
  unfold listOfValue
  split
  · rw [Except.ok.injEq]
    constructor
    · rintro rfl
      exact .inl ⟨rfl, rfl⟩
    · rintro (⟨-, rfl⟩ | ⟨vs, hvs, -⟩)
      · rfl
      · cases hvs
  · next hne =>
    have hv : v ≠ null := hne
    split
    · next vs hvs =>
      rw [readAll_eq_ok]
      constructor
      · rintro ⟨hread, hdistinct, -⟩
        exact .inr ⟨vs, hvs, hread, hdistinct⟩
      · rintro (⟨h, -⟩ | ⟨ws, hws, hread, hdistinct⟩)
        · exact absurd h hv
        · rw [hvs, Option.some.injEq] at hws
          subst hws
          exact ⟨hread, hdistinct, by simp⟩
    · next hno => simp [hv, hno]

end NoteDecor.Rule
