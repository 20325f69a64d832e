import NoteDecor.Proofs.Rule.Format
import NoteDecor.Value.Use

/-! What a search through frontmatter comes to. Two values agree if they have a text in common; the
first key under which they do is found, unless a number that is too long to be written is met under
an earlier one. -/

namespace NoteDecor.Frontmatter
open Value

def texts (v : Value) : List String := (Rule.parts v).filterMap comparable?

def Agree (v w : Value) : Prop := ∃ t ∈ texts v, t ∈ texts w

def Legible (v : Value) : Prop := ∀ n, int n ∈ Rule.parts v → Numeral.isWritable n = true

def Agrees (actual : Entries) (e : Value × Value) : Prop :=
  ∃ found, actual.get? e.1 = some found ∧ Agree e.2 found

def Blocks (actual : Entries) (e : Value × Value) : Prop :=
  ∃ found, actual.get? e.1 = some found ∧ ¬ (Legible e.2 ∧ Legible found)

def IsFirst (expected actual : Entries) (key : Value) : Prop :=
  ∃ before v after, expected = before ++ (key, v) :: after ∧ Agrees actual (key, v) ∧
    ∀ e ∈ before, ¬ Agrees actual e

def IsBlocked (expected actual : Entries) : Prop :=
  ∃ before e after, expected = before ++ e :: after ∧ Blocks actual e ∧
    ∀ d ∈ before, ¬ Blocks actual d ∧ ¬ Agrees actual d

theorem texts_eq_items (v : Value) :
    texts v = ((Criterion.of? v).map Criterion.items).getD [] := by
  unfold texts Rule.parts Criterion.of?
  cases v.items? with
  | some vs => rfl
  | none =>
    cases hc : v.comparable? with
    | none => simp [hc]
    | some t => simp [hc]

theorem meets_iff (v w : Value) : meets v w = true ↔ Agree v w := by
  unfold Agree meets
  rw [texts_eq_items v, texts_eq_items w]
  cases Criterion.of? v with
  | none => simp
  | some a =>
    cases Criterion.of? w with
    | none => simp
    | some b => simp [Criterion.meets]

theorem Agree.symm {v w : Value} (h : Agree v w) : Agree w v := by
  obtain ⟨t, hv, hw⟩ := h
  exact ⟨t, hw, hv⟩

theorem isWritable_of_comparable {v : Value} (h : v.comparable?.isSome = true)
    (hint : ∀ n, v ≠ int n) : v.isWritable = true := by
  cases v with
  | int n => exact absurd rfl (hint n)
  | bool _ | float _ | text _ | date _ | moment _ => rfl
  | _ => cases h

theorem comparable_or_writable_iff (v : Value) :
    (v.comparable?.isNone || v.isWritable) = true ↔
      ∀ n, int n = v → Numeral.isWritable n = true := by
  cases hc : v.comparable? with
  | none =>
    have hint : ∀ n, int n ≠ v := by
      rintro n rfl
      cases hc
    simp [hint]
  | some t =>
    rw [Option.isNone_some, Bool.false_or]
    constructor
    · rintro hw n rfl
      exact hw
    · intro hall
      by_cases hint : ∃ n, v = int n
      · obtain ⟨n, rfl⟩ := hint
        exact hall n rfl
      · exact isWritable_of_comparable (by rw [hc]; rfl) fun n hn => hint ⟨n, hn⟩

theorem canCompare_iff (v : Value) : canCompare v = true ↔ Legible v := by
  have hall : canCompare v =
      (Rule.parts v).all fun w => w.comparable?.isNone || w.isWritable := by
    unfold canCompare Rule.parts
    cases v.items? with
    | some vs => rfl
    | none => simp
  rw [hall, List.all_eq_true]
  constructor
  · intro h n hn
    exact (comparable_or_writable_iff _).1 (h _ hn) n rfl
  · intro h w hw
    refine (comparable_or_writable_iff w).2 ?_
    rintro n rfl
    exact h n hw

def tooLong : Value := int (Nat.pow 10 Numeral.decimalLimit)

theorem not_legible_tooLong : ¬ Legible tooLong := by
  intro h
  have hw : Numeral.isWritable (Nat.pow 10 Numeral.decimalLimit) = true :=
    h _ List.mem_cons_self
  rw [Numeral.isWritable, Int.natAbs_natCast, decide_eq_true_eq] at hw
  exact Nat.lt_irrefl _ hw

theorem any_meets_iff (actual : Entries) (e : Value × Value) :
    (actual.get? e.1).any (meets e.2) = true ↔ Agrees actual e := by
  unfold Agrees
  cases actual.get? e.1 with
  | none => simp
  | some found => simp [meets_iff]

theorem firstMatchingKey_eq_some_iff {expected actual : Entries} {key : Value} :
    firstMatchingKey expected actual = some key ↔ IsFirst expected actual key := by
  unfold firstMatchingKey IsFirst
  rw [Option.map_eq_some_iff]
  simp only [List.find?_eq_some_iff_append, any_meets_iff, Bool.not_eq_true', ← Bool.not_eq_true]
  constructor
  · rintro ⟨⟨k, v⟩, ⟨hagree, before, after, rfl, hbefore⟩, rfl⟩
    exact ⟨before, v, after, rfl, hagree, hbefore⟩
  · rintro ⟨before, v, after, rfl, hagree, hbefore⟩
    exact ⟨(key, v), ⟨hagree, before, after, rfl, hbefore⟩, rfl⟩

theorem firstMatchingKey_eq_none_iff {expected actual : Entries} :
    firstMatchingKey expected actual = none ↔ ∀ e ∈ expected, ¬ Agrees actual e := by
  unfold firstMatchingKey
  simp only [Option.map_eq_none_iff, List.find?_eq_none, any_meets_iff]

theorem exists_firstMatchingKey_iff {expected actual : Entries} :
    (∃ key, firstMatchingKey expected actual = some key) ↔ ∃ e ∈ expected, Agrees actual e := by
  rw [← Option.ne_none_iff_exists', ne_eq, firstMatchingKey_eq_none_iff]
  push Not
  rfl

open Classical in
theorem obstructs?_eq (actual : Entries) (e : Value × Value) :
    obstructs? actual e = if Blocks actual e then some true
      else if Agrees actual e then some false else none := by
  unfold obstructs? Blocks Agrees
  cases actual.get? e.1 with
  | none => simp
  | some found => simp [← canCompare_iff, ← meets_iff, imp_iff_not_or]

section Step

variable {actual : Entries} {e : Value × Value}

theorem obstructs?_eq_true_iff : obstructs? actual e = some true ↔ Blocks actual e := by
  rw [obstructs?_eq]
  split_ifs <;> simp [*]

theorem obstructs?_eq_false_iff :
    obstructs? actual e = some false ↔ ¬ Blocks actual e ∧ Agrees actual e := by
  rw [obstructs?_eq]
  split_ifs <;> simp [*]

theorem obstructs?_eq_none_iff :
    obstructs? actual e = none ↔ ¬ Blocks actual e ∧ ¬ Agrees actual e := by
  rw [obstructs?_eq]
  split_ifs <;> simp [*]

end Step

theorem isObstructed_iff {expected actual : Entries} :
    isObstructed expected actual = true ↔ IsBlocked expected actual := by
  have hgetD (o : Option Bool) : o.getD false = true ↔ o = some true := by
    cases o <;> simp
  unfold isObstructed IsBlocked
  rw [hgetD, List.findSome?_eq_some_iff]
  simp only [obstructs?_eq_true_iff, obstructs?_eq_none_iff]

/-- A search, and how it ends: at a number that is too long, with a key or with none. -/
def search (expected actual : Entries) : Except Misuse (Option Value) :=
  if isObstructed expected actual then .error .unwritable
  else .ok (firstMatchingKey expected actual)

theorem search_of_isBlocked {expected actual : Entries} (h : IsBlocked expected actual) :
    search expected actual = .error .unwritable := by
  unfold search
  exact if_pos (isObstructed_iff.2 h)

theorem search_of_not_isBlocked {expected actual : Entries} (h : ¬ IsBlocked expected actual) :
    search expected actual = .ok (firstMatchingKey expected actual) := by
  unfold search
  exact if_neg (mt isObstructed_iff.1 h)

section Step

variable {actual : Entries} {e : Value × Value} (r : Entries)

theorem search_cons_of_blocks (h : Blocks actual e) :
    search (e :: r) actual = .error .unwritable :=
  search_of_isBlocked ⟨[], e, r, rfl, h, nofun⟩

theorem search_cons_of_agrees (hb : ¬ Blocks actual e) (h : Agrees actual e) :
    search (e :: r) actual = .ok (some e.1) := by
  have hstep : obstructs? actual e = some false := obstructs?_eq_false_iff.2 ⟨hb, h⟩
  have hany := (any_meets_iff actual e).2 h
  unfold search isObstructed firstMatchingKey
  rw [List.findSome?_cons, hstep, List.find?_cons, hany]
  rfl

theorem search_cons_of_neither (hb : ¬ Blocks actual e) (h : ¬ Agrees actual e) :
    search (e :: r) actual = search r actual := by
  have hstep : obstructs? actual e = none := obstructs?_eq_none_iff.2 ⟨hb, h⟩
  have hany := Bool.eq_false_iff.2 (mt (any_meets_iff actual e).1 h)
  unfold search isObstructed firstMatchingKey
  rw [List.findSome?_cons, hstep, List.find?_cons, hany]

theorem search_append_of_neither {before : Entries}
    (h : ∀ d ∈ before, ¬ Blocks actual d ∧ ¬ Agrees actual d) :
    search (before ++ r) actual = search r actual := by
  induction before with
  | nil => rfl
  | cons d before ih =>
    rw [List.forall_mem_cons] at h
    rw [List.cons_append, search_cons_of_neither _ h.1.1 h.1.2, ih h.2]

end Step

theorem search_eq_ok_none_iff {expected actual : Entries} :
    search expected actual = .ok none ↔
      ∀ e ∈ expected, ¬ Blocks actual e ∧ ¬ Agrees actual e := by
  induction expected with
  | nil => exact iff_of_true rfl nofun
  | cons e r ih =>
    rw [List.forall_mem_cons]
    by_cases hb : Blocks actual e
    · rw [search_cons_of_blocks r hb]
      simp [hb]
    by_cases ha : Agrees actual e
    · rw [search_cons_of_agrees r hb ha]
      simp [ha]
    · rw [search_cons_of_neither r hb ha, ih]
      simp [hb, ha]

theorem exists_search_eq_ok_some_iff {expected actual : Entries}
    (h : ∀ e ∈ expected, ¬ Blocks actual e) :
    (∃ key, search expected actual = .ok (some key)) ↔ ∃ e ∈ expected, Agrees actual e := by
  have hblocked : ¬ IsBlocked expected actual := by
    rintro ⟨before, e, after, rfl, hblocks, -⟩
    exact h e (by simp) hblocks
  simp only [search_of_not_isBlocked hblocked, Except.ok.injEq, exists_firstMatchingKey_iff]

theorem search_congr {es es' actual actual' : Entries}
    (h : List.Forall₂ (fun e e' => e.1 = e'.1 ∧ (Blocks actual e ↔ Blocks actual' e') ∧
      (Agrees actual e ↔ Agrees actual' e')) es es') :
    search es actual = search es' actual' := by
  induction h with
  | nil => rfl
  | @cons e e' r r' he hr ih =>
    obtain ⟨hkey, hblocks, hagrees⟩ := he
    by_cases hb : Blocks actual e
    · rw [search_cons_of_blocks r hb, search_cons_of_blocks r' (hblocks.1 hb)]
    by_cases ha : Agrees actual e
    · rw [search_cons_of_agrees r hb ha,
        search_cons_of_agrees r' (mt hblocks.2 hb) (hagrees.1 ha), hkey]
    · rw [search_cons_of_neither r hb ha,
        search_cons_of_neither r' (mt hblocks.2 hb) (mt hagrees.2 ha), ih]

end NoteDecor.Frontmatter
