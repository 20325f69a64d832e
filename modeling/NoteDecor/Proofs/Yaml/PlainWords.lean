import NoteDecor.Proofs.Yaml.Walking

/-! Plain scalars of one word in flow, as numbers and truth values are. The word is taken as it is,
and the gap behind it belongs to the scalar but not to its text. -/

namespace NoteDecor.Yaml

def isWordText (x : Char) : Bool :=
  !(isGap x || x == ':' || x == '?' || isIn Scalar.flowMarks x)

def EndsPlain (r : List Char) : Prop :=
  ∃ y u, r = y :: u ∧ (y = '\t' ∨ isIn Scalar.flowMarks y = true)

theorem EndsPlain.cases {r : List Char} (h : EndsPlain r) :
    ∃ y u, r = y :: u ∧ (y = '\t' ∨ y = ',' ∨ y = '[' ∨ y = ']' ∨ y = '\x7b' ∨ y = '\x7d') := by
  obtain ⟨y, u, rfl, hy⟩ := h
  refine ⟨y, u, rfl, hy.imp_right fun hmark => ?_⟩
  simpa [isIn, Scalar.flowMarks] using hmark

theorem EndsPlain.settles {r : List Char} (h : EndsPlain r) : Settles r := by
  obtain ⟨y, u, rfl, hy⟩ := h.cases
  intro x hx
  cases hx
  rcases hy with rfl | rfl | rfl | rfl | rfl | rfl <;> rfl

theorem EndsPlain.head_ne {r : List Char} (h : EndsPlain r) {x : Char}
    (hx : x = '-' ∨ x = '.' ∨ x = '#') : r.head? ≠ some x := by
  obtain ⟨y, u, rfl, hy⟩ := h.cases
  rintro ⟨⟩
  rcases hy with rfl | rfl | rfl | rfl | rfl | rfl <;> revert hx <;> decide

section Words

variable {c : Cursor} {g r t : List Char} {i l : Nat}

theorem Cursor.not_marker (h : c.At r i l) (hr : ∀ x, x = '-' ∨ x = '.' → r.head? ≠ some x) :
    c.isAtMarker = false := by
  have hword (word : String) (x : Char) (t : List Char) (hword : word.toList = x :: t)
      (hx : x = '-' ∨ x = '.') : c.isAt word = false := by
    rw [Cursor.isAt, h.rest, hword, Bool.eq_false_iff]
    intro hprefix
    obtain ⟨u, hu⟩ := List.isPrefixOf_iff_prefix.1 hprefix
    exact hr x hx (by rw [← hu]; rfl)
  unfold Cursor.isAtMarker
  rw [hword "---" '-' ['-', '-'] rfl (.inl rfl), hword "..." '.' ['.', '.'] rfl (.inr rfl)]
  rfl

theorem gap_head {g : List Char} (hg : IsGap g) (hr : EndsPlain r) {x : Char}
    (hx : x = '-' ∨ x = '.') : (g ++ r).head? ≠ some x := by
  cases g with
  | nil => exact hr.head_ne (hx.imp_right .inl)
  | cons y g =>
    rintro ⟨⟩
    have hy := hg x (.head _)
    rcases hx with rfl | rfl <;> revert hy <;> decide

theorem plainBreaks_of_gap {fuel : Nat} (hg : IsGap g) (hr : EndsPlain r)
    (hfuel : g.length < fuel) (h : c.At (g ++ r) i l) :
    ∃ bs c', Scalar.plainBreaks fuel c = (some bs, c') ∧
      c'.At r (i + g.length) (l + breaksIn g) := by
  obtain ⟨fuel, rfl⟩ := Nat.exists_eq_add_one_of_ne_zero (Nat.ne_zero_of_lt hfuel)
  induction hg using gap_induction generalizing c fuel i l with
  | nil =>
    refine ⟨[], c, ?_, h⟩
    rw [Scalar.plainBreaks, h.not_break hr.settles]
    exact if_neg (by simpa using h.not_space hr.settles)
  | space g hg ih =>
    obtain ⟨fuel, rfl⟩ := Nat.exists_eq_add_one_of_ne_zero (show fuel ≠ 0 by
      simp at hfuel
      omega)
    obtain ⟨bs, c', hc', hat⟩ := ih (h.next (by decide)) fuel (Nat.lt_of_succ_lt_succ hfuel)
    refine ⟨bs, c', ?_, ?_⟩
    · rw [Scalar.plainBreaks, h.peek, ← hc']
      rfl
    · rw [Nat.add_assoc, Nat.add_comm 1] at hat
      exact hat
  | line b g hb hg ih =>
    have hpeek := h.peek_endsLine hb
    obtain ⟨c₁, hc₁, hat₁⟩ := h.lineBreak hb hr.settles
    have hmarker : c₁.isAtMarker = false := Cursor.not_marker hat₁ fun x hx => gap_head hg hr hx
    have hlength : (b ++ g).length = b.length + g.length := List.length_append
    have hpositive := hb.length_pos
    obtain ⟨fuel, rfl⟩ := Nat.exists_eq_add_one_of_ne_zero (show fuel ≠ 0 by omega)
    obtain ⟨bs, c', hc', hat⟩ := ih hat₁ fuel (by omega)
    refine ⟨['\n'] ++ bs, c', ?_, ?_⟩
    · rw [Scalar.plainBreaks]
      rcases hpeek with hpeek | hpeek <;> rw [hpeek, hc₁] <;> dsimp only <;>
        rw [hmarker, hc'] <;> rfl
    · rw [breaksIn_endsLine hb, hlength, ← Nat.add_assoc, Nat.add_comm (breaksIn g),
        ← Nat.add_assoc]
      exact hat

theorem IsGap.split {g : List Char} (hg : IsGap g) : ∃ n g', g = List.replicate n ' ' ++ g' ∧
    breaksIn g = breaksIn g' ∧ (g' = [] ∨ ∃ b u, g' = b ++ u ∧ EndsLine b u ∧ IsGap u) := by
  induction hg using gap_induction with
  | nil => exact ⟨0, [], rfl, rfl, .inl rfl⟩
  | space g hg ih =>
    obtain ⟨n, g', rfl, hbreaks, hrest⟩ := ih
    exact ⟨n + 1, g', rfl, hbreaks, hrest⟩
  | line b g hb hg _ => exact ⟨0, b ++ g, rfl, rfl, .inr ⟨b, g, rfl, hb, hg⟩⟩

theorem plainGap_of_gap (hg : IsGap g) (hr : EndsPlain r) (h : c.At (g ++ r) i l) :
    ∃ gap ended c', Scalar.plainGap c = (gap, ended, c') ∧
      c'.At r (i + g.length) (l + breaksIn g) := by
  -- spaces come first and are dropped if the end of a line follows
  obtain ⟨n, g', rfl, hbreaks, hg'⟩ := hg.split
  rw [List.append_assoc] at h
  have hspace : ∀ x ∈ List.replicate n ' ', (x == ' ') = true := by
    intro x hx
    rw [List.eq_of_mem_replicate hx]
    rfl
  have hbreak : ∀ x ∈ List.replicate n ' ', isBreak x = false := by
    intro x hx
    rw [List.eq_of_mem_replicate hx]
    rfl
  have hstops : Stops (· == ' ') (g' ++ r) := by
    intro x hx
    rcases hg' with rfl | ⟨b, u, rfl, hb, hu⟩
    · exact (Bool.or_eq_false_iff.1 (hr.settles x hx)).1
    · obtain ⟨y, t, rfl, hy⟩ := hb.exists_cons
      cases hx
      rcases hy with rfl | rfl <;> rfl
  obtain ⟨c₁, hc₁, hat₁⟩ := h.span hspace hbreak hstops
  rw [hbreaks, List.length_append, ← Nat.add_assoc]
  rw [Scalar.plainGap, hc₁]
  dsimp only
  rcases hg' with rfl | ⟨b, u, rfl, hb, hu⟩
  · refine ⟨_, _, c₁, if_neg ?_, hat₁⟩
    rw [hat₁.not_break hr.settles]
    exact Bool.false_ne_true
  · have hpeek := hat₁.peek_endsLine hb
    obtain ⟨c₂, hc₂, hat₂⟩ := hat₁.lineBreak hb hr.settles
    have hmarker : c₂.isAtMarker = false := Cursor.not_marker hat₂ fun x hx => gap_head hu hr hx
    have hfuel : u.length < Scalar.fuelOf c₂ := by
      rw [Scalar.fuelOf, hat₂.rest, List.length_append]
      omega
    obtain ⟨bs, c₃, hc₃, hat₃⟩ := plainBreaks_of_gap hu hr hfuel hat₂
    refine ⟨Scalar.folded ['\n'] bs, true, c₃, ?_, ?_⟩
    · rcases hpeek with hpeek | hpeek <;> rw [hpeek, hc₂] <;> dsimp only <;>
        rw [hmarker, hc₃] <;> rfl
    · rw [breaksIn_endsLine hb, List.length_append, ← Nat.add_assoc, Nat.add_comm (breaksIn u),
        ← Nat.add_assoc]
      exact hat₃

theorem plainLength_word {u : List Char} (ht : ∀ x ∈ t, isWordText x = true)
    (hu : Scalar.plainLength true u = 0) : Scalar.plainLength true (t ++ u) = t.length := by
  induction t with
  | nil => exact hu
  | cons x t ih =>
    obtain ⟨hx, ht⟩ := List.forall_mem_cons.1 ht
    have hx : (((isGap x = false ∧ (x == ':') = false) ∧ (x == '?') = false) ∧
        isIn Scalar.flowMarks x = false) := by
      simpa [isWordText] using hx
    obtain ⟨⟨⟨hgap, hcolon⟩, hquestion⟩, hmark⟩ := hx
    rw [List.cons_append, Scalar.plainLength, ih ht, hgap, hcolon, hquestion, hmark]
    rfl

theorem plainLength_of_ends (hr : EndsPlain r) : Scalar.plainLength true r = 0 := by
  obtain ⟨y, u, rfl, hy⟩ := hr
  rw [Scalar.plainLength]
  refine if_pos ?_
  rcases hy with rfl | hmark
  · rfl
  · rw [hmark]
    simp

theorem plainLength_of_gap {g : List Char} (hg : IsGap g) (hr : EndsPlain r) :
    Scalar.plainLength true (g ++ r) = 0 := by
  cases g with
  | nil => exact plainLength_of_ends hr
  | cons x g =>
    rw [List.cons_append, Scalar.plainLength]
    refine if_pos ?_
    rcases hg x (.head _) with rfl | rfl | rfl <;> rfl

theorem plain_of_word (indent : Int) (ht : ∀ x ∈ t, isWordText x = true) (hne : t ≠ [])
    (hcomment : t.head? ≠ some '#') (hg : IsGap g) (hr : EndsPlain r)
    (h : c.At (t ++ (g ++ r)) i l) :
    ∃ ended c', Scalar.plain true indent c = (t, ended, c') ∧
      c'.At r (i + t.length + g.length) (l + breaksIn g) := by
  have hbreak : ∀ x ∈ t, isBreak x = false := by
    intro x hx
    have hgap : isGap x = false := by
      have := ht x hx
      unfold isWordText at this
      simp only [Bool.not_eq_true', Bool.or_eq_false_iff] at this
      exact this.1.1.1
    simp only [isGap, isEnd, Bool.or_eq_false_iff] at hgap
    exact hgap.2.2
  have hhash : (c.peek == '#') = false := by
    rw [h.peek_eq]
    cases t with
    | nil => exact absurd rfl hne
    | cons x t => exact beq_false_of_ne fun hx => hcomment (congrArg some hx)
  have hlength : Scalar.plainLength true c.rest = t.length := by
    rw [h.rest]
    exact plainLength_word ht (plainLength_of_gap hg hr)
  have htake : c.rest.take t.length = t := by
    rw [h.rest]
    exact List.take_left
  obtain ⟨gap, ended, c₁, hc₁, hat₁⟩ := plainGap_of_gap hg hr (h.skip hbreak)
  have hpositive : t.length ≠ 0 := fun hzero => hne (List.length_eq_zero_iff.1 hzero)
  -- behind the gap no further word begins
  have hmore (fuel : Nat) : Scalar.plainWords true indent fuel gap ended c₁ = ([], ended, c₁) := by
    cases fuel with
    | zero => rfl
    | succ fuel =>
      rw [Scalar.plainWords, hat₁.rest, plainLength_of_ends hr]
      simp
  refine ⟨ended, c₁, ?_, hat₁⟩
  unfold Scalar.plain Scalar.fuelOf
  rw [Scalar.plainWords]
  simp only [hhash, hlength, htake, hc₁, hmore, Bool.false_eq_true, if_false, hpositive,
    List.nil_append, List.append_nil, ite_self]

end Words

end NoteDecor.Yaml
