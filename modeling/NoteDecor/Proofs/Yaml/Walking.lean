import NoteDecor.Yaml.Token

/-! Where a cursor stands: what is left, how far it has come, and in which line it is. -/

namespace NoteDecor.Yaml

structure Cursor.At (c : Cursor) (rest : List Char) (index line : Nat) : Prop where
  rest : c.rest = rest
  index : c.index = index
  line : c.line = line

def Stops (p : Char → Bool) (s : List Char) : Prop := ∀ x ∈ s.head?, p x = false

theorem takeWhile_append_stops {p : Char → Bool} {t r : List Char} (ht : ∀ x ∈ t, p x = true)
    (hr : Stops p r) : (t ++ r).takeWhile p = t := by
  rw [List.takeWhile_append_of_pos ht]
  cases r with
  | nil => simp
  | cons x r => simp [hr x rfl]

namespace Cursor.At

variable {c : Cursor} {t r : List Char} {x : Char} {i l : Nat}

theorem peek (h : c.At (x :: r) i l) : c.peek = x := by
  rw [Cursor.peek, h.rest]
  rfl

theorem next (h : c.At (x :: r) i l) (hx : isBreak x = false) : c.next.At r (i + 1) l := by
  have hcount : c.index + 1 = i + 1 := congrArg (· + 1) h.index
  unfold Cursor.next
  rw [h.rest]
  dsimp only
  rw [hx, Bool.false_and, if_neg Bool.false_ne_true]
  split
  · exact ⟨rfl, hcount, h.line⟩
  · exact ⟨rfl, hcount, h.line⟩

theorem skip (h : c.At (t ++ r) i l) (ht : ∀ x ∈ t, isBreak x = false) :
    (c.skip t.length).At r (i + t.length) l := by
  induction t generalizing c i with
  | nil => exact h
  | cons x t ih =>
    obtain ⟨hx, ht⟩ := List.forall_mem_cons.1 ht
    have hrest := ih (At.next h hx) ht
    rw [Nat.add_assoc, Nat.add_comm 1] at hrest
    exact hrest

theorem span {p : Char → Bool} (h : c.At (t ++ r) i l) (ht : ∀ x ∈ t, p x = true)
    (hbreak : ∀ x ∈ t, isBreak x = false) (hr : Stops p r) :
    ∃ c', c.span p = (t, c') ∧ c'.At r (i + t.length) l := by
  refine ⟨c.skip t.length, ?_, h.skip hbreak⟩
  unfold Cursor.span
  rw [h.rest, takeWhile_append_stops ht hr]

end Cursor.At

def breaksIn : List Char → Nat
  | [] => 0
  | '\r' :: '\n' :: r => breaksIn r + 1
  | x :: r => breaksIn r + if isBreak x then 1 else 0

def IsGap (g : List Char) : Prop := ∀ x ∈ g, x = ' ' ∨ x = '\n' ∨ x = '\r'

def Settles (r : List Char) : Prop := Stops (fun x => x == ' ' || isBreak x) r

def EndsLine (b g : List Char) : Prop :=
  b = ['\n'] ∨ b = ['\r', '\n'] ∨ b = ['\r'] ∧ g.head? ≠ some '\n'

theorem IsGap.space {g : List Char} (h : IsGap g) : IsGap (' ' :: g) :=
  List.forall_mem_cons.2 ⟨.inl rfl, h⟩

theorem IsGap.line {b g : List Char} (h : IsGap g) (hb : EndsLine b g) : IsGap (b ++ g) := by
  rcases hb with rfl | rfl | ⟨rfl, -⟩
  · exact List.forall_mem_cons.2 ⟨.inr (.inl rfl), h⟩
  · exact List.forall_mem_cons.2 ⟨.inr (.inr rfl), List.forall_mem_cons.2 ⟨.inr (.inl rfl), h⟩⟩
  · exact List.forall_mem_cons.2 ⟨.inr (.inr rfl), h⟩

theorem gap_induction {P : (g : List Char) → IsGap g → Prop} (nil : P [] nofun)
    (space : ∀ g (hg : IsGap g), P g hg → P (' ' :: g) hg.space)
    (line : ∀ b g (hb : EndsLine b g) (hg : IsGap g), P g hg → P (b ++ g) (hg.line hb))
    {g : List Char} (hg : IsGap g) : P g hg := by
  induction g using breaksIn.induct with
  | case1 => exact nil
  | case2 g ih =>
    have hrest : IsGap g := fun x hx => hg x (by simp [hx])
    exact line ['\r', '\n'] g (.inr (.inl rfl)) hrest (ih hrest)
  | case3 x g hpair ih =>
    obtain ⟨hx, hrest⟩ := List.forall_mem_cons.1 hg
    rcases hx with rfl | rfl | rfl
    · exact space g hrest (ih hrest)
    · exact line ['\n'] g (.inl rfl) hrest (ih hrest)
    · refine line ['\r'] g (.inr (.inr ⟨rfl, fun hhead => ?_⟩)) hrest (ih hrest)
      obtain ⟨g', rfl⟩ := List.head?_eq_some_iff.1 hhead
      exact hpair g' rfl rfl

theorem breaksIn_endsLine {b g : List Char} (h : EndsLine b g) :
    breaksIn (b ++ g) = breaksIn g + 1 := by
  rcases h with rfl | rfl | ⟨rfl, hg⟩
  · rfl
  · rfl
  · cases g with
    | nil => rfl
    | cons x g =>
      rw [List.singleton_append, breaksIn]
      · rfl
      · rintro g' - hx
        cases hx
        exact hg rfl

section Gaps

variable {c : Cursor} {b g r : List Char} {i l : Nat}

theorem Cursor.At.nextLine {x : Char} (h : c.At (x :: r) i l) (hx : isBreak x = true)
    (hreturn : x ≠ '\r') : c.next.At r (i + 1) (l + 1) := by
  have hbreak : (isBreak x && !(x == '\r' && r.head? == some '\n')) = true := by
    rw [hx, beq_false_of_ne hreturn]
    rfl
  unfold Cursor.next
  rw [h.rest]
  dsimp only
  rw [if_pos hbreak]
  exact ⟨rfl, congrArg (· + 1) h.index, congrArg (· + 1) h.line⟩

theorem Cursor.At.lineFeed (h : c.At ('\n' :: r) i l) : c.next.At r (i + 1) (l + 1) :=
  h.nextLine rfl (by decide)

theorem Cursor.At.carriageReturn (h : c.At ('\r' :: r) i l) (hr : r.head? ≠ some '\n') :
    c.next.At r (i + 1) (l + 1) := by
  have hbreak : (isBreak '\r' && !('\r' == '\r' && r.head? == some '\n')) = true := by
    simpa [isBreak] using hr
  unfold Cursor.next
  rw [h.rest]
  dsimp only
  rw [if_pos hbreak]
  exact ⟨rfl, congrArg (· + 1) h.index, congrArg (· + 1) h.line⟩

theorem Cursor.At.bothFeeds (h : c.At ('\r' :: '\n' :: r) i l) :
    (c.skip 2).At r (i + 2) (l + 1) := by
  have hfirst : c.next.At ('\n' :: r) (i + 1) l := by
    unfold Cursor.next
    rw [h.rest]
    exact ⟨rfl, congrArg (· + 1) h.index, h.line⟩
  exact hfirst.lineFeed

theorem Cursor.At.lineBreak (h : c.At (b ++ g ++ r) i l) (hb : EndsLine b g) (hr : Settles r) :
    ∃ c', c.lineBreak = (['\n'], c') ∧ c'.At (g ++ r) (i + b.length) (l + 1) := by
  have hword (word : String) : c.isAt word = word.toList.isPrefixOf (b ++ g ++ r) := by
    rw [Cursor.isAt, h.rest]
  rcases hb with rfl | rfl | ⟨rfl, hg⟩
  · refine ⟨c.next, ?_, h.lineFeed⟩
    unfold Cursor.lineBreak
    rw [hword, h.peek]
    rfl
  · refine ⟨c.skip 2, ?_, h.bothFeeds⟩
    unfold Cursor.lineBreak
    rw [hword]
    rfl
  · have hhead : (g ++ r).head? ≠ some '\n' := by
      cases g with
      | nil =>
        intro hr'
        have := hr _ hr'
        revert this
        decide
      | cons x g => exact hg
    refine ⟨c.next, ?_, h.carriageReturn hhead⟩
    have hsingle : "\r\n".toList.isPrefixOf ('\r' :: (g ++ r)) = false := by
      rw [Bool.eq_false_iff]
      intro hprefix
      obtain ⟨t, ht⟩ := List.isPrefixOf_iff_prefix.1 hprefix
      injection ht with _ ht
      exact hhead (by rw [← ht]; rfl)
    unfold Cursor.lineBreak
    rw [hword, h.peek]
    change (if "\r\n".toList.isPrefixOf ('\r' :: (g ++ r)) = true then _ else _) = _
    rw [hsingle]
    rfl

theorem EndsLine.exists_cons (h : EndsLine b g) :
    ∃ x t, b = x :: t ∧ (x = '\n' ∨ x = '\r') := by
  rcases h with rfl | rfl | ⟨rfl, -⟩
  · exact ⟨_, _, rfl, .inl rfl⟩
  · exact ⟨_, _, rfl, .inr rfl⟩
  · exact ⟨_, _, rfl, .inr rfl⟩

theorem EndsLine.length_pos (h : EndsLine b g) : 0 < b.length := by
  obtain ⟨x, t, rfl, -⟩ := h.exists_cons
  exact Nat.succ_pos _

theorem Cursor.At.peek_eq (h : c.At r i l) : c.peek = r.headD '\x00' := by
  rw [Cursor.peek, h.rest]

theorem Cursor.At.peek_endsLine (h : c.At (b ++ g ++ r) i l) (hb : EndsLine b g) :
    c.peek = '\n' ∨ c.peek = '\r' := by
  obtain ⟨x, t, rfl, hx⟩ := hb.exists_cons
  rw [h.peek_eq]
  exact hx

theorem Cursor.At.not_break (h : c.At r i l) (hr : Settles r) : isBreak c.peek = false := by
  rw [h.peek_eq]
  cases r with
  | nil => decide
  | cons x r => exact (Bool.or_eq_false_iff.1 (hr x rfl)).2

theorem Cursor.At.not_space (h : c.At r i l) (hr : Settles r) : c.peek ≠ ' ' := by
  rw [h.peek_eq]
  cases r with
  | nil => decide
  | cons x r => exact ne_of_beq_false (Bool.or_eq_false_iff.1 (hr x rfl)).1

theorem Cursor.skipSpaces_eq (h : c.peek ≠ ' ') : c.skipSpaces = c := by
  have hnone : c.rest.takeWhile (· == ' ') = [] := by
    unfold Cursor.peek at h
    cases hrest : c.rest with
    | nil => rfl
    | cons x r =>
      rw [hrest] at h
      exact List.takeWhile_cons_of_neg (by simpa using h)
  unfold Cursor.skipSpaces Cursor.span
  rw [hnone]
  rfl

theorem Cursor.skipSpaces_space (h : c.At (' ' :: r) i l) : c.skipSpaces = c.next.skipSpaces := by
  have hnext : c.next.rest = r := (h.next (by decide)).rest
  unfold Cursor.skipSpaces Cursor.span
  rw [h.rest, hnext]
  rfl

theorem Cursor.skipComment_eq (h : c.peek ≠ '#') : c.skipComment = c :=
  if_neg (by simpa using h)

section Scanning

variable {s : Scanner}

theorem Scanner.skipGap_settled (h : s.cursor.At r i l) (hr : Settles r)
    (hcomment : r.head? ≠ some '#') (fuel : Nat) : s.skipGap (fuel + 1) = s := by
  have hpeek : s.cursor.peek ≠ '#' := by
    rw [h.peek_eq]
    cases r with
    | nil => decide
    | cons x r => exact fun hx => hcomment (congrArg some hx)
  unfold Scanner.skipGap
  dsimp only
  rw [Cursor.skipSpaces_eq (h.not_space hr), Cursor.skipComment_eq hpeek, h.not_break hr]
  rfl

theorem Scanner.skipGap_space (h : s.cursor.At (' ' :: r) i l) (fuel : Nat) :
    s.skipGap (fuel + 1) = (s.moveTo s.cursor.next).skipGap (fuel + 1) := by
  unfold Scanner.skipGap
  rw [Cursor.skipSpaces_space h]
  rfl

theorem Scanner.skipGap_endsLine (h : s.cursor.At (b ++ g ++ r) i l) (hb : EndsLine b g)
    (hr : Settles r) (fuel : Nat) :
    ∃ c', s.skipGap (fuel + 1) =
        ((s.moveTo c').allowKey (s.keyAllowed || s.flow == 0)).skipGap fuel ∧
      c'.At (g ++ r) (i + b.length) (l + 1) := by
  have hpeek := h.peek_endsLine hb
  have hspace : s.cursor.peek ≠ ' ' := by
    rcases hpeek with hpeek | hpeek <;> rw [hpeek] <;> decide
  have hmark : s.cursor.peek ≠ '#' := by
    rcases hpeek with hpeek | hpeek <;> rw [hpeek] <;> decide
  have hbreak : isBreak s.cursor.peek = true := by
    rcases hpeek with hpeek | hpeek <;> rw [hpeek] <;> rfl
  obtain ⟨c', hc', hat⟩ := h.lineBreak hb hr
  refine ⟨c', ?_, hat⟩
  rw [Scanner.skipGap, Cursor.skipSpaces_eq hspace, Cursor.skipComment_eq hmark, hc']
  exact if_pos hbreak

theorem Scanner.skipGap_of_gap {fuel : Nat} (hg : IsGap g) (hr : Settles r)
    (hcomment : r.head? ≠ some '#') (hfuel : g.length < fuel) (h : s.cursor.At (g ++ r) i l) :
    ∃ c', s.skipGap fuel =
        (s.moveTo c').allowKey (s.keyAllowed || (s.flow == 0 && breaksIn g != 0)) ∧
      c'.At r (i + g.length) (l + breaksIn g) := by
  obtain ⟨fuel, rfl⟩ := Nat.exists_eq_add_one_of_ne_zero (Nat.ne_zero_of_lt hfuel)
  induction hg using gap_induction generalizing s fuel i l with
  | nil =>
    refine ⟨s.cursor, ?_, h⟩
    rw [skipGap_settled h hr hcomment]
    simp [breaksIn, Scanner.moveTo, Scanner.allowKey]
  | space g hg ih =>
    have hnext : (s.moveTo s.cursor.next).cursor.At (g ++ r) (i + 1) l := h.next (by decide)
    obtain ⟨c', hc', hat⟩ := ih hnext fuel (Nat.lt_of_succ_lt hfuel)
    refine ⟨c', (skipGap_space h fuel).trans hc', ?_⟩
    rw [Nat.add_assoc, Nat.add_comm 1] at hat
    exact hat
  | line b g hb hg ih =>
    obtain ⟨c₁, hstep, hat₁⟩ := skipGap_endsLine h hb hr fuel
    have hlength : (b ++ g).length = b.length + g.length := List.length_append
    have hpositive := hb.length_pos
    obtain ⟨fuel, rfl⟩ := Nat.exists_eq_add_one_of_ne_zero (show fuel ≠ 0 by omega)
    have hmoved : ((s.moveTo c₁).allowKey (s.keyAllowed || s.flow == 0)).cursor.At (g ++ r)
        (i + b.length) (l + 1) := hat₁
    obtain ⟨c', hc', hat⟩ := ih hmoved fuel (by omega)
    refine ⟨c', ?_, ?_⟩
    · rw [hstep, hc', breaksIn_endsLine hb]
      simp [Scanner.moveTo, Scanner.allowKey]
      cases s.flow <;> simp
    · rw [breaksIn_endsLine hb, hlength, ← Nat.add_assoc, Nat.add_comm (breaksIn g),
        ← Nat.add_assoc]
      exact hat

end Scanning

end Gaps

end NoteDecor.Yaml
