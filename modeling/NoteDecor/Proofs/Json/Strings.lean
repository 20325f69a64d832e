import Mathlib.Data.List.TakeWhile
import NoteDecor.Proofs.Json.Folding
import NoteDecor.Proofs.Steps
import NoteDecor.Proofs.Yaml.Walking

/-! A JSON string as a quoted scalar. The pieces of its words are read one by one and each stands for
itself: two halves of a pair are not joined. The gaps between the words are folded, unless a marker
stands in one. -/

namespace NoteDecor.Json
open Yaml

theorem HexDigit.hexValue? (d : HexDigit) : hexValue? d.char = some d.value := by
  obtain ⟨v, b⟩ := d
  revert v
  cases b <;> decide

theorem HexDigit.not_break (d : HexDigit) : isBreak d.char = false := by
  obtain ⟨v, b⟩ := d
  revert v
  cases b <;> decide

theorem codeUnit_lt (a b c d : HexDigit) : codeUnit a b c d < 0x10000 := by
  have ha := a.value.isLt
  have hb := b.value.isLt
  have hc := c.value.isLt
  have hd := d.value.isLt
  simp only [codeUnit, Numeral.ofDigits, List.foldl_cons, List.foldl_nil]
  omega

namespace Piece

theorem exists_head {p : Piece} (hp : p.isGap = false) :
    ∃ x t, p.text = x :: t ∧ isIn " \t" x = false ∧ x ≠ '\x00' ∧ isBreak x = false ∧
      x ≠ '\x22' := by
  cases p with
  | plain c h =>
    obtain ⟨hblank, hbreak⟩ := Bool.or_eq_false_iff.1 hp
    have hspace : c ≠ ' ' := ne_of_beq_false hblank
    have htab : c ≠ '\t' := isPlain_ne h (by decide)
    have hnull : c ≠ '\x00' := isPlain_ne h (by decide)
    have hquote : c ≠ '\x22' := isPlain_ne h (by decide)
    refine ⟨c, [], rfl, ?_, hnull, hbreak, hquote⟩
    simp [isIn, hspace, htab]
  | short e => exact ⟨'\\', [e.mark], rfl, by decide, by decide, by decide, by decide⟩
  | unit a b c d => exact ⟨'\\', _, rfl, by decide, by decide, by decide, by decide⟩

theorem text_ne_nil (p : Piece) : p.text ≠ [] := by cases p <;> exact List.cons_ne_nil _ _

end Piece

theorem length_le_text (ps : List Piece) : ps.length ≤ (ps.flatMap Piece.text).length := by
  induction ps with
  | nil => exact Nat.le_refl 0
  | cons p ps ih =>
    have := List.length_pos_iff.2 p.text_ne_nil
    rw [List.flatMap_cons, List.length_append, List.length_cons]
    omega

theorem text_of_blank {ps : List Piece} (h : ∀ p ∈ ps, p.isBlank = true) :
    ps.flatMap Piece.text = ps.map Piece.char ∧ ∀ x ∈ ps.map Piece.char, x = ' ' := by
  induction ps with
  | nil => exact ⟨rfl, nofun⟩
  | cons p ps ih =>
    obtain ⟨hp, hps⟩ := List.forall_mem_cons.1 h
    obtain ⟨htext, hchar⟩ := Piece.of_isBlank hp
    obtain ⟨hsame, hall⟩ := ih hps
    rw [List.flatMap_cons, List.map_cons, hsame, htext, hchar]
    exact ⟨rfl, List.forall_mem_cons.2 ⟨rfl, hall⟩⟩

def wordRest (fuel : Nat) (c : Cursor) : Yaml.Result (List Char × Cursor) :=
  if c.peek == '\x27' then
    (Scalar.quotedWord true fuel c.next).map fun p => ('\x27' :: p.1, p.2)
  else if c.peek == '\\' then do
    let (mark, c) ← Scalar.escape c.next
    (Scalar.quotedWord true fuel c).map fun p => (mark ++ p.1, p.2)
  else .ok ([], c)

theorem quotedWord_eq (fuel : Nat) (c : Cursor) : Scalar.quotedWord true (fuel + 1) c =
    (wordRest fuel (c.span Scalar.isQuotedText).2).map fun p =>
      ((c.span Scalar.isQuotedText).1 ++ p.1, p.2) := by
  rw [Scalar.quotedWord]
  cases c.span Scalar.isQuotedText with | mk word c₁
  unfold wordRest
  dsimp only
  by_cases hsingle : (c₁.peek == '\x27') = true
  · rw [if_pos hsingle, eq_of_beq hsingle]
    cases Scalar.quotedWord true fuel c₁.next <;> rfl
  · have hother : (c₁.peek == '\x27') = false := Bool.eq_false_iff.2 hsingle
    rw [if_neg hsingle, hother]
    by_cases hback : (c₁.peek == '\\') = true
    · rw [if_pos hback, hback]
      cases Scalar.escape c₁.next with
      | error f => rfl
      | ok q =>
        obtain ⟨mark, c₂⟩ := q
        cases hword : Scalar.quotedWord true fuel c₂ with
        | error f => simp [hword, bind, Except.bind, Except.map]
        | ok q => simp [hword, bind, Except.bind, Except.map, pure, Except.pure]
    · rw [if_neg hback, Bool.eq_false_iff.2 hback]
      simp [pure, Except.pure, Except.map]

section Words

variable {c c' : Cursor} {r w : List Char} {x : Char} {i l fuel : Nat}

theorem isBreak_of_isQuotedText (hx : Scalar.isQuotedText x = true) : isBreak x = false := by
  simp only [Scalar.isQuotedText, isGap, isEnd, Bool.not_eq_true', Bool.or_eq_false_iff] at hx
  exact hx.2.2.2

theorem quotedWord_text (hx : Scalar.isQuotedText x = true) (h : c.At (x :: r) i l) :
    Scalar.quotedWord true (fuel + 1) c =
      (Scalar.quotedWord true (fuel + 1) c.next).map fun p => (x :: p.1, p.2) := by
  have hnext := h.next (isBreak_of_isQuotedText hx)
  have hspan : c.span Scalar.isQuotedText =
      (x :: (c.next.span Scalar.isQuotedText).1, (c.next.span Scalar.isQuotedText).2) := by
    unfold Cursor.span
    rw [h.rest, hnext.rest, List.takeWhile_cons_of_pos hx]
    rfl
  rw [quotedWord_eq, quotedWord_eq, hspan]
  cases wordRest fuel (c.next.span Scalar.isQuotedText).2 <;> rfl

theorem quotedWord_other (hx : Scalar.isQuotedText x = false) (h : c.At (x :: r) i l) :
    Scalar.quotedWord true (fuel + 1) c = wordRest fuel c := by
  have hspan : c.span Scalar.isQuotedText = ([], c) := by
    unfold Cursor.span
    rw [h.rest, List.takeWhile_cons_of_neg (by rw [hx]; exact Bool.false_ne_true)]
    rfl
  rw [quotedWord_eq, hspan]
  cases wordRest fuel c <;> rfl

theorem escape_short (e : Short) (h : c.At (e.mark :: r) i l) :
    Scalar.escape c = .ok ([e.char], c.next) := by
  unfold Scalar.escape
  rw [h.peek]
  cases e <;> rfl

theorem escape_unit (a b d e : HexDigit) (h : c.At ('u' :: a.char :: b.char :: d.char :: e.char :: r)
    i l) : ∃ c', Scalar.escape c = .ok ([Text.ofCodePoint (codeUnit a b d e)], c') ∧
      c'.At r (i + 5) l := by
  have hnext := h.next (by decide)
  have hdigits : ((List.range 4).mapM fun i => hexValue? (c.next.peekAt i)) =
      some [a.value.val, b.value.val, d.value.val, e.value.val] := by
    unfold Cursor.peekAt
    rw [hnext.rest]
    have ha := a.hexValue?
    have hb := b.hexValue?
    have hd := d.hexValue?
    have he := e.hexValue?
    simp [List.range_succ, ha, hb, hd, he]
  have hbreak : ∀ x ∈ [a.char, b.char, d.char, e.char], isBreak x = false := by
    simp [HexDigit.not_break]
  have hskip : (c.next.skip 4).At r (i + 1 + 4) l :=
    Cursor.At.skip (t := [a.char, b.char, d.char, e.char]) hnext hbreak
  have hpoint : Scalar.codePoint (codeUnit a b d e) =
      .ok (Text.ofCodePoint (codeUnit a b d e)) := by
    have := codeUnit_lt a b d e
    exact if_neg (by omega)
  have hnumber : c.next.hexNumber 4 = .ok (codeUnit a b d e, c.next.skip 4) := by
    unfold Cursor.hexNumber
    rw [hdigits]
    rfl
  refine ⟨c.next.skip 4, ?_, hskip⟩
  unfold Scalar.escape
  rw [h.peek]
  change (c.next.hexNumber 4 >>= fun p => Scalar.codePoint p.1 >>= fun y =>
    Except.ok ([y], p.2)) = _
  rw [hnumber]
  change (Scalar.codePoint (codeUnit a b d e) >>= fun y => Except.ok ([y], c.next.skip 4)) = _
  rw [hpoint]
  rfl

theorem quotedWord_end (hx : x = '\x22' ∨ Yaml.isGap x = true) (h : c.At (x :: r) i l) :
    Scalar.quotedWord true (fuel + 1) c = .ok ([], c) := by
  have hother : Scalar.isQuotedText x = false := by
    rcases hx with rfl | hx
    · rfl
    · rw [Scalar.isQuotedText, hx, Bool.or_true]
      rfl
  have hsingle : (x == '\x27') = false := by
    rw [beq_eq_false_iff_ne]
    rintro rfl
    rcases hx with hx | hx <;> revert hx <;> decide
  have hback : (x == '\\') = false := by
    rw [beq_eq_false_iff_ne]
    rintro rfl
    rcases hx with hx | hx <;> revert hx <;> decide
  rw [quotedWord_other hother h, wordRest, h.peek, hsingle, hback]
  rfl

theorem quotedWord_apostrophe (h : c.At ('\x27' :: r) i l) :
    Scalar.quotedWord true (fuel + 1) c =
      (Scalar.quotedWord true fuel c.next).map fun p => ('\x27' :: p.1, p.2) := by
  rw [quotedWord_other rfl h, wordRest, h.peek]
  rfl

theorem quotedWord_escape {y : Char} (h : c.At ('\\' :: r) i l)
    (he : Scalar.escape c.next = .ok ([y], c')) :
    Scalar.quotedWord true (fuel + 1) c =
      (Scalar.quotedWord true fuel c').map fun p => (y :: p.1, p.2) := by
  rw [quotedWord_other rfl h, wordRest, h.peek, he]
  rfl

theorem quotedWord_piece (fuel : Nat) {p : Piece} (hp : p.isGap = false)
    (h : c.At (p.text ++ r) i l) : ∃ c₁, c₁.At r (i + p.text.length) l ∧
      ∃ fuel' ≥ fuel, Scalar.quotedWord true (fuel + 1) c =
        (Scalar.quotedWord true fuel' c₁).map fun q => (p.char :: q.1, q.2) := by
  cases p with
  | plain x hx =>
    obtain ⟨hblank, hbreak⟩ := Bool.or_eq_false_iff.1 hp
    have hbreak : isBreak x = false := hbreak
    by_cases hsingle : x = '\x27'
    · subst hsingle
      exact ⟨c.next, h.next hbreak, fuel, Nat.le_refl _, quotedWord_apostrophe h⟩
    · have hquote : x ≠ '\x22' := isPlain_ne hx (by decide)
      have hback : x ≠ '\\' := isPlain_ne hx (by decide)
      have hspace : x ≠ ' ' := ne_of_beq_false hblank
      have htab : x ≠ '\t' := isPlain_ne hx (by decide)
      have hnull : x ≠ '\x00' := isPlain_ne hx (by decide)
      have htext : Scalar.isQuotedText x = true := by
        simp [Scalar.isQuotedText, isIn, isGap, isEnd, hsingle, hquote, hback, hspace, htab, hnull,
          hbreak]
      exact ⟨c.next, h.next hbreak, fuel + 1, Nat.le_succ _, quotedWord_text htext h⟩
  | short e =>
    have hmark : c.next.At (e.mark :: r) (i + 1) l := h.next (by decide)
    have hbreak : isBreak e.mark = false := by cases e <;> rfl
    exact ⟨c.next.next, hmark.next hbreak, fuel, Nat.le_refl _,
      quotedWord_escape h (escape_short e hmark)⟩
  | unit a b d e =>
    have hmark : c.next.At ('u' :: a.char :: b.char :: d.char :: e.char :: r) (i + 1) l :=
      h.next (by decide)
    obtain ⟨c₁, hescape, hat⟩ := escape_unit a b d e hmark
    exact ⟨c₁, hat, fuel, Nat.le_refl _, quotedWord_escape h hescape⟩

/-- What is left ends a word of a string. -/
def EndsWord (r : List Char) : Prop := ∃ x u, r = x :: u ∧ (x = '\x22' ∨ Yaml.isGap x = true)

theorem quotedWord_of_pieces {ps : List Piece} (hps : ∀ p ∈ ps, p.isGap = false) (hr : EndsWord r)
    (hfuel : ps.length < fuel) (h : c.At (ps.flatMap Piece.text ++ r) i l) :
    ∃ c', Scalar.quotedWord true fuel c = .ok (ps.map Piece.char, c') ∧
      c'.At r (i + (ps.flatMap Piece.text).length) l := by
  induction ps generalizing c i fuel with
  | nil =>
    obtain ⟨fuel, rfl⟩ := Nat.exists_eq_add_one_of_ne_zero (Nat.ne_zero_of_lt hfuel)
    obtain ⟨x, u, rfl, hx⟩ := hr
    exact ⟨c, quotedWord_end hx h, h⟩
  | cons p ps ih =>
    obtain ⟨hp, hps⟩ := List.forall_mem_cons.1 hps
    obtain ⟨fuel, rfl⟩ := Nat.exists_eq_add_one_of_ne_zero (Nat.ne_zero_of_lt hfuel)
    rw [List.flatMap_cons, List.append_assoc] at h
    obtain ⟨c₁, hat₁, fuel', hfuel', hpiece⟩ := quotedWord_piece fuel hp h
    have hmore : ps.length < fuel' := by
      rw [List.length_cons] at hfuel
      omega
    obtain ⟨c', hc', hat⟩ := ih hps hmore hat₁
    refine ⟨c', ?_, ?_⟩
    · rw [hpiece, hc']
      rfl
    · rw [List.flatMap_cons, List.length_append, ← Nat.add_assoc]
      exact hat

end Words

theorem exists_run {α : Type} (p : α → Bool) (xs : List α) : ∃ run rest, xs = run ++ rest ∧
    (∀ x ∈ run, p x = true) ∧ ∀ x ∈ rest.head?, p x = false := by
  refine ⟨xs.takeWhile p, xs.dropWhile p, List.takeWhile_append_dropWhile.symm,
    fun x hx => List.mem_takeWhile_imp hx, fun x hx => ?_⟩
  have hnot := List.head?_dropWhile_not p xs
  rw [hx] at hnot
  exact hnot

section Gaps

variable {c : Cursor} {p : Piece} {gap rest : List Piece} {r : List Char} {i l fuel : Nat}

theorem Piece.isGap_head (hp : p.isGap = true) : ∃ x, p.text = [x] ∧ Yaml.isGap x = true := by
  rcases Piece.isGap_iff.1 hp with hp | hp
  · exact ⟨' ', (Piece.of_isBlank hp).1, rfl⟩
  · obtain ⟨htext, hchar⟩ := Piece.of_endsLine hp
    refine ⟨p.char, htext, ?_⟩
    rcases hchar with hchar | hchar | hchar <;> rw [hchar] <;> rfl

theorem Piece.isBreak_of_endsLine (hp : p.endsLine = true) : isBreak p.char = true := by
  rcases (Piece.of_endsLine hp).2 with hchar | hchar | hchar <;> rw [hchar] <;> rfl

theorem Piece.not_space_of_endsLine (hp : p.endsLine = true) : isIn " \t" p.char = false := by
  rcases (Piece.of_endsLine hp).2 with hchar | hchar | hchar <;> rw [hchar] <;> decide

theorem length_text_of_gap (hgap : ∀ p ∈ gap, p.isGap = true) :
    (gap.flatMap Piece.text).length = gap.length := by
  induction gap with
  | nil => rfl
  | cons p gap ih =>
    obtain ⟨hp, hgap⟩ := List.forall_mem_cons.1 hgap
    obtain ⟨x, htext, -⟩ := Piece.isGap_head hp
    rw [List.flatMap_cons, List.length_append, ih hgap, htext, List.length_cons]
    exact Nat.add_comm _ _

/-- What stands behind a gap in a string, up to its end. -/
theorem head_of_pieces (hrest : ∀ p ∈ rest.head?, p.isGap = false) : ∃ x u,
    rest.flatMap Piece.text ++ '\x22' :: r = x :: u ∧ isIn " \t" x = false ∧ x ≠ '\x00' ∧
      isBreak x = false := by
  cases rest with
  | nil => exact ⟨'\x22', r, rfl, by decide, by decide, by decide⟩
  | cons p rest =>
    obtain ⟨x, t, htext, hspace, hnull, hbreak, -⟩ := Piece.exists_head (hrest p rfl)
    refine ⟨x, t ++ (rest.flatMap Piece.text ++ '\x22' :: r), ?_, hspace, hnull, hbreak⟩
    rw [List.flatMap_cons, htext]
    simp

theorem Piece.lineBreak_eq (hp : p.endsLine = true) (h : c.At (p.char :: r) i l) :
    c.lineBreak = ([p.lineEnd], c.next) ∧ c.next.At r (i + 1) (l + 1) := by
  obtain ⟨-, hchar⟩ := Piece.of_endsLine hp
  have hbreak := Piece.isBreak_of_endsLine hp
  have hpair : c.isAt "\r\n" = false := by
    rw [Cursor.isAt, h.rest]
    rcases hchar with hchar | hchar | hchar <;> rw [hchar] <;> rfl
  have hreturn : p.char ≠ '\r' := by
    rcases hchar with hchar | hchar | hchar <;> rw [hchar] <;> decide
  refine ⟨?_, h.nextLine hbreak hreturn⟩
  unfold Cursor.lineBreak Piece.lineEnd
  rw [hpair, h.peek]
  rcases hchar with hchar | hchar | hchar <;> rw [hchar] <;> rfl

/-- What is left of a gap where a line begins and no marker does. -/
def gapTail (fuel : Nat) (c : Cursor) : Yaml.Result (List Char × Cursor) :=
  let c := (c.span (isIn " \t")).2
  if isBreak c.peek then do
    let (b, c) := c.lineBreak
    let (bs, c) ← Scalar.emptyLines (isIn " \t") fuel c
    return (b ++ bs, c)
  else .ok ([], c)

theorem emptyLines_eq (fuel : Nat) (c : Cursor) : Scalar.emptyLines (isIn " \t") (fuel + 1) c =
    if beginsMarker c.rest then .error .malformed else gapTail fuel c := rfl

theorem span_space (h : c.At (' ' :: r) i l) :
    (c.span (isIn " \t")).2 = (c.next.span (isIn " \t")).2 := by
  have hnext : c.next.rest = r := (h.next (by decide)).rest
  unfold Cursor.span
  rw [h.rest, hnext]
  rfl

theorem span_none {x : Char} (hx : isIn " \t" x = false) (h : c.At (x :: r) i l) :
    c.span (isIn " \t") = ([], c) := by
  unfold Cursor.span
  rw [h.rest, List.takeWhile_cons_of_neg (by rw [hx]; exact Bool.false_ne_true)]
  rfl

/-- A part of a string in front of `rest` is read as `out`, or a marker stands in it. -/
def Folds (x : Yaml.Result (List Char × Cursor)) (out : List Char) (ps rest : List Piece)
    (r : List Char) (i l : Nat) : Prop :=
  (isMarked ps = isMarked rest ∧ ∃ c', x = .ok (out, c') ∧
    c'.At (rest.flatMap Piece.text ++ '\x22' :: r) i l) ∨
  (isMarked ps = true ∧ x = .error .malformed)

theorem Folds.map {x : Yaml.Result (List Char × Cursor)} {ps : List Piece} {out : List Char}
    (f : List Char → List Char) (h : Folds x out ps rest r i l) :
    Folds (x.map fun q => (f q.1, q.2)) (f out) ps rest r i l := by
  rcases h with ⟨hmarked, c', rfl, hat⟩ | ⟨hmarked, rfl⟩
  · exact .inl ⟨hmarked, c', rfl, hat⟩
  · exact .inr ⟨hmarked, rfl⟩

theorem Folds.emptyLines {ps : List Piece} {out : List Char} (hp : p.endsLine = true)
    (hrest : c.rest = ps.flatMap Piece.text ++ '\x22' :: r)
    (h : Folds (gapTail fuel c) out ps rest r i l) :
    Folds (Scalar.emptyLines (isIn " \t") (fuel + 1) c) out (p :: ps) rest r i l := by
  rw [emptyLines_eq, hrest, beginsMarker_append]
  have hmarked : isMarked (p :: ps) =
      (beginsMarker (ps.flatMap Piece.text ++ ['\x22']) || isMarked ps) := by
    rw [isMarked, hp, Bool.true_and]
  unfold Folds
  rw [hmarked]
  by_cases hmarker : beginsMarker (ps.flatMap Piece.text ++ ['\x22']) = true
  · rw [if_pos hmarker, hmarker]
    exact .inr ⟨rfl, rfl⟩
  · rw [if_neg hmarker, Bool.eq_false_iff.2 hmarker, Bool.false_or]
    exact h

theorem gapTail_folds (hgap : ∀ p ∈ gap, p.isGap = true)
    (hrest : ∀ p ∈ rest.head?, p.isGap = false) (hfuel : gap.length ≤ fuel)
    (h : c.At ((gap ++ rest).flatMap Piece.text ++ '\x22' :: r) i l) :
    Folds (gapTail fuel c) ((gap.filter Piece.endsLine).map Piece.lineEnd) (gap ++ rest) rest r
      (i + gap.length) (l + gap.countP Piece.endsLine) := by
  induction gap generalizing c i l fuel with
  | nil =>
    obtain ⟨x, u, hxu, hspace, -, hbreak⟩ := head_of_pieces (r := r) hrest
    refine .inl ⟨rfl, c, ?_, h⟩
    rw [List.nil_append, hxu] at h
    unfold gapTail
    rw [span_none hspace h]
    dsimp only
    rw [h.peek, hbreak]
    rfl
  | cons p gap ih =>
    obtain ⟨hp, hgap⟩ := List.forall_mem_cons.1 hgap
    rw [List.cons_append, List.flatMap_cons, List.append_assoc] at h
    rcases Piece.isGap_iff.1 hp with hblank | hline
    · have hnot := Piece.not_endsLine_of_isBlank hblank
      rw [(Piece.of_isBlank hblank).1] at h
      have hsame : gapTail fuel c = gapTail fuel c.next := by
        unfold gapTail
        rw [span_space h]
      have hlater := ih hgap (Nat.le_of_succ_le hfuel) (h.next (by decide))
      rw [hsame, List.filter_cons_of_neg (by rw [hnot]; exact Bool.false_ne_true),
        List.countP_cons_of_neg (by rw [hnot]; exact Bool.false_ne_true), List.length_cons,
        Nat.add_comm gap.length, ← Nat.add_assoc]
      unfold Folds
      rw [List.cons_append, isMarked, hnot, Bool.false_and, Bool.false_or]
      exact hlater
    · obtain ⟨fuel, rfl⟩ := Nat.exists_eq_add_one_of_ne_zero
        (Nat.ne_zero_of_lt (Nat.lt_of_lt_of_le (Nat.succ_pos _) hfuel))
      rw [(Piece.of_endsLine hline).1] at h
      obtain ⟨hbreak, hat⟩ := Piece.lineBreak_eq hline h
      have hlater := (ih hgap (Nat.le_of_succ_le_succ hfuel) hat).emptyLines hline hat.rest
      have hstep : gapTail (fuel + 1) c =
          (Scalar.emptyLines (isIn " \t") (fuel + 1) c.next).map
            fun q => (p.lineEnd :: q.1, q.2) := by
        unfold gapTail
        rw [span_none (Piece.not_space_of_endsLine hline) h]
        dsimp only
        rw [h.peek, Piece.isBreak_of_endsLine hline, if_pos rfl, hbreak]
        cases Scalar.emptyLines (isIn " \t") (fuel + 1) c.next <;> rfl
      rw [hstep, List.filter_cons_of_pos hline, List.countP_cons_of_pos hline, List.map_cons,
        List.length_cons, List.cons_append, Nat.add_comm gap.length, Nat.add_comm (gap.countP _),
        ← Nat.add_assoc, ← Nat.add_assoc]
      exact hlater.map (p.lineEnd :: ·)

theorem span_blank {spaces : List Piece} (hspaces : ∀ p ∈ spaces, p.isBlank = true)
    (hr : Stops (isIn " \t") r) (h : c.At (spaces.flatMap Piece.text ++ r) i l) :
    ∃ c', c.span (isIn " \t") = (spaces.map Piece.char, c') ∧ c'.At r (i + spaces.length) l := by
  obtain ⟨htext, hchars⟩ := text_of_blank hspaces
  have hgap : ∀ y ∈ spaces.map Piece.char, isIn " \t" y = true := by
    intro y hy
    rw [hchars y hy]
    decide
  have hflat : ∀ y ∈ spaces.map Piece.char, isBreak y = false := by
    intro y hy
    rw [hchars y hy]
    decide
  rw [htext] at h
  obtain ⟨c', hspan, hat⟩ := h.span hgap hflat hr
  rw [List.length_map] at hat
  exact ⟨c', hspan, hat⟩

theorem quotedGap_of_blank (hgap : ∀ p ∈ gap, p.isBlank = true)
    (hrest : ∀ p ∈ rest.head?, p.isGap = false)
    (h : c.At (gap.flatMap Piece.text ++ (rest.flatMap Piece.text ++ '\x22' :: r)) i l) :
    ∃ c', Scalar.quotedGap c = .ok (gap.map Piece.char, c') ∧
      c'.At (rest.flatMap Piece.text ++ '\x22' :: r) (i + gap.length) l := by
  obtain ⟨x, u, hxu, hspace, hnull, hbreak⟩ := head_of_pieces (r := r) hrest
  rw [hxu] at h ⊢
  have hstops : Stops (isIn " \t") (x :: u) := by
    rintro y ⟨⟩
    exact hspace
  obtain ⟨c', hspan, hat⟩ := span_blank hgap hstops h
  refine ⟨c', ?_, hat⟩
  unfold Scalar.quotedGap
  rw [hspan]
  dsimp only
  rw [hat.peek, hbreak, if_neg (by simpa using hnull)]
  rfl

theorem quotedGap_of_line {spaces : List Piece} (hspaces : ∀ p ∈ spaces, p.isBlank = true)
    (hp : p.endsLine = true)
    (h : c.At (spaces.flatMap Piece.text ++ p.char :: r) i l) :
    ∃ c', c'.At r (i + spaces.length + 1) (l + 1) ∧ Scalar.quotedGap c =
      (Scalar.emptyLines (isIn " \t") (Scalar.fuelOf c') c').map
        fun q => (Scalar.folded [p.lineEnd] q.1, q.2) := by
  have hstops : Stops (isIn " \t") (p.char :: r) := by
    rintro y ⟨⟩
    exact Piece.not_space_of_endsLine hp
  have hnull : p.char ≠ '\x00' := by
    rcases (Piece.of_endsLine hp).2 with hchar | hchar | hchar <;> rw [hchar] <;> decide
  obtain ⟨c₁, hspan, hat₁⟩ := span_blank hspaces hstops h
  obtain ⟨hbreak, hat⟩ := Piece.lineBreak_eq hp hat₁
  refine ⟨c₁.next, hat, ?_⟩
  unfold Scalar.quotedGap
  rw [hspan]
  dsimp only
  rw [hat₁.peek, if_neg (by simpa using hnull), if_pos (Piece.isBreak_of_endsLine hp), hbreak]
  cases Scalar.emptyLines (isIn " \t") (Scalar.fuelOf c₁.next) c₁.next <;> rfl

theorem quotedGap_folds (hgap : ∀ p ∈ gap, p.isGap = true)
    (hrest : ∀ p ∈ rest.head?, p.isGap = false)
    (h : c.At ((gap ++ rest).flatMap Piece.text ++ '\x22' :: r) i l) :
    Folds (Scalar.quotedGap c) (readGap gap) (gap ++ rest) rest r
      (i + gap.length) (l + gap.countP Piece.endsLine) := by
  -- spaces, and then the first line break if there is one
  obtain ⟨spaces, more, rfl, hspaces, hmore⟩ := exists_run Piece.isBlank gap
  have hlines : ∀ p ∈ spaces, p.endsLine = false := fun p hp =>
    Piece.not_endsLine_of_isBlank (hspaces p hp)
  have hnone : spaces.filter Piece.endsLine = [] :=
    List.filter_eq_nil_iff.2 fun p hp => by rw [hlines p hp]; exact Bool.false_ne_true
  have hcount : spaces.countP Piece.endsLine = 0 := by
    rw [List.countP_eq_length_filter, hnone]
    rfl
  unfold Folds
  rw [List.append_assoc, isMarked_append hlines]
  rw [List.append_assoc, List.flatMap_append, List.append_assoc] at h
  cases more with
  | nil =>
    obtain ⟨c', hc', hat⟩ := quotedGap_of_blank hspaces hrest h
    rw [List.append_nil, readGap_of_blank hlines, hcount]
    exact .inl ⟨rfl, c', hc', hat⟩
  | cons p more =>
    obtain ⟨-, hgap⟩ := List.forall_mem_append.1 hgap
    obtain ⟨hp, hgap⟩ := List.forall_mem_cons.1 hgap
    have hline : p.endsLine = true := by
      have hnot := hmore p rfl
      rwa [Piece.isGap, hnot, Bool.false_or] at hp
    rw [List.cons_append, List.flatMap_cons, (Piece.of_endsLine hline).1, List.append_assoc,
      List.singleton_append] at h
    obtain ⟨c', hat, heq⟩ := quotedGap_of_line hspaces hline h
    have hfuel : more.length ≤ c'.rest.length := by
      have := length_le_text more
      rw [hat.rest, List.flatMap_append, List.length_append, List.length_append]
      omega
    have hfolds := (gapTail_folds hgap hrest hfuel hat).emptyLines hline hat.rest
    have hread : readGap (spaces ++ p :: more) =
        Scalar.folded [p.lineEnd] ((more.filter Piece.endsLine).map Piece.lineEnd) := by
      rw [readGap, List.filter_append, hnone, List.nil_append, List.filter_cons_of_pos hline]
      rfl
    rw [heq, hread, List.countP_append, hcount, List.countP_cons_of_pos hline, List.length_append,
      List.length_cons]
    have hindex : i + spaces.length + 1 + more.length = i + (spaces.length + (more.length + 1)) := by
      omega
    have hlast : l + 1 + more.countP Piece.endsLine =
        l + (0 + (more.countP Piece.endsLine + 1)) := by
      omega
    rw [hindex, hlast] at hfolds
    exact hfolds.map (Scalar.folded [p.lineEnd])

end Gaps

section Strings

variable {c : Cursor} {ps tail : List Piece} {r : List Char} {i l fuel : Nat}

theorem endsWord_of_pieces (htail : ∀ p ∈ tail.head?, p.isGap = true) (r : List Char) :
    EndsWord (tail.flatMap Piece.text ++ '\x22' :: r) := by
  cases tail with
  | nil => exact ⟨_, r, rfl, .inl rfl⟩
  | cons p tail =>
    obtain ⟨x, htext, hx⟩ := Piece.isGap_head (htail p rfl)
    refine ⟨x, tail.flatMap Piece.text ++ '\x22' :: r, ?_, .inr hx⟩
    rw [List.flatMap_cons, htext]
    rfl

theorem countP_of_word {word : List Piece} (hword : ∀ p ∈ word, p.isGap = false) :
    (∀ p ∈ word, p.endsLine = false) ∧ word.countP Piece.endsLine = 0 := by
  have hlines : ∀ p ∈ word, p.endsLine = false := fun p hp => (Bool.or_eq_false_iff.1 (hword p hp)).2
  refine ⟨hlines, List.countP_eq_zero.2 fun p hp => ?_⟩
  rw [hlines p hp]
  exact Bool.false_ne_true

theorem quotedRest_round (fuel : Nat) {gap word : List Piece} (hne : gap ≠ [])
    (hgap : ∀ p ∈ gap, p.isGap = true) (hrest : ∀ p ∈ (word ++ tail).head?, p.isGap = false)
    (hword : ∀ p ∈ word, p.isGap = false) (htail : ∀ p ∈ tail.head?, p.isGap = true)
    (h : c.At ((gap ++ (word ++ tail)).flatMap Piece.text ++ '\x22' :: r) i l) :
    (isMarked (gap ++ (word ++ tail)) = true ∧
      Scalar.quotedRest true '\x22' (fuel + 1) c = .error .malformed) ∨
    (isMarked (gap ++ (word ++ tail)) = isMarked tail ∧ ∃ c',
      c'.At (tail.flatMap Piece.text ++ '\x22' :: r)
        (i + (gap.flatMap Piece.text).length + (word.flatMap Piece.text).length)
        (l + gap.countP Piece.endsLine) ∧
      Scalar.quotedRest true '\x22' (fuel + 1) c = (Scalar.quotedRest true '\x22' fuel c').map
        fun q => (readGap gap ++ word.map Piece.char ++ q.1, q.2)) := by
  have hquote : (c.peek == '\x22') = false := by
    obtain ⟨p, more, rfl⟩ := List.exists_cons_of_ne_nil hne
    obtain ⟨x, htext, hx⟩ := Piece.isGap_head (hgap p (.head _))
    rw [List.cons_append, List.flatMap_cons, htext] at h
    rw [h.peek_eq, beq_eq_false_iff_ne]
    rintro rfl
    revert hx
    decide
  rw [length_text_of_gap hgap]
  rcases quotedGap_folds hgap hrest h with ⟨hmarked, c₁, hread, hat₁⟩ | ⟨hmarked, hfault⟩
  · rw [isMarked_append (countP_of_word hword).1] at hmarked
    rw [List.flatMap_append, List.append_assoc] at hat₁
    have hfuel : word.length < Scalar.fuelOf c₁ := by
      have := length_le_text word
      rw [Scalar.fuelOf, hat₁.rest, List.length_append]
      omega
    obtain ⟨c₂, hc₂, hat₂⟩ := quotedWord_of_pieces hword (endsWord_of_pieces htail r) hfuel hat₁
    refine .inr ⟨hmarked, c₂, hat₂, ?_⟩
    rw [Scalar.quotedRest, hquote, hread]
    change (do
      let (word, c) ← Scalar.quotedWord true (Scalar.fuelOf c₁) c₁
      let (more, c) ← Scalar.quotedRest true '\x22' fuel c
      return (readGap gap ++ word ++ more, c)) = _
    rw [hc₂]
    change (do
      let (more, c) ← Scalar.quotedRest true '\x22' fuel c₂
      return (readGap gap ++ word.map Piece.char ++ more, c)) = _
    cases Scalar.quotedRest true '\x22' fuel c₂ <;> rfl
  · refine .inl ⟨hmarked, ?_⟩
    rw [Scalar.quotedRest, hquote, hfault]
    rfl

theorem readChars_round {gap word : List Piece} (hgap : ∀ p ∈ gap, p.isGap = true)
    (hrest : ∀ p ∈ (word ++ tail).head?, p.isGap = false) (hword : ∀ p ∈ word, p.isGap = false) :
    readChars (gap ++ (word ++ tail)) = readGap gap ++ word.map Piece.char ++ readChars tail := by
  rw [readChars_gap hgap hrest, readChars_word hword, List.append_assoc]

theorem quotedRest_of_pieces (hps : ∀ p ∈ ps.head?, p.isGap = true) (hfuel : ps.length < fuel)
    (h : c.At (ps.flatMap Piece.text ++ '\x22' :: r) i l) :
    (isMarked ps = true ∧ Scalar.quotedRest true '\x22' fuel c = .error .malformed) ∨
    (isMarked ps = false ∧ ∃ c',
      Scalar.quotedRest true '\x22' fuel c = .ok (readChars ps, c') ∧
      c'.At r (i + (ps.flatMap Piece.text).length + 1) (l + ps.countP Piece.endsLine)) := by
  induction fuel generalizing ps c i l with
  | zero => exact absurd hfuel (Nat.not_lt_zero _)
  | succ fuel ih =>
    cases ps with
    | nil =>
      refine .inr ⟨rfl, c.next, ?_, h.next (by decide)⟩
      rw [Scalar.quotedRest, h.peek]
      rfl
    | cons p ps =>
      -- one round is cut off in front; what is left begins with a gap again or is nothing
      obtain ⟨gap, rest, hsplit, hgap, hrest⟩ := exists_run Piece.isGap (p :: ps)
      obtain ⟨word, tail, rfl, hword, htail⟩ := exists_run (fun q => !q.isGap) rest
      have hword : ∀ q ∈ word, q.isGap = false := fun q hq => by simpa using hword q hq
      have htail : ∀ q ∈ tail.head?, q.isGap = true := fun q hq => by simpa using htail q hq
      have hne : gap ≠ [] := by
        rintro rfl
        have hnot := hrest p (by rw [List.nil_append] at hsplit; rw [← hsplit]; rfl)
        rw [hps p rfl] at hnot
        cases hnot
      rw [hsplit] at h hfuel ⊢
      have hpositive := List.length_pos_iff.2 hne
      simp only [List.length_append] at hfuel
      rcases quotedRest_round fuel hne hgap hrest hword htail h with
        hfault | ⟨hmarked, c₁, hat₁, hround⟩
      · exact .inl hfault
      · rw [hmarked, hround]
        rcases ih htail (by omega) hat₁ with ⟨hmarked', hfault⟩ | ⟨hmarked', c', hc', hat⟩
        · exact .inl ⟨hmarked', by rw [hfault]; rfl⟩
        · refine .inr ⟨hmarked', c', ?_, ?_⟩
          · rw [hc', readChars_round hgap hrest hword]
            rfl
          · rw [List.flatMap_append, List.flatMap_append, List.length_append, List.length_append,
              ← Nat.add_assoc, ← Nat.add_assoc, List.countP_append, List.countP_append,
              (countP_of_word hword).2, Nat.zero_add, ← Nat.add_assoc]
            exact hat

theorem quoted_of_string (h : c.At (stringText ps ++ r) i l) :
    (isMarked ps = true ∧ Scalar.quoted c = .error .malformed) ∨
    (isMarked ps = false ∧ ∃ c', Scalar.quoted c = .ok (readChars ps, c') ∧
      c'.At r (i + (stringText ps).length) (l + ps.countP Piece.endsLine)) := by
  -- a first word, and then rounds of a gap with a word behind it
  obtain ⟨word, tail, rfl, hword, htail⟩ := exists_run (fun q => !q.isGap) ps
  have hword : ∀ q ∈ word, q.isGap = false := fun q hq => by simpa using hword q hq
  have htail : ∀ q ∈ tail.head?, q.isGap = true := fun q hq => by simpa using htail q hq
  have htext : stringText (word ++ tail) ++ r = '\x22' :: (word.flatMap Piece.text ++
      (tail.flatMap Piece.text ++ '\x22' :: r)) := by
    simp [stringText]
  rw [htext] at h
  have hat₁ := h.next (by decide)
  have hfuel₁ : word.length < Scalar.fuelOf c := by
    have := length_le_text word
    rw [Scalar.fuelOf, h.rest, List.length_cons, List.length_append]
    omega
  obtain ⟨c₂, hc₂, hat₂⟩ :=
    quotedWord_of_pieces hword (endsWord_of_pieces htail r) hfuel₁ hat₁
  have hfuel₂ : tail.length < Scalar.fuelOf c₂ := by
    have := length_le_text tail
    rw [Scalar.fuelOf, hat₂.rest, List.length_append]
    omega
  have hquoted : Scalar.quoted c = (Scalar.quotedRest true '\x22' (Scalar.fuelOf c₂) c₂).map
      fun q => (word.map Piece.char ++ q.1, q.2) := by
    unfold Scalar.quoted
    rw [h.peek]
    change (do
      let (word, c) ← Scalar.quotedWord true (Scalar.fuelOf c) c.next
      let (more, c) ← Scalar.quotedRest true '\x22' (Scalar.fuelOf c) c
      return (word ++ more, c)) = _
    rw [hc₂]
    change (do
      let (more, c) ← Scalar.quotedRest true '\x22' (Scalar.fuelOf c₂) c₂
      return (word.map Piece.char ++ more, c)) = _
    cases Scalar.quotedRest true '\x22' (Scalar.fuelOf c₂) c₂ <;> rfl
  obtain ⟨hlines, hcount⟩ := countP_of_word hword
  rw [isMarked_append hlines, hquoted]
  rcases quotedRest_of_pieces htail hfuel₂ hat₂ with ⟨hmarked, hfault⟩ | ⟨hmarked, c₃, hc₃, hat₃⟩
  · exact .inl ⟨hmarked, by rw [hfault]; rfl⟩
  · refine .inr ⟨hmarked, c₃, ?_, ?_⟩
    · rw [hc₃, readChars_word hword]
      rfl
    · have hlength : (stringText (word ++ tail)).length =
          1 + (word.flatMap Piece.text).length + (tail.flatMap Piece.text).length + 1 := by
        simp [stringText]
        omega
      rw [hlength, ← Nat.add_assoc, ← Nat.add_assoc, ← Nat.add_assoc, List.countP_append, hcount,
        Nat.zero_add]
      exact hat₃

end Strings

end NoteDecor.Json
