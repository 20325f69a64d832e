import Mathlib.Data.List.Chain
import NoteDecor.Proofs.Json.Syntax
import NoteDecor.Yaml.Scalar

/-! Strings over several lines. A next line, a line separator or a paragraph separator stands for
itself in a JSON string but ends a line of a document: the spaces around it are dropped, and a next
line becomes a space or a line feed. Behind it the text may not go on with a marker between
documents. -/

namespace NoteDecor.Json
open Yaml

theorem isPlain_ne {x y : Char} (hx : isPlain x = true) (hy : isPlain y = false) : x ≠ y := by
  rintro rfl
  rw [hx] at hy
  cases hy

namespace Piece

def isBlank : Piece → Bool
  | plain c _ => c == ' '
  | _ => false

def endsLine : Piece → Bool
  | plain c _ => isBreak c
  | _ => false

def isGap (p : Piece) : Bool := p.isBlank || p.endsLine

/-- What is left of a character that ends a line: a line feed in place of a next line. -/
def lineEnd (p : Piece) : Char := if p.char = '\u0085' then '\n' else p.char

variable {p : Piece}

theorem of_isBlank (h : p.isBlank = true) : p.text = [' '] ∧ p.char = ' ' := by
  cases p with
  | plain c hc =>
    obtain rfl : c = ' ' := eq_of_beq h
    exact ⟨rfl, rfl⟩
  | short e => cases h
  | unit a b c d => cases h

theorem of_endsLine (h : p.endsLine = true) : p.text = [p.char] ∧
    (p.char = '\u0085' ∨ p.char = '\u2028' ∨ p.char = '\u2029') := by
  cases p with
  | plain c hc =>
    refine ⟨rfl, ?_⟩
    have hfeed : c ≠ '\n' := isPlain_ne hc (by decide)
    have hreturn : c ≠ '\r' := isPlain_ne hc (by decide)
    simpa [endsLine, Yaml.isBreak, hfeed, hreturn, or_assoc, char] using h
  | short e => cases h
  | unit a b c d => cases h

theorem not_endsLine_of_isBlank (h : p.isBlank = true) : p.endsLine = false := by
  cases p with
  | plain c hc =>
    obtain rfl : c = ' ' := eq_of_beq h
    rfl
  | short e => cases h
  | unit a b c d => cases h

theorem isGap_iff : p.isGap = true ↔ p.isBlank = true ∨ p.endsLine = true := Bool.or_eq_true_iff

theorem half?_of_isGap (h : p.isGap = true) : Text.half? p.char = none := by
  rcases isGap_iff.1 h with h | h
  · rw [(of_isBlank h).2]
    decide
  · rcases (of_endsLine h).2 with h | h | h <;> rw [h] <;> decide

end Piece

/-- What is read of the spaces and line breaks between two other pieces. -/
def readGap (gap : List Piece) : List Char :=
  match (gap.filter Piece.endsLine).map Piece.lineEnd with
  | [] => gap.map Piece.char
  | b :: bs => Yaml.Scalar.folded [b] bs

def readAfter (gap : List Piece) : List Piece → List Char
  | [] => readGap gap
  | p :: ps =>
    if p.isGap then readAfter (gap ++ [p]) ps else readGap gap ++ p.char :: readAfter [] ps

def readChars (ps : List Piece) : List Char := readAfter [] ps

def beginsMarker (s : List Char) : Bool :=
  ("---".toList.isPrefixOf s || "...".toList.isPrefixOf s) && isGap ((s.drop 3).headD '\x00')

/-- A line in the string begins like a marker between documents. -/
def isMarked : List Piece → Bool
  | [] => false
  | p :: ps => (p.endsLine && beginsMarker (ps.flatMap Piece.text ++ ['\x22'])) || isMarked ps

/-- No next line stands for itself, and no space beside a character that ends a line. -/
structure IsUnfolded (ps : List Piece) : Prop where
  lines : ∀ p ∈ ps, p.endsLine = true → p.char ≠ '\u0085'
  spaces : ps.IsChain fun p q => p.isGap = true → q.isGap = true → p.endsLine = q.endsLine

theorem beginsMarker_append (s r : List Char) :
    beginsMarker (s ++ '\x22' :: r) = beginsMarker (s ++ ['\x22']) := by
  rcases s with _ | ⟨a, _ | ⟨b, _ | ⟨c, _ | ⟨d, s⟩⟩⟩⟩ <;> simp [beginsMarker, List.isPrefixOf]

theorem isMarked_append {g ps : List Piece} (hg : ∀ p ∈ g, p.endsLine = false) :
    isMarked (g ++ ps) = isMarked ps := by
  induction g with
  | nil => rfl
  | cons p g ih =>
    obtain ⟨hp, hg⟩ := List.forall_mem_cons.1 hg
    rw [List.cons_append, isMarked, hp, Bool.false_and, Bool.false_or, ih hg]

section Reading

variable {gap more ps : List Piece}

theorem readAfter_gap (hmore : ∀ p ∈ more, p.isGap = true) :
    readAfter gap (more ++ ps) = readAfter (gap ++ more) ps := by
  induction more generalizing gap with
  | nil => rw [List.nil_append, List.append_nil]
  | cons p more ih =>
    obtain ⟨hp, hmore⟩ := List.forall_mem_cons.1 hmore
    rw [List.cons_append, readAfter, if_pos hp, ih hmore, List.append_assoc]
    rfl

theorem readChars_word {word : List Piece} (hword : ∀ p ∈ word, p.isGap = false) :
    readChars (word ++ ps) = word.map Piece.char ++ readChars ps := by
  induction word with
  | nil => rfl
  | cons p word ih =>
    obtain ⟨hp, hword⟩ := List.forall_mem_cons.1 hword
    have hnot : ¬ p.isGap = true := by rw [hp]; exact Bool.false_ne_true
    rw [List.cons_append, readChars, readAfter, if_neg hnot]
    exact congrArg (p.char :: ·) (ih hword)

theorem readChars_gap (hgap : ∀ p ∈ gap, p.isGap = true) (hps : ∀ p ∈ ps.head?, p.isGap = false) :
    readChars (gap ++ ps) = readGap gap ++ readChars ps := by
  rw [readChars, readAfter_gap hgap, List.nil_append]
  cases ps with
  | nil => exact (List.append_nil _).symm
  | cons p ps =>
    have hnot : ¬ p.isGap = true := by rw [hps p rfl]; exact Bool.false_ne_true
    rw [readChars, readAfter, readAfter, if_neg hnot, if_neg hnot]
    rfl

theorem readGap_of_blank (hgap : ∀ p ∈ gap, p.endsLine = false) :
    readGap gap = gap.map Piece.char := by
  have hnone : gap.filter Piece.endsLine = [] :=
    List.filter_eq_nil_iff.2 fun p hp => by rw [hgap p hp]; exact Bool.false_ne_true
  rw [readGap, hnone]
  rfl

theorem length_folded_le (b : Char) (bs : List Char) :
    (Yaml.Scalar.folded [b] bs).length ≤ bs.length + 1 := by
  unfold Yaml.Scalar.folded
  split
  · exact Nat.le_of_eq rfl
  · split
    · exact Nat.succ_le_succ (Nat.zero_le _)
    · exact Nat.le_succ _

theorem length_readGap_le (gap : List Piece) : (readGap gap).length ≤ gap.length := by
  have hfilter := List.length_filter_le Piece.endsLine gap
  unfold readGap
  cases hbreaks : gap.filter Piece.endsLine with
  | nil => exact Nat.le_of_eq (List.length_map _)
  | cons b bs =>
    rw [hbreaks, List.length_cons] at hfilter
    refine Nat.le_trans (length_folded_le _ _) ?_
    rwa [List.length_map]

theorem length_readAfter_le (gap ps : List Piece) :
    (readAfter gap ps).length ≤ gap.length + ps.length := by
  induction ps generalizing gap with
  | nil => exact length_readGap_le gap
  | cons p ps ih =>
    rw [readAfter]
    split
    · have := ih (gap ++ [p])
      rw [List.length_append, List.length_singleton] at this
      rw [List.length_cons]
      omega
    · have hgap := length_readGap_le gap
      have hrest := ih []
      simp only [List.length_append, List.length_cons, List.length_nil] at hrest ⊢
      omega

theorem lineEnd_ne (p : Piece) : p.lineEnd ≠ '\u0085' := by
  unfold Piece.lineEnd
  split
  · decide
  · assumption

theorem mem_folded {b c : Char} {bs : List Char} (h : c ∈ Yaml.Scalar.folded [b] bs) :
    c = ' ' ∨ c ∈ b :: bs := by
  unfold Yaml.Scalar.folded at h
  split at h
  · exact .inr h
  · split at h
    · exact .inl (List.mem_singleton.1 h)
    · exact .inr (.tail _ h)

theorem not_mem_readGap {b : Piece} (hb : b ∈ gap) (hline : b.endsLine = true) :
    '\u0085' ∉ readGap gap := by
  intro hmem
  unfold readGap at hmem
  cases hbreaks : gap.filter Piece.endsLine with
  | nil => exact List.filter_eq_nil_iff.1 hbreaks b hb hline
  | cons first more =>
    rw [hbreaks] at hmem
    rcases mem_folded hmem with hspace | hmem
    · cases hspace
    · rw [← List.map_cons] at hmem
      obtain ⟨p, -, hp⟩ := List.mem_map.1 hmem
      exact lineEnd_ne p hp

theorem endsLine_eq {p : Piece} (hgap : ∀ q ∈ p :: gap, q.isGap = true)
    (hspaces : (p :: gap).IsChain fun p q => p.isGap = true → q.isGap = true →
      p.endsLine = q.endsLine) : ∀ q ∈ gap, q.endsLine = p.endsLine := by
  induction gap generalizing p with
  | nil => exact List.forall_mem_nil _
  | cons q gap ih =>
    obtain ⟨hp, hrest⟩ := List.forall_mem_cons.1 hgap
    obtain ⟨hsame, hlater⟩ := List.isChain_cons_cons.1 hspaces
    have hq : q.endsLine = p.endsLine := (hsame hp (hrest q (.head _))).symm
    exact List.forall_mem_cons.2 ⟨hq, fun x hx => (ih hrest hlater x hx).trans hq⟩

theorem isUnfolded_of_endsLine (h : ∀ p ∈ gap, p.endsLine = true)
    (hlines : ∀ p ∈ gap, p.char ≠ '\u0085') : IsUnfolded gap := by
  refine ⟨fun p hp _ => hlines p hp, (List.pairwise_of_forall_mem_list fun p hp q hq => ?_).isChain⟩
  intro _ _
  rw [h p hp, h q hq]

theorem lineEnd_of_ne {p : Piece} (h : p.char ≠ '\u0085') : p.lineEnd = p.char := if_neg h

theorem readGap_eq_map_iff (hgap : ∀ p ∈ gap, p.isGap = true) :
    readGap gap = gap.map Piece.char ↔ IsUnfolded gap := by
  cases hbreaks : gap.filter Piece.endsLine with
  | nil =>
    have hblank : ∀ p ∈ gap, p.endsLine = false := fun p hp =>
      Bool.eq_false_iff.2 (List.filter_eq_nil_iff.1 hbreaks p hp)
    refine iff_of_true (readGap_of_blank hblank) ⟨fun p hp hline => ?_, ?_⟩
    · rw [hblank p hp] at hline
      cases hline
    · refine (List.pairwise_of_forall_mem_list fun p hp q hq => ?_).isChain
      intro _ _
      rw [hblank p hp, hblank q hq]
  | cons b bs =>
    obtain ⟨hb, hline⟩ := List.mem_filter.1 (hbreaks ▸ List.mem_cons_self : b ∈ gap.filter _)
    have hread : readGap gap = Yaml.Scalar.folded [b.lineEnd] (bs.map Piece.lineEnd) := by
      rw [readGap, hbreaks]
      rfl
    constructor
    · intro heq
      have hlines : ∀ p ∈ gap, p.char ≠ '\u0085' := by
        intro p hp hchar
        refine not_mem_readGap hb hline ?_
        rw [heq, ← hchar]
        exact List.mem_map_of_mem hp
      refine isUnfolded_of_endsLine ?_ hlines
      have hlength := congrArg List.length heq
      have hle := length_folded_le b.lineEnd (bs.map Piece.lineEnd)
      rw [← hread, hlength, List.length_map, List.length_map, ← List.length_cons (a := b),
        ← hbreaks] at hle
      exact List.length_filter_eq_length_iff.1 (Nat.le_antisymm (List.length_filter_le _ _) hle)
    · rintro ⟨hlines, hspaces⟩
      have hall : ∀ p ∈ gap, p.endsLine = true := by
        obtain ⟨first, more, rfl⟩ := List.exists_cons_of_ne_nil (List.ne_nil_of_mem hb)
        have hsame := endsLine_eq hgap hspaces
        have hfirst : first.endsLine = true := by
          rcases List.mem_cons.1 hb with rfl | hb
          · exact hline
          · rw [← hsame b hb, hline]
        exact List.forall_mem_cons.2 ⟨hfirst, fun p hp => (hsame p hp).trans hfirst⟩
      have hself : b :: bs = gap := hbreaks.symm.trans (List.filter_eq_self.2 hall)
      have hchars : ∀ p ∈ b :: bs, p.lineEnd = p.char := by
        rw [hself]
        exact fun p hp => lineEnd_of_ne (hlines p hp (hall p hp))
      have hfeed : [b.char] ≠ ['\n'] := by
        intro heq
        rcases (Piece.of_endsLine hline).2 with h | h | h <;> rw [h] at heq <;> cases heq
      rw [hread, hchars b (.head _), List.map_congr_left fun p hp => hchars p (.tail _ hp),
        Yaml.Scalar.folded, if_pos (bne_iff_ne.2 hfeed), ← hself]
      rfl

theorem isUnfolded_append_cons {p : Piece} (hp : p.isGap = false) :
    IsUnfolded (gap ++ p :: ps) ↔ IsUnfolded gap ∧ IsUnfolded ps := by
  have hline : p.endsLine = false := (Bool.or_eq_false_iff.1 hp).2
  have hfar (q : Piece) : p.isGap = true → q.isGap = true → p.endsLine = q.endsLine := by
    rw [hp]
    exact fun h => by cases h
  constructor
  · rintro ⟨hlines, hspaces⟩
    obtain ⟨hfirst, hrest, -⟩ := List.isChain_append.1 hspaces
    exact ⟨⟨fun q hq => hlines q (List.mem_append_left _ hq), hfirst⟩,
      fun q hq => hlines q (List.mem_append_right _ (.tail _ hq)), (List.isChain_cons.1 hrest).2⟩
  · rintro ⟨⟨hlines, hspaces⟩, hlines', hspaces'⟩
    refine ⟨List.forall_mem_append.2 ⟨hlines, List.forall_mem_cons.2 ⟨?_, hlines'⟩⟩,
      List.isChain_append.2 ⟨hspaces, List.isChain_cons.2 ⟨fun q _ => hfar q, hspaces'⟩, ?_⟩⟩
    · rw [hline]
      exact fun h => by cases h
    · rintro q - _ ⟨⟩ - hgap
      rw [hp] at hgap
      cases hgap

theorem readAfter_eq_map_iff (hgap : ∀ p ∈ gap, p.isGap = true) :
    readAfter gap ps = (gap ++ ps).map Piece.char ↔ IsUnfolded (gap ++ ps) := by
  induction ps generalizing gap with
  | nil =>
    rw [List.append_nil]
    exact readGap_eq_map_iff hgap
  | cons p ps ih =>
    rw [readAfter]
    split
    · next hp =>
      have hmore : ∀ q ∈ gap ++ [p], q.isGap = true :=
        List.forall_mem_append.2 ⟨hgap, List.forall_mem_singleton.2 hp⟩
      have hlater := ih hmore
      rwa [List.append_assoc] at hlater
    · next hp =>
      have hlater := ih (List.forall_mem_nil _)
      rw [List.nil_append] at hlater
      rw [isUnfolded_append_cons (Bool.eq_false_iff.2 hp), ← readGap_eq_map_iff hgap, ← hlater,
        List.map_append, List.map_cons]
      refine ⟨fun heq => ?_, fun hboth => by rw [hboth.1, hboth.2]⟩
      -- neither part is longer than what it was read from
      have hlength := congrArg List.length heq
      have hfirst := length_readGap_le gap
      have hrest := length_readAfter_le [] ps
      simp only [List.length_append, List.length_cons, List.length_map, List.length_nil]
        at hlength hrest
      have hsame : (readGap gap).length = (gap.map Piece.char).length := by
        rw [List.length_map]
        omega
      obtain ⟨hgaps, hothers⟩ := List.append_inj heq hsame
      exact ⟨hgaps, (List.cons.inj hothers).2⟩

theorem readChars_eq_map_iff : readChars ps = ps.map Piece.char ↔ IsUnfolded ps :=
  readAfter_eq_map_iff (List.forall_mem_nil _)

example : readChars [.plain 'a' rfl, .plain ' ' rfl, .plain '\u0085' rfl, .plain 'b' rfl,
    .plain '\u2028' rfl, .plain '\u0085' rfl, .plain 'c' rfl] =
    ['a', ' ', 'b', '\u2028', '\n', 'c'] := by
  decide

end Reading

section Halves

def isHalf (c : Char) : Bool := (Text.half? c).isSome

variable {gap ps : List Piece}

theorem halves_map_of_isGap (hgap : ∀ p ∈ gap, p.isGap = true) :
    (gap.map Piece.char).countP isHalf = 0 := by
  refine List.countP_eq_zero.2 fun c hc => ?_
  obtain ⟨p, hp, rfl⟩ := List.mem_map.1 hc
  rw [isHalf, Piece.half?_of_isGap (hgap p hp)]
  exact Bool.false_ne_true

theorem halves_readGap (hgap : ∀ p ∈ gap, p.isGap = true) : (readGap gap).countP isHalf = 0 := by
  cases hbreaks : gap.filter Piece.endsLine with
  | nil =>
    rw [readGap, hbreaks]
    exact halves_map_of_isGap hgap
  | cons b bs =>
    refine List.countP_eq_zero.2 fun c hc => ?_
    rw [readGap, hbreaks] at hc
    rcases mem_folded hc with rfl | hc
    · decide
    · rw [← List.map_cons, ← hbreaks] at hc
      obtain ⟨p, hp, rfl⟩ := List.mem_map.1 hc
      unfold Piece.lineEnd
      split
      · decide
      · rw [isHalf, Piece.half?_of_isGap (hgap p (List.mem_filter.1 hp).1)]
        exact Bool.false_ne_true

theorem halves_readChars (ps : List Piece) :
    (readChars ps).countP isHalf = (ps.map Piece.char).countP isHalf := by
  have hafter (gap : List Piece) (hgap : ∀ p ∈ gap, p.isGap = true) :
      (readAfter gap ps).countP isHalf = (ps.map Piece.char).countP isHalf := by
    induction ps generalizing gap with
    | nil => exact halves_readGap hgap
    | cons p ps ih =>
      rw [readAfter]
      split
      · next hp =>
        have hnone : isHalf p.char = false := by
          rw [isHalf, Piece.half?_of_isGap hp]
          rfl
        rw [ih _ (List.forall_mem_append.2 ⟨hgap, List.forall_mem_singleton.2 hp⟩), List.map_cons,
          List.countP_cons_of_neg (by rw [hnone]; exact Bool.false_ne_true)]
      · rw [List.countP_append, halves_readGap hgap, Nat.zero_add, List.map_cons, List.countP_cons,
          List.countP_cons, ih [] (List.forall_mem_nil _)]
  exact hafter [] (List.forall_mem_nil _)

end Halves

end NoteDecor.Json
