import NoteDecor.Proofs.Json.Nodes
import NoteDecor.Yaml.Document

/-! The scalars of JSON by their words. A number counts as whole if it has neither fraction nor
exponent, and as a decimal number if it has a fraction and no exponent without a sign; any other one
is a text. -/

namespace NoteDecor.Json
open Yaml

section Digits

variable (ds : List (Fin 10))

theorem decimalDigit?_digitChar (d : Fin 10) :
    Numeral.decimalDigit? (Nat.digitChar d.val) = some d.val := by
  revert d
  decide

theorem digit?_digitChar (d : Fin 10) : Numeral.digit? 10 (Nat.digitChar d.val) = some d.val := by
  revert d
  decide

theorem isDigit_digitChar (d : Fin 10) : (Nat.digitChar d.val).isDigit = true := by
  revert d
  decide

theorem digitChar_ne (d : Fin 10) {c : Char} (hc : c.isDigit = false) : Nat.digitChar d.val ≠ c := by
  rintro rfl
  cases hc.symm.trans (isDigit_digitChar d)

theorem digitsText_isDigit : ∀ c ∈ digitsText ds, c.isDigit = true := by
  intro c hc
  obtain ⟨d, -, rfl⟩ := List.mem_map.1 hc
  exact isDigit_digitChar d

theorem spanDigits_append {r : List Char} (hr : ∀ c ∈ r.head?, Numeral.decimalDigit? c = none) :
    Numeral.spanDigits (digitsText ds ++ r) = (ds.map Fin.val, r) := by
  induction ds with
  | nil =>
    cases r with
    | nil => rfl
    | cons c r =>
      rw [digitsText, List.map_nil, List.nil_append, Numeral.spanDigits, hr c rfl]
      rfl
  | cons d ds ih =>
    change Numeral.spanDigits (Nat.digitChar d.val :: (digitsText ds ++ r)) = _
    rw [Numeral.spanDigits, decimalDigit?_digitChar, ih]
    rfl

theorem digits_digitsText : Numeral.digits 10 true (digitsText ds) = some (ds.map Fin.val, []) := by
  induction ds with
  | nil => rfl
  | cons d ds ih =>
    have hne : Nat.digitChar d.val ≠ '_' := digitChar_ne d rfl
    change Numeral.digits 10 true (Nat.digitChar d.val :: digitsText ds) = _
    rw [Numeral.digits, if_neg hne, digit?_digitChar]
    dsimp only
    rw [ih]
    rfl

theorem sign_of_ne {c : Char} (h : c ≠ '-') (h' : c ≠ '+') (r : List Char) :
    Numeral.sign (c :: r) = (false, c :: r) := by
  unfold Numeral.sign
  split
  · next heq => exact absurd (List.cons.inj heq).1 h
  · next heq => exact absurd (List.cons.inj heq).1 h'
  · rfl

theorem dropBaseMark_ten (s : List Char) : Numeral.dropBaseMark 10 s = s := by
  unfold Numeral.dropBaseMark
  split
  · rw [if_neg]
    rintro ⟨-, ⟨h, -⟩ | ⟨h, -⟩ | ⟨h, -⟩⟩ <;> cases h
  · rfl

end Digits

theorem strip_eq_self {p : Char → Bool} {s : List Char} (h : ∀ c ∈ s, p c = false) :
    Text.strip p s = s := by
  have hdrop (s : List Char) (h : ∀ c ∈ s, p c = false) : s.dropWhile p = s := by
    cases s with
    | nil => rfl
    | cons c r => rw [List.dropWhile_cons_of_neg (Bool.not_eq_true _ ▸ h c (.head _))]
  rw [Text.strip, hdrop s h, hdrop s.reverse fun c hc => h c (List.mem_reverse.1 hc),
    List.reverse_reverse]

theorem lower_ascii {s : List Char} (h : ∀ c ∈ s, c.toNat < 128) :
    Text.lower (String.ofList s) = String.ofList (s.map Char.toLower) := by
  have hfrom (before : List Char) : Text.lowerFrom before s = s.map Char.toLower := by
    induction s generalizing before with
    | nil => rfl
    | cons c r ih =>
      obtain ⟨hc, hr⟩ := List.forall_mem_cons.1 h
      have hsigma : (decide (c.toNat = 931) && Text.endsWord before r) = false := by
        rw [Bool.and_eq_false_iff, decide_eq_false_iff_not]
        exact .inl (by omega)
      rw [Text.lowerFrom, hsigma, if_neg Bool.false_ne_true, Text.lowerChar, if_pos hc, ih hr]
      rfl
  rw [Text.lower, String.toList_ofList, hfrom]

namespace Number

variable (n : Number)

theorem exists_whole : ∃ d ds, n.whole = d :: ds ∧ (d = 0 → ds = []) := by
  obtain ⟨d, ds, hwhole⟩ := List.exists_cons_of_ne_nil n.nonempty
  refine ⟨d, ds, hwhole, fun hd => ?_⟩
  have halone := n.unpadded (by rw [hwhole, hd]; rfl)
  rw [hwhole] at halone
  exact (List.cons.inj halone).2

/-- What stands behind the digits before the point. -/
def rest : List Char := n.fractionText ++ n.exponentText

theorem exponentText_head : ∀ c ∈ n.exponentText.head?, c = 'e' ∨ c = 'E' := by
  unfold exponentText
  cases n.exponent with
  | none => nofun
  | some e =>
    intro c hc
    obtain rfl := Option.some.inj hc
    cases e.isCapital
    · exact .inl rfl
    · exact .inr rfl

theorem rest_head : ∀ c ∈ n.rest.head?, c = '.' ∨ c = 'e' ∨ c = 'E' := by
  intro c hc
  unfold rest fractionText at hc
  cases hf : n.fraction with
  | none =>
    rw [hf] at hc
    exact .inr (n.exponentText_head c hc)
  | some ds =>
    rw [hf] at hc
    exact .inl (Option.some.inj hc).symm

theorem unsigned_text : Tag.unsigned n.text = n.unsignedText := by
  unfold text
  split
  · rfl
  · obtain ⟨d, u, hdigit⟩ := n.exists_digit
    rw [hdigit]
    unfold Tag.unsigned
    split
    · next heq => exact absurd (List.cons.inj heq).1 (digitChar_ne d rfl)
    · next heq => exact absurd (List.cons.inj heq).1 (digitChar_ne d rfl)
    · rfl

theorem isDigits_digitsText {ds : List (Fin 10)} (h : ds ≠ []) :
    Tag.isDigits (digitsText ds) = true := by
  obtain ⟨d, ds, rfl⟩ := List.exists_cons_of_ne_nil h
  change ((Nat.digitChar d.val).isDigit && (digitsText ds).all Tag.isDigitOr) = true
  rw [isDigit_digitChar, Bool.true_and, List.all_eq_true]
  exact fun c hc => Bool.or_eq_true_iff.2 (.inl (digitsText_isDigit ds c hc))

theorem isNonEmpty_digitsText {ds : List (Fin 10)} (h : ds ≠ []) :
    Tag.isNonEmpty Char.isDigit (digitsText ds) = true := by
  obtain ⟨d, ds, rfl⟩ := List.exists_cons_of_ne_nil h
  exact List.all_eq_true.2 (digitsText_isDigit (d :: ds))

theorem isExponent_exponentText :
    Tag.isExponent n.exponentText = n.exponent.all fun e => e.isNegative.isSome := by
  unfold exponentText
  cases n.exponent with
  | none => rfl
  | some e =>
    obtain ⟨isCapital, isNegative, ds, hds⟩ := e
    have hmark : ((if isCapital then 'E' else 'e') == 'e' || (if isCapital then 'E' else 'e') == 'E') =
        true := by
      cases isCapital <;> rfl
    cases isNegative with
    | none =>
      obtain ⟨d, ds, rfl⟩ := List.exists_cons_of_ne_nil hds
      have hsign : (Nat.digitChar d.val == '+' || Nat.digitChar d.val == '-') = false := by
        simp [digitChar_ne d (show '+'.isDigit = false from rfl),
          digitChar_ne d (show '-'.isDigit = false from rfl)]
      change (_ && (Nat.digitChar d.val == '+' || Nat.digitChar d.val == '-') && _) = false
      rw [hsign, Bool.and_false, Bool.false_and]
    | some b =>
      have hsign : ((if b then '-' else '+') == '+' || (if b then '-' else '+') == '-') = true := by
        cases b <;> rfl
      change Tag.isExponent (_ :: (signText (some b) ++ digitsText ds)) = true
      rw [show signText (some b) = [if b then '-' else '+'] by cases b <;> rfl]
      change (_ && _ && Tag.isNonEmpty Char.isDigit (digitsText ds)) = true
      rw [hmark, hsign, isNonEmpty_digitsText hds]
      rfl

theorem isFraction_append (ds : List (Fin 10)) :
    Tag.isFraction (digitsText ds ++ n.exponentText) =
      n.exponent.all fun e => e.isNegative.isSome := by
  have hdigits : ∀ c ∈ digitsText ds, Tag.isDigitOr c = true := fun c hc =>
    Bool.or_eq_true_iff.2 (.inl (digitsText_isDigit ds c hc))
  have hstops : n.exponentText.dropWhile Tag.isDigitOr = n.exponentText := by
    have hhead := n.exponentText_head
    revert hhead
    cases n.exponentText with
    | nil => exact fun _ => rfl
    | cons c r =>
      intro hhead
      rw [List.dropWhile_cons_of_neg]
      rcases hhead c rfl with rfl | rfl <;> decide
  rw [Tag.isFraction, List.dropWhile_append_of_pos hdigits, hstops, isExponent_exponentText]

theorem not_isSexagesimal {s : List Char} (h : ':' ∉ s) : Tag.isSexagesimal s = false := by
  have hsplit : Text.split ':' s = [s] := by
    induction s with
    | nil => rfl
    | cons c r ih =>
      have hc : c ≠ ':' := Ne.symm (List.ne_of_not_mem_cons h)
      rw [Text.split, if_neg hc, ih (List.not_mem_of_not_mem_cons h)]
  rw [Tag.isSexagesimal, hsplit]

theorem digitsText_ne_point (ds : List (Fin 10)) : ∀ c ∈ digitsText ds, (c != '.') = true := by
  intro c hc
  obtain ⟨d, -, rfl⟩ := List.mem_map.1 hc
  exact bne_iff_ne.2 (digitChar_ne d rfl)

theorem text_head_ne_point : (n.text.head? == some '.') = false := by
  obtain ⟨d, u, hdigit⟩ := n.exists_digit
  unfold text
  rw [hdigit]
  split
  · rfl
  · simp [digitChar_ne d (show '.'.isDigit = false from rfl)]

theorem isFloat_text : Tag.isFloat n.text =
    (n.fraction.isSome && n.exponent.all fun e => e.isNegative.isSome) := by
  unfold Tag.isFloat
  rw [unsigned_text, text_head_ne_point]
  dsimp only
  -- without a point nothing is left of the text to be a fraction
  cases hf : n.fraction with
  | none =>
    have hpoint : n.unsignedText.dropWhile (· != '.') = [] := by
      have hexponent : ∀ c ∈ n.exponentText, (c != '.') = true := fun c hc =>
        bne_iff_ne.2 fun h => absurd (h ▸ n.exponentText_marks c hc) (by decide)
      rw [unsignedText, fractionText, hf, List.dropWhile_eq_nil_iff]
      exact List.forall_mem_append.2 ⟨digitsText_ne_point _, hexponent⟩
    rw [hpoint]
    rfl
  | some fs =>
    have hbody : n.unsignedText = digitsText n.whole ++ '.' :: (digitsText fs ++ n.exponentText) := by
      rw [unsignedText, fractionText, hf]
      rfl
    have hcolon : ':' ∉ digitsText n.whole := fun h =>
      absurd (digitsText_marks _ _ h) (by decide)
    have hwhole : (digitsText n.whole).isEmpty = false := by
      obtain ⟨d, ds, hds, -⟩ := n.exists_whole
      rw [hds]
      rfl
    rw [hbody, List.takeWhile_append_of_pos (digitsText_ne_point _),
      List.dropWhile_append_of_pos (digitsText_ne_point _)]
    change (Tag.isDigits (digitsText n.whole ++ []) && _ || Tag.isSexagesimal (digitsText n.whole ++ [])
      && _ || (digitsText n.whole ++ []).isEmpty && _ || false && _) = _
    rw [List.append_nil, isDigits_digitsText n.nonempty, isFraction_append, not_isSexagesimal hcolon,
      hwhole]
    simp

theorem rest_cases : n.rest = [] ∧ n.isWhole = true ∨
    ∃ c r, n.rest = c :: r ∧ (c = '.' ∨ c = 'e' ∨ c = 'E') ∧ n.isWhole = false := by
  have hhead := n.rest_head
  unfold rest fractionText exponentText at hhead ⊢
  unfold isWhole
  cases hf : n.fraction with
  | some ds =>
    rw [hf] at hhead
    exact .inr ⟨_, _, rfl, hhead _ rfl, rfl⟩
  | none =>
    rw [hf] at hhead
    cases he : n.exponent with
    | none => exact .inl ⟨rfl, rfl⟩
    | some e =>
      rw [he] at hhead
      exact .inr ⟨_, _, rfl, hhead _ rfl, rfl⟩

theorem unsignedText_eq : n.unsignedText = digitsText n.whole ++ n.rest := rfl

theorem isDigits_unsignedText : Tag.isDigits n.unsignedText = n.isWhole := by
  rw [unsignedText_eq]
  rcases n.rest_cases with ⟨hrest, hw⟩ | ⟨c, r, hrest, hc, hw⟩
  · rw [hrest, List.append_nil, isDigits_digitsText n.nonempty, hw]
  · obtain ⟨d, ds, hwhole, -⟩ := n.exists_whole
    have hother : Tag.isDigitOr c = false := by rcases hc with rfl | rfl | rfl <;> decide
    rw [hrest, hwhole, hw]
    change ((Nat.digitChar d.val).isDigit && (digitsText ds ++ c :: r).all Tag.isDigitOr) = false
    rw [List.all_append, List.all_cons, hother, Bool.false_and, Bool.and_false, Bool.and_false]

theorem isInt_text : Tag.isInt n.text = n.isWhole := by
  obtain ⟨d, ds, hwhole, hpadded⟩ := n.exists_whole
  unfold Tag.isInt
  rw [unsigned_text]
  by_cases hd : d = 0
  · have hbody : n.unsignedText = '0' :: n.rest := by
      rw [unsignedText_eq, hwhole, hd, hpadded hd]
      rfl
    rw [hbody]
    rcases n.rest_cases with ⟨hrest, hw⟩ | ⟨c, r, hrest, hc, hw⟩
    · rw [hrest, hw]
      rfl
    · rw [hrest, hw]
      rcases hc with rfl | rfl | rfl <;> rfl
  · have hdigit : Nat.digitChar d.val ≠ '0' := by
      have hzero : ∀ d : Fin 10, Nat.digitChar d.val = '0' → d = 0 := by decide
      exact fun h => hd (hzero d h)
    have hcolon : ':' ∉ n.unsignedText := fun h => absurd (n.unsignedText_marks _ h) (by decide)
    have hbody : n.unsignedText = Nat.digitChar d.val :: (digitsText ds ++ n.rest) := by
      rw [unsignedText_eq, hwhole]
      rfl
    split
    · next heq => exact absurd (List.cons.inj (hbody.symm.trans heq)).1 hdigit
    · next heq => exact absurd (List.cons.inj (hbody.symm.trans heq)).1 hdigit
    · next heq => exact absurd (List.cons.inj (hbody.symm.trans heq)).1 hdigit
    · next heq => exact absurd (List.cons.inj (hbody.symm.trans heq)).1 hdigit
    · rw [isDigits_unsignedText, not_isSexagesimal hcolon, Bool.or_false]

theorem text_ne_signed {p r : List Char} (hp : p ≠ []) (hdigits : ∀ c ∈ p, c.isDigit = true) :
    n.text ≠ p ++ '-' :: r := by
  intro htext
  cases hsign : n.isNegative with
  | true =>
    obtain ⟨c, p, rfl⟩ := List.exists_cons_of_ne_nil hp
    rw [text, if_pos hsign] at htext
    obtain rfl := (List.cons.inj htext).1
    exact absurd (hdigits _ (.head _)) (by decide)
  | false =>
    rw [text, if_neg (Bool.not_eq_true _ ▸ hsign), unsignedText_eq] at htext
    have hrest := congrArg (List.dropWhile Char.isDigit) htext
    rw [List.dropWhile_append_of_pos hdigits, List.dropWhile_append_of_pos (digitsText_isDigit _)]
      at hrest
    rcases n.rest_cases with ⟨hnone, -⟩ | ⟨c, r', hsome, hc, -⟩
    · rw [hnone] at hrest
      cases hrest
    · rw [hsome] at hrest
      rcases hc with rfl | rfl | rfl <;> cases hrest

theorem number?_isDigit {s : List Char} {k : Nat} (h : Calendar.number? s = some k) :
    ∀ c ∈ s, c.isDigit = true := by
  unfold Calendar.number? at h
  split at h
  · cases h
  · next hs => exact List.all_eq_true.1 (not_not.1 (not_or.1 hs).2)

theorem ofText?_text : Stamp.ofText? n.text = none := by
  unfold Stamp.ofText?
  dsimp only
  split
  · next hlength =>
    cases hyear : Calendar.number? (n.text.take 4) with
    | none => rfl
    | some year =>
      have hdash (r : List Char) : n.text.drop 4 ≠ '-' :: r := by
        intro hdrop
        have hne : n.text.take 4 ≠ [] := by
          intro hnil
          rw [hnil] at hlength
          cases hlength
        refine n.text_ne_signed hne (number?_isDigit hyear) (r := r) ?_
        rw [← hdrop, List.take_append_drop]
      dsimp only [Bind.bind, Option.bind]
      split
      · next heq => exact absurd heq (hdash _)
      · rfl
  · rfl

theorem isPlain_text : Stamp.isPlain n.text = false := by
  rw [Stamp.isPlain, ofText?_text]

def headMarks : List Char := "0123456789-".toList

theorem exists_head : ∃ c u, n.text = c :: u ∧ c ∈ headMarks := by
  have hmarks : ∀ d : Fin 10, Nat.digitChar d.val ∈ headMarks := by decide
  obtain ⟨d, u, hdigit⟩ := n.exists_digit
  unfold text
  rw [hdigit]
  split
  · exact ⟨_, _, rfl, by decide⟩
  · exact ⟨_, _, rfl, hmarks d⟩

theorem ofList_ne {c : Char} (u : List Char) {t : String} (h : t.toList.head? ≠ some c) :
    (String.ofList (c :: u) == t) = false := by
  rw [beq_eq_false_iff_ne]
  rintro rfl
  exact h (by rw [String.toList_ofList]; rfl)

def spellings (word : String) : List String :=
  [word, Tag.capitalised word, String.ofList (word.toList.map Char.toUpper)]

theorem not_isSpelled {c : Char} (u : List Char) {word : String}
    (h : ∀ t ∈ spellings word, t.toList.head? ≠ some c) :
    Tag.isSpelled word (String.ofList (c :: u)) = false := by
  have hne (t : String) (ht : t ∈ spellings word) : (String.ofList (c :: u) == t) = false :=
    ofList_ne u (h t ht)
  rw [Tag.isSpelled, hne _ (.head _), hne _ (.tail _ (.head _)),
    hne _ (.tail _ (.tail _ (.head _)))]
  rfl

def reserved : List String :=
  ["<<", "", "~", "=", "!", "&", "*"] ++ spellings "null" ++ Tag.truths.flatMap fun t => spellings t.1

theorem reserved_head {c : Char} (hc : c ∈ headMarks) :
    ∀ t ∈ reserved, t.toList.head? ≠ some c := by
  have hall : (reserved.all fun t => headMarks.all fun c => t.toList.head? != some c) = true := by
    decide +kernel
  exact fun t ht => bne_iff_ne.1 (List.all_eq_true.1 (List.all_eq_true.1 hall t ht) c hc)

theorem ofForm_of_head {c : Char} (u : List Char) (hc : c ∈ headMarks) : Tag.ofForm (c :: u) =
    if Tag.isFloat (c :: u) then .float
    else if Tag.isInt (c :: u) then .int
    else if Stamp.isPlain (c :: u) then .timestamp
    else .str := by
  have htruth : (Tag.truths.any fun t => Tag.isSpelled t.1 (String.ofList (c :: u))) = false := by
    refine List.any_eq_false.2 fun t ht => Bool.not_eq_true _ ▸ not_isSpelled u fun s hs => ?_
    exact reserved_head hc s (List.mem_append_right _ (List.mem_flatMap.2 ⟨t, ht, hs⟩))
  have hnull : Tag.isSpelled "null" (String.ofList (c :: u)) = false := by
    refine not_isSpelled u fun s hs => reserved_head hc s ?_
    exact List.mem_append_left _ (List.mem_append_right _ hs)
  have hne (s : String) (hs : s ∈ ["<<", "", "~", "=", "!", "&", "*"]) :
      (String.ofList (c :: u) == s) = false :=
    ofList_ne u (reserved_head hc s (List.mem_append_left _ (List.mem_append_left _ hs)))
  unfold Tag.ofForm
  dsimp only
  rw [htruth, hnull, hne "<<" (by decide), hne "" (by decide), hne "~" (by decide),
    hne "=" (by decide), hne "!" (by decide), hne "&" (by decide), hne "*" (by decide)]
  rfl

def isDecimal (n : Number) : Bool :=
  n.fraction.isSome && n.exponent.all fun e => e.isNegative.isSome

theorem ofPlain_text : Tag.ofPlain n.text =
    if n.isDecimal then .float else if n.isWhole then .int else .str := by
  have hbreak : withoutBreak n.text = n.text := by
    rw [withoutBreak, if_neg]
    intro h
    have hlast : n.text.getLast? = some '\n' := by simpa using (Bool.and_eq_true_iff.1 h).1
    exact absurd (n.text_marks _ (List.mem_of_getLast? hlast)) (by decide)
  obtain ⟨c, u, htext, hc⟩ := n.exists_head
  have hfloat := n.isFloat_text
  have hint := n.isInt_text
  have hplain := n.isPlain_text
  rw [htext] at hbreak hfloat hint hplain
  rw [Tag.ofPlain, htext, hbreak, ofForm_of_head u hc, hfloat, hint, hplain]
  rfl

theorem withoutUnderscores_text : Yaml.Scalar.withoutUnderscores n.text = n.text := by
  rw [Yaml.Scalar.withoutUnderscores, List.filter_eq_self]
  intro c hc
  have hmark : ∀ c ∈ numberMarks, (c != '_') = true := List.all_eq_true.1 (by decide)
  exact hmark c (n.text_marks c hc)

theorem signAndBody_text :
    Yaml.Scalar.signAndBody n.text = .ok (n.isNegative, n.unsignedText) := by
  unfold text
  cases n.isNegative with
  | true => rfl
  | false =>
    obtain ⟨d, u, hdigit⟩ := n.exists_digit
    rw [if_neg Bool.false_ne_true, hdigit]
    unfold Yaml.Scalar.signAndBody
    split
    · next heq => cases heq
    · next heq => exact absurd (List.cons.inj heq).1 (digitChar_ne d rfl)
    · next heq => exact absurd (List.cons.inj heq).1 (digitChar_ne d rfl)
    · rfl

theorem strip_digitsText (ds : List (Fin 10)) :
    Text.strip Numeral.isSpace (digitsText ds) = digitsText ds := by
  have hmark : ∀ c ∈ plainMarks, Numeral.isSpace c = false :=
    List.all_iff_forall_prop.1 (by decide)
  exact strip_eq_self fun c hc => hmark c (digitsText_marks ds c hc)

theorem readInt_digitsText {ds : List (Fin 10)} (h : ds ≠ []) :
    Numeral.readInt 10 (digitsText ds) = if Numeral.decimalLimit < ds.length then
      .error (.tooLong ds.length) else .ok (natOf ds) := by
  obtain ⟨d, ds, rfl⟩ := List.exists_cons_of_ne_nil h
  have hsign : Numeral.sign (digitsText (d :: ds)) = (false, digitsText (d :: ds)) :=
    sign_of_ne (digitChar_ne d rfl) (digitChar_ne d rfl) _
  have hdigits : Numeral.digits 10 false (digitsText (d :: ds)) =
      some ((d :: ds).map Fin.val, []) := by
    change Numeral.digits 10 false (Nat.digitChar d.val :: digitsText ds) = _
    rw [Numeral.digits, if_neg (digitChar_ne d rfl), digit?_digitChar]
    dsimp only
    rw [digits_digitsText]
    rfl
  unfold Numeral.readInt
  rw [strip_digitsText, hsign]
  dsimp only
  rw [dropBaseMark_ten, hdigits]
  dsimp only
  rw [List.length_map]
  simp only [true_and]
  rfl

theorem wholeNumber_digitsText : Yaml.Scalar.wholeNumber (digitsText n.whole) =
    if Numeral.decimalLimit < n.whole.length then .error (.whole 10 (String.ofList
      (digitsText n.whole)) (.tooLong n.whole.length)) else .ok (natOf n.whole) := by
  obtain ⟨d, ds, hwhole, hpadded⟩ := n.exists_whole
  by_cases hd : d = 0
  · rw [hwhole, hpadded hd, hd]
    rfl
  · have hdigit : Nat.digitChar d.val ≠ '0' := by
      have hzero : ∀ d : Fin 10, Nat.digitChar d.val = '0' → d = 0 := by decide
      exact fun h => hd (hzero d h)
    have hcolon : (digitsText n.whole).contains ':' = false := by
      rw [Bool.eq_false_iff]
      intro h
      exact absurd (digitsText_marks _ _ (List.contains_iff_mem.1 h)) (by decide)
    have hbody : digitsText n.whole = Nat.digitChar d.val :: digitsText ds := by
      rw [hwhole]
      rfl
    unfold Yaml.Scalar.wholeNumber
    split
    · next heq => exact absurd (hbody.symm.trans heq) (List.cons_ne_nil _ _)
    · next heq => exact absurd (List.cons.inj (hbody.symm.trans heq)).1 hdigit
    · next heq => exact absurd (List.cons.inj (hbody.symm.trans heq)).1 hdigit
    · next heq => exact absurd (List.cons.inj (hbody.symm.trans heq)).1 hdigit
    · next heq => exact absurd (List.cons.inj (hbody.symm.trans heq)).1 hdigit
    · rw [hcolon, if_neg Bool.false_ne_true, Yaml.Scalar.readWhole,
        readInt_digitsText n.nonempty]
      split <;> rfl

theorem int_text (h : n.isWhole = true) : Yaml.Scalar.int (String.ofList n.text) =
    if Numeral.decimalLimit < n.whole.length then .error (.whole 10 (String.ofList
      (digitsText n.whole)) (.tooLong n.whole.length)) else .ok n.value := by
  have hbody : n.unsignedText = digitsText n.whole := by
    rcases n.rest_cases with ⟨hrest, -⟩ | ⟨_, _, _, _, hw⟩
    · rw [unsignedText_eq, hrest, List.append_nil]
    · cases h.symm.trans hw
  unfold Yaml.Scalar.int
  rw [String.toList_ofList, withoutUnderscores_text, signAndBody_text, hbody]
  dsimp only [Bind.bind, Except.bind]
  rw [wholeNumber_digitsText, value, if_pos h]
  by_cases hlong : Numeral.decimalLimit < n.whole.length
  · rw [if_pos hlong, if_pos hlong]
  · rw [if_neg hlong, if_neg hlong]
    rfl

theorem readExponent_exponentText :
    Numeral.readExponent n.exponentText = some ((n.exponent.map Exponent.value).getD 0) := by
  unfold exponentText
  cases n.exponent with
  | none => rfl
  | some e =>
    obtain ⟨isCapital, isNegative, ds, hds⟩ := e
    have hmark : (if isCapital then 'E' else 'e') = 'e' ∨ (if isCapital then 'E' else 'e') = 'E' := by
      cases isCapital
      · exact .inl rfl
      · exact .inr rfl
    have hsign : Numeral.sign (signText isNegative ++ digitsText ds) =
        (isNegative.getD false, digitsText ds) := by
      obtain ⟨d, ds, rfl⟩ := List.exists_cons_of_ne_nil hds
      rcases isNegative with _ | _ | _
      · exact sign_of_ne (digitChar_ne d rfl) (digitChar_ne d rfl) _
      · rfl
      · rfl
    have hdigits : Numeral.spanDigits (digitsText ds) = (ds.map Fin.val, []) := by
      rw [← spanDigits_append ds (r := []) nofun, List.append_nil]
    have hsome : (ds.map Fin.val).isEmpty = false := by
      rw [List.isEmpty_map]
      exact List.isEmpty_eq_false_iff.2 hds
    change Numeral.readExponent (_ :: (signText isNegative ++ digitsText ds)) = _
    unfold Numeral.readExponent
    dsimp only
    rw [if_pos hmark, hsign]
    dsimp only
    rw [hdigits, hsome]
    rfl

theorem readDecimal_unsignedText : Numeral.readDecimal n.unsignedText = some (n.size false) := by
  obtain ⟨d, u, hdigit⟩ := n.exists_digit
  have hstrip : Text.strip Numeral.isSpace n.unsignedText = n.unsignedText := by
    have hmark : ∀ c ∈ numberMarks, Numeral.isSpace c = false :=
      List.all_iff_forall_prop.1 (by decide)
    exact strip_eq_self fun c hc => hmark c (n.unsignedText_marks c hc)
  have hsign : Numeral.sign n.unsignedText = (false, n.unsignedText) := by
    rw [hdigit]
    exact sign_of_ne (digitChar_ne d rfl) (digitChar_ne d rfl) _
  have hword (t : String) (ht : ∀ d : Fin 10, t.toList.head? ≠ some (Nat.digitChar d.val).toLower) :
      String.ofList (n.unsignedText.map Char.toLower) ≠ t := by
    rw [hdigit]
    exact ne_of_beq_false (ofList_ne _ (ht d))
  have hwhole : (n.whole.map Fin.val).isEmpty = false := by
    rw [List.isEmpty_map]
    exact List.isEmpty_eq_false_iff.2 n.nonempty
  have hmarks : ∀ c ∈ n.rest.head?, Numeral.decimalDigit? c = none := by
    intro c hc
    rcases n.rest_head c hc with rfl | rfl | rfl <;> decide
  unfold Numeral.readDecimal
  rw [hstrip, hsign]
  dsimp only
  rw [if_neg (not_or.2 ⟨hword "inf" (by decide), hword "infinity" (by decide)⟩),
    if_neg (hword "nan" (by decide)), unsignedText_eq, spanDigits_append _ hmarks]
  rw [if_neg fun h => Bool.false_ne_true (hwhole ▸ h.1)]
  have hexponent := n.readExponent_exponentText
  -- the digits of the fraction with what stands behind them
  let ending (p : List Nat × List Char) : Option Binary64 :=
    (Numeral.readExponent p.2).map fun e =>
      Numeral.decimal false (Numeral.ofDigits 10 (n.whole.map Fin.val ++ p.1)) (e - p.1.length)
  have hending (fs : List (Fin 10)) (hfs : n.fraction.getD [] = fs) :
      ending (fs.map Fin.val, n.exponentText) = some (n.size false) := by
    dsimp only [ending]
    rw [hexponent, size, hfs, List.length_map, natOf, List.map_append]
    rfl
  cases hf : n.fraction with
  | none =>
    have hrest : n.rest = n.exponentText := by
      rw [rest, fractionText, hf]
      rfl
    rw [hrest]
    refine Eq.trans ?_ (hending [] (by rw [hf]; rfl))
    have hhead := n.exponentText_head
    cases htext : n.exponentText with
    | nil => rfl
    | cons c r =>
      rw [htext] at hhead
      rcases hhead c rfl with rfl | rfl <;> rfl
  | some fs =>
    have hrest : n.rest = '.' :: (digitsText fs ++ n.exponentText) := by
      rw [rest, fractionText, hf]
      rfl
    have hmarks : ∀ c ∈ n.exponentText.head?, Numeral.decimalDigit? c = none := by
      intro c hc
      rcases n.exponentText_head c hc with rfl | rfl <;> decide
    rw [hrest]
    change ending (Numeral.spanDigits (digitsText fs ++ n.exponentText)) = _
    rw [spanDigits_append _ hmarks]
    exact hending fs (by rw [hf]; rfl)

theorem negate_ofRatio (a b : Nat) : (Binary64.ofRatio false a b).negate = .ofRatio true a b := by
  unfold Binary64.ofRatio
  split
  · rfl
  · dsimp only
    rw [apply_ite Binary64.negate]
    rfl

theorem negate_decimal (k : Nat) (e : Int) :
    (Numeral.decimal false k e).negate = Numeral.decimal true k e := by
  simp only [Numeral.decimal, apply_ite Binary64.negate, negate_ofRatio]
  rfl

def small (n : Number) : Number :=
  { n with exponent := n.exponent.map fun e => { e with isCapital := false } }

theorem toLower_digitsText (ds : List (Fin 10)) : (digitsText ds).map Char.toLower = digitsText ds := by
  have hdigit : ∀ d : Fin 10, (Nat.digitChar d.val).toLower = Nat.digitChar d.val := by decide
  rw [digitsText, List.map_map]
  exact List.map_congr_left fun d _ => hdigit d

theorem text_small : n.text.map Char.toLower = n.small.text := by
  have hfraction : n.fractionText.map Char.toLower = n.small.fractionText := by
    unfold fractionText small
    dsimp only
    cases n.fraction with
    | none => rfl
    | some ds => exact congrArg ('.' :: ·) (toLower_digitsText ds)
  have hexponent : n.exponentText.map Char.toLower = n.small.exponentText := by
    unfold exponentText small
    dsimp only
    cases n.exponent with
    | none => rfl
    | some e =>
      have hmark : (if e.isCapital then 'E' else 'e').toLower = 'e' := by cases e.isCapital <;> rfl
      have hsign : (signText e.isNegative).map Char.toLower = signText e.isNegative := by
        rcases e.isNegative with _ | _ | _ <;> rfl
      change (if e.isCapital then 'E' else 'e').toLower ::
        (signText e.isNegative ++ digitsText e.digits).map Char.toLower = _
      rw [hmark, List.map_append, hsign, toLower_digitsText]
      rfl
  have hbody : n.unsignedText.map Char.toLower = n.small.unsignedText := by
    rw [unsignedText, List.map_append, List.map_append, toLower_digitsText, hfraction, hexponent]
    rfl
  have hsign : n.small.isNegative = n.isNegative := rfl
  unfold text
  rw [hsign, ← hbody]
  split <;> rfl

theorem size_small (b : Bool) : n.small.size b = n.size b := by
  unfold size small
  cases n.exponent <;> rfl

theorem decimalNumber_unsignedText :
    Yaml.Scalar.decimalNumber n.unsignedText = .ok (n.size false) := by
  obtain ⟨d, u, hdigit⟩ := n.exists_digit
  have hhead (t : List Char) (ht : t.head? = some '.') : n.unsignedText ≠ t := by
    rintro rfl
    rw [hdigit] at ht
    exact digitChar_ne d rfl (Option.some.inj ht)
  have hcolon : n.unsignedText.contains ':' = false := by
    rw [Bool.eq_false_iff]
    intro h
    exact absurd (n.unsignedText_marks _ (List.contains_iff_mem.1 h)) (by decide)
  unfold Yaml.Scalar.decimalNumber
  rw [if_neg (hhead _ rfl), if_neg (hhead _ rfl), hcolon, Yaml.Scalar.readDecimal,
    readDecimal_unsignedText]
  rfl

theorem decimalBody_text : Yaml.Scalar.decimalBody (String.ofList n.text) =
    .ok (n.isNegative, n.small.unsignedText) := by
  have hascii : ∀ c ∈ numberMarks, c.toNat < 128 := List.all_iff_forall_prop.1 (by decide)
  rw [Yaml.Scalar.decimalBody, String.toList_ofList, withoutUnderscores_text,
    lower_ascii fun c hc => hascii c (n.text_marks c hc), String.toList_ofList, text_small,
    signAndBody_text]
  rfl

theorem isWhole_of_isDecimal (h : n.isDecimal = true) : n.isWhole = false := by
  rw [isDecimal, Bool.and_eq_true_iff, Option.isSome_iff_exists] at h
  obtain ⟨⟨fs, hfs⟩, -⟩ := h
  rw [isWhole, hfs]
  rfl

theorem float_text (h : n.isDecimal = true) :
    Yaml.Scalar.float (String.ofList n.text) = .ok n.value := by
  have hwhole := n.isWhole_of_isDecimal h
  have hnegate : n.size true = (n.size false).negate := (negate_decimal _ _).symm
  rw [Yaml.Scalar.float, decimalBody_text]
  dsimp only [Bind.bind, Except.bind]
  rw [decimalNumber_unsignedText, size_small, value, hwhole]
  cases n.isNegative with
  | true =>
    rw [hnegate]
    rfl
  | false => rfl

/-- Whole numbers with too many digits have no value. -/
def fault? (n : Number) : Option Yaml.Fault :=
  if n.isWhole && decide (Numeral.decimalLimit < n.whole.length) then
    some (.whole 10 (String.ofList (digitsText n.whole)) (.tooLong n.whole.length))
  else none

def read (n : Number) : Value :=
  if n.isWhole || n.isDecimal then n.value else .text (String.ofList n.text)

end Number

namespace Scalar

def fault? : Scalar → Option Yaml.Fault
  | number n => n.fault?
  | _ => none

/-- What a scalar is read as. -/
def read : Scalar → Value
  | string ps => .text (String.ofList (readChars ps))
  | number n => n.read
  | truth b => .bool b

def result (x : Scalar) : Result Value :=
  match x.fault? with
  | none => .ok x.read
  | some f => .error f

theorem result_of_none {x : Scalar} (h : x.fault? = none) : x.result = .ok x.read := by
  rw [result, h]

theorem result_of_some {x : Scalar} {f : Yaml.Fault} (h : x.fault? = some f) :
    x.result = .error f := by
  rw [result, h]

theorem result_eq_ok {x : Scalar} {v : Value} : x.result = .ok v ↔ x.fault? = none ∧ x.read = v := by
  cases h : x.fault? with
  | none => rw [result_of_none h, Except.ok.injEq, eq_self, true_and]
  | some f =>
    rw [result_of_some h]
    exact ⟨nofun, fun h => nomatch h.1⟩

def tag : Scalar → Tag
  | string _ => .str
  | number n => if n.isDecimal then .float else if n.isWhole then .int else .str
  | truth _ => .bool

theorem scalarKind_literal (x : Scalar) : Node.scalarKind none x.literal x.isWord = x.tag := by
  cases x with
  | string ps => rfl
  | number n =>
    have hkind : Node.scalarKind none (number n).literal (number n).isWord =
        Tag.ofPlain (String.ofList n.text).toList := rfl
    rw [hkind, String.toList_ofList, n.ofPlain_text]
    rfl
  | truth b => cases b <;> decide +kernel

theorem node_eq (x : Scalar) : x.node = ⟨x.tag, .scalar x.literal⟩ := by
  rw [node, x.scalarKind_literal]

theorem value_int (text : String) : Yaml.Scalar.value .int text = Yaml.Scalar.int text := rfl

theorem value_float (text : String) : Yaml.Scalar.value .float text = Yaml.Scalar.float text := rfl

theorem value_bool (text : String) : Yaml.Scalar.value .bool text = Yaml.Scalar.bool text := rfl

theorem value_tag (x : Scalar) : Yaml.Scalar.value x.tag x.literal = x.result := by
  cases x with
  | string ps => rfl
  | number n =>
    rw [result, fault?, Number.fault?, read, Number.read, tag, literal]
    cases hd : n.isDecimal with
    | true =>
      rw [n.isWhole_of_isDecimal hd, if_pos rfl, value_float, n.float_text hd]
      rfl
    | false =>
      cases hw : n.isWhole with
      | true =>
        rw [if_neg Bool.false_ne_true, if_pos rfl, value_int, n.int_text hw]
        by_cases hlong : Numeral.decimalLimit < n.whole.length
        · rw [if_pos hlong, decide_eq_true hlong]
          rfl
        · rw [if_neg hlong, decide_eq_false hlong]
          rfl
      | false => rfl
  | truth b =>
    have hlower : Text.lower (truthText b) = truthText b := by cases b <;> decide +kernel
    rw [tag, literal, value_bool, Yaml.Scalar.bool, hlower]
    cases b <;> rfl

theorem tag_cases (x : Scalar) : x.tag = .str ∨ x.tag = .int ∨ x.tag = .float ∨ x.tag = .bool := by
  cases x with
  | string ps => exact .inl rfl
  | number n =>
    rw [tag]
    split
    · exact .inr (.inr (.inl rfl))
    · split
      · exact .inr (.inl rfl)
      · exact .inl rfl
  | truth b => exact .inr (.inr (.inr rfl))

end Scalar

end NoteDecor.Json
