import NoteDecor.Proofs.Json.Strings
import NoteDecor.Proofs.Yaml.FlowTokens

/-! A JSON object as the tokens of a document. Braces, brackets, commas and colons are marks of flow,
strings are quoted scalars, numbers and truth values are words. A key is only recognised if the colon
stands near it. -/

namespace NoteDecor.Json
open Yaml

def Scalar.token : Scalar → Token
  | string ps => .scalar (String.ofList (readChars ps)) false
  | number n => .scalar (String.ofList n.text) true
  | truth b => .scalar (truthText b) true

def moreTokens {α : Type} (tokens : α → List Token) : List α → List Token
  | [] => []
  | x :: xs => .flowEntry :: (tokens x ++ moreTokens tokens xs)

def listTokens {α : Type} (tokens : α → List Token) : List α → List Token
  | [] => []
  | x :: xs => tokens x ++ moreTokens tokens xs

def Datum.tokens : Datum → List Token
  | scalar x => [x.token]
  | array xs =>
    .flowSequence :: (listTokens (fun x => [x.token]) xs.parts ++ [.flowSequenceEnd])

def Member.isNear (m : Member) : Bool :=
  m.key.countP Piece.endsLine + breaksIn m.beforeColon.chars == 0 &&
    decide ((stringText m.key).length + m.beforeColon.chars.length ≤ 1024)

def Member.keyTokens (m : Member) : List Token :=
  (if m.isNear then [.key] else []) ++
    [.scalar (String.ofList (readChars m.key)) false, .value]

def Member.tokens (m : Member) : List Token := m.keyTokens ++ m.datum.tokens

def Document.tokens (d : Document) : List Token :=
  .flowMapping :: (listTokens Member.tokens d.members.parts ++ [.flowMappingEnd, .streamEnd])

def Gap.IsTabless (g : Gap) : Prop := '\t' ∉ g.chars

theorem Gap.IsTabless.isGap {g : Gap} (h : g.IsTabless) : IsGap g.chars := by
  intro x hx
  have hspace := g.blank x hx
  simp only [isSpace, Bool.or_eq_true, beq_iff_eq] at hspace
  rcases hspace with ((hx | rfl) | hx) | hx
  · exact .inl hx
  · exact absurd hx h
  · exact .inr (.inl hx)
  · exact .inr (.inr hx)

def Scalar.IsLegible : Scalar → Prop
  | string ps => isMarked ps = false
  | _ => True

structure Datum.IsLegible (d : Datum) : Prop where
  scalars : ∀ x ∈ d.scalars, x.IsLegible
  gaps : ∀ g ∈ d.gaps, g.IsTabless

structure Member.IsLegible (m : Member) : Prop where
  key : isMarked m.key = false
  beforeColon : m.beforeColon.IsTabless
  afterColon : m.afterColon.IsTabless
  datum : m.datum.IsLegible

theorem isAlphanum_digitChar (d : Fin 10) : (Nat.digitChar d.val).isAlphanum = true := by
  revert d
  decide

def plainMarks : List Char := "0123456789-+eE".toList

def numberMarks : List Char := '.' :: plainMarks

theorem digitsText_marks (ds : List (Fin 10)) : ∀ c ∈ digitsText ds, c ∈ plainMarks := by
  intro c hc
  obtain ⟨d, -, rfl⟩ := List.mem_map.1 hc
  have hmarks : ∀ d : Fin 10, Nat.digitChar d.val ∈ plainMarks := by decide
  exact hmarks d

namespace Number

theorem exponentText_marks (n : Number) : ∀ c ∈ n.exponentText, c ∈ plainMarks := by
  unfold exponentText
  cases n.exponent with
  | none => nofun
  | some e =>
    have hmark : (if e.isCapital then 'E' else 'e') ∈ plainMarks := by
      cases e.isCapital <;> decide
    have hsign (sign : Option Bool) : ∀ c ∈ signText sign, c ∈ plainMarks := by
      refine List.all_iff_forall_prop.1 ?_
      rcases sign with _ | _ | _ <;> decide
    exact List.forall_mem_cons.2 ⟨hmark, List.forall_mem_append.2 ⟨hsign _, digitsText_marks _⟩⟩

theorem unsignedText_marks (n : Number) : ∀ c ∈ n.unsignedText, c ∈ numberMarks := by
  have hplain : ∀ c ∈ plainMarks, c ∈ numberMarks := fun _ => .tail _
  have hfraction : ∀ c ∈ n.fractionText, c ∈ numberMarks := by
    unfold fractionText
    cases n.fraction with
    | none => nofun
    | some ds =>
      exact List.forall_mem_cons.2 ⟨.head _, fun c hc => hplain c (digitsText_marks ds c hc)⟩
  exact List.forall_mem_append.2 ⟨fun c hc => hplain c (digitsText_marks _ c hc),
    List.forall_mem_append.2 ⟨hfraction, fun c hc => hplain c (n.exponentText_marks c hc)⟩⟩

theorem text_marks (n : Number) : ∀ c ∈ n.text, c ∈ numberMarks := by
  unfold text
  split
  · exact List.forall_mem_cons.2 ⟨by decide, n.unsignedText_marks⟩
  · exact n.unsignedText_marks

theorem text_isWordText (n : Number) : ∀ c ∈ n.text, isWordText c = true := by
  have hword : ∀ c ∈ numberMarks, isWordText c = true := List.all_eq_true.1 (by decide)
  exact fun c hc => hword c (n.text_marks c hc)

theorem exists_digit (n : Number) :
    ∃ (d : Fin 10) (u : List Char), n.unsignedText = Nat.digitChar d.val :: u := by
  obtain ⟨d, ds, hwhole⟩ := List.exists_cons_of_ne_nil n.nonempty
  refine ⟨d, digitsText ds ++ (n.fractionText ++ n.exponentText), ?_⟩
  rw [unsignedText, hwhole]
  rfl

theorem text_beginsWord (n : Number) : Scanner.BeginsWord n.text := by
  obtain ⟨d, u, hdigit⟩ := n.exists_digit
  unfold text
  rw [hdigit]
  split
  · exact ⟨_, _, rfl, .inr ⟨rfl, _, _, rfl, isAlphanum_digitChar d⟩⟩
  · exact ⟨_, _, rfl, .inl (isAlphanum_digitChar d)⟩

end Number

section Steps

variable {s : Scanner} {flow : Nat} {ts : List Token} {g g' r : List Char}

theorem token_of_string {s : Scanner} {r : List Char} (h : s.Inside flow ts ('\x22' :: r)) :
    s.token = s.keyable Scanner.quotedScalar := by
  unfold Scanner.token
  dsimp only
  rw [Scanner.Inside.peek h]
  rfl

theorem string_leads {ps : List Piece} (h : s.Inside flow ts (g ++ (stringText ps ++ r)))
    (hg : IsGap g) (hps : isMarked ps = false) : ∃ s' : Scanner, s.Leads s' ∧
      s'.Inside flow (.scalar (String.ofList (readChars ps)) false :: ts) r ∧
      (s.keyAllowed = true → ∃ k ∈ s'.keys, (∀ k' ∈ s'.keys, k'.flow = flow → k' = k) ∧
        k.flow = flow ∧ k.tokens = ts.length ∧
        s'.cursor.index = k.index + (stringText ps).length ∧
        s'.cursor.line = k.line + ps.countP Piece.endsLine) := by
  have hless : r.length < (stringText ps ++ r).length := by
    rw [List.length_append, stringText, List.length_cons]
    omega
  have hopen : (Token.scalar (String.ofList (readChars ps)) false :: ts).head? ≠
      some .streamEnd := by
    intro h
    cases h
  refine h.advance hg (Scanner.begins_of_mark (by decide) _) (fun s₁ hs₁ hallowed => ?_) hopen hless
  obtain ⟨ks, hks, hoptional, hkey⟩ := hs₁.saveKey
  have hat : s₁.cursor.At (stringText ps ++ r) s₁.cursor.index s₁.cursor.line :=
    ⟨hs₁.rest, rfl, rfl⟩
  rcases quoted_of_string hat with ⟨hmarked, -⟩ | ⟨-, c', hc', hat'⟩
  · rw [hps] at hmarked
    cases hmarked
  have hread : Scanner.quotedScalar s₁.cursor =
      .ok (.scalar (String.ofList (readChars ps)) false, c') := by
    rw [Scanner.quotedScalar, hc']
    rfl
  rw [token_of_string hs₁, Scanner.keyable, hks]
  dsimp only [bind, Except.bind]
  rw [hread]
  refine ⟨_, rfl, ⟨hs₁.flow, hs₁.indent, hs₁.indents, hoptional,
    congrArg (Token.scalar (String.ofList (readChars ps)) false :: ·) hs₁.tokens, hat'.rest⟩,
    fun hyes => ?_⟩
  obtain ⟨k, hk, hunique, hflow, htokens, hindex, hline⟩ := hkey (hallowed hyes)
  refine ⟨k, hk, hunique, hflow, htokens, ?_, ?_⟩
  · rw [hindex]
    exact hat'.index
  · rw [hline]
    exact hat'.line

theorem scalar_leads (x : Scalar) (h : s.Inside (flow + 1) ts (g ++ (x.text ++ (g' ++ r))))
    (hg : IsGap g) (hx : x.IsLegible) (hg' : IsGap g') (hr : EndsPlain r) :
    ∃ (s' : Scanner) (g'' : List Char), s.Leads s' ∧ IsGap g'' ∧
      s'.Inside (flow + 1) (x.token :: ts) (g'' ++ r) := by
  cases x with
  | string ps =>
    obtain ⟨s', hleads, hinside, -⟩ := string_leads h hg hx
    exact ⟨s', g', hleads, hg', hinside⟩
  | number n =>
    obtain ⟨s', hleads, hinside⟩ := h.word hg n.text_beginsWord n.text_isWordText hg' hr
    exact ⟨s', [], hleads, List.forall_mem_nil _, hinside⟩
  | truth b =>
    have hbegins : Scanner.BeginsWord (truthText b).toList := by
      cases b
      · exact ⟨_, _, rfl, .inl (by decide)⟩
      · exact ⟨_, _, rfl, .inl (by decide)⟩
    have hword : ∀ x ∈ (truthText b).toList, isWordText x = true :=
      List.all_eq_true.1 (by cases b <;> decide)
    obtain ⟨s', hleads, hinside⟩ := h.word hg hbegins hword hg' hr
    rw [Scalar.text, String.ofList_toList] at hinside
    exact ⟨s', [], hleads, List.forall_mem_nil _, hinside⟩

theorem isStale_of_distance {c : Cursor} {k : KeyStart} {distance breaks : Nat}
    (hindex : c.index = k.index + distance) (hline : c.line = k.line + breaks) :
    Scanner.isStale c k = !(breaks == 0 && decide (distance ≤ 1024)) := by
  have hlines : (k.line != c.line) = !(breaks == 0) := by
    rw [hline]
    cases breaks <;> simp
  have hfar : decide (1024 < c.index - k.index) = !decide (distance ≤ 1024) := by
    rw [hindex, Nat.add_sub_cancel_left, Bool.eq_iff_iff]
    simp
  rw [Scanner.isStale, hlines, hfar, Bool.not_and]

theorem key_leads {m : Member} (h : s.Inside (flow + 1) ts
      (g ++ (stringText m.key ++ (m.beforeColon.chars ++ ':' :: r))))
    (hallowed : s.keyAllowed = true) (hg : IsGap g) (hl : isMarked m.key = false)
    (hcolon : m.beforeColon.IsTabless) :
    ∃ s' : Scanner, s.Leads s' ∧ s'.Inside (flow + 1) (m.keyTokens.reverse ++ ts) r := by
  obtain ⟨s₁, hleads, hs₁, hkey⟩ := string_leads h hg hl
  obtain ⟨k, hk, hunique, hflow, htokens, hindex, hline⟩ := hkey hallowed
  obtain ⟨s₂, hs₂, hat, -, hkeys, hstep⟩ :=
    hs₁.step hcolon.isGap (.inr (Scanner.begins_of_mark (by decide) r))
  have hstale : Scanner.isStale s₂.cursor k = !m.isNear := by
    have hdistance : s₂.cursor.index =
        k.index + ((stringText m.key).length + m.beforeColon.chars.length) := by
      rw [hat.index, hindex, Nat.add_assoc]
    have hlines : s₂.cursor.line =
        k.line + (m.key.countP Piece.endsLine + breaksIn m.beforeColon.chars) := by
      rw [hat.line, hline, Nat.add_assoc]
    rw [isStale_of_distance hdistance hlines, Member.isNear]
  have htoken : s₂.token = s₂.valueMark := by
    have hinFlow : (s₂.flow != 0) = true := by
      rw [hs₂.flow]
      rfl
    unfold Scanner.token
    dsimp only
    rw [Scanner.Inside.peek hs₂, hinFlow]
    rfl
  -- the scanner still keeps the start of the key exactly if it is near
  obtain ⟨s₃, hok, hs₃⟩ : ∃ s₃, s₂.valueMark = .ok s₃ ∧
      s₃.Inside (flow + 1) (m.keyTokens.reverse ++ ts) r := by
    unfold Member.keyTokens
    cases hfind : s₂.keys.find? (fun k => k.flow == s₂.flow) with
    | some k' =>
      have hmem := List.mem_filter.1 (hkeys ▸ List.mem_of_find?_eq_some hfind)
      have hsame := List.find?_some hfind
      rw [hs₂.flow, beq_iff_eq] at hsame
      obtain rfl := hunique k' hmem.1 hsame
      have hnear : m.isNear = true := by simpa [hstale] using hmem.2
      rw [hnear]
      exact hs₂.valueMark_of_key hfind htokens
    | none =>
      have hnear : m.isNear = false := by
        rw [Bool.eq_false_iff]
        intro hnear
        have hmem : k ∈ s₂.keys := by
          rw [hkeys, List.mem_filter, hstale, hnear]
          exact ⟨hk, rfl⟩
        have hnot := List.find?_eq_none.1 hfind k hmem
        rw [hs₂.flow, hflow] at hnot
        simp at hnot
      rw [hnear]
      exact hs₂.valueMark_alone hfind
  refine ⟨s₃, hleads.tail ⟨?_, ?_, ?_⟩, hs₃⟩
  · rw [hstep, if_neg (List.cons_ne_nil _ _), htoken, hok]
  · rw [hs₃.tokens]
    unfold Member.keyTokens
    cases m.isNear <;> nofun
  · rw [hs₃.rest, hs₁.rest, List.length_append, List.length_cons]
    omega

end Steps

section Lists

variable {α : Type} {text : α → List Char} {tokens : α → List Token} {flow : Nat}

def Runs (text : α → List Char) (tokens : α → List Token) (flow : Nat) (x : α) : Prop :=
  ∀ {s : Scanner} {ts : List Token} {g g' r : List Char},
    s.Inside (flow + 1) ts (g ++ (text x ++ (g' ++ r))) → s.keyAllowed = true → IsGap g →
    IsGap g' → EndsPlain r → ∃ (s' : Scanner) (g'' : List Char), s.Leads s' ∧ IsGap g'' ∧
      s'.Inside (flow + 1) ((tokens x).reverse ++ ts) (g'' ++ r)

theorem endsPlain_moreText (xs : List (Spaced α)) {r : List Char} (hr : EndsPlain r) :
    EndsPlain (moreText text xs ++ r) := by
  cases xs with
  | nil => exact hr
  | cons x xs => exact ⟨',', _, rfl, .inr (by decide)⟩

theorem more_leads {xs : List (Spaced α)} (hruns : ∀ x ∈ xs, Runs text tokens flow x.it)
    (hgaps : ∀ x ∈ xs, x.before.IsTabless ∧ x.after.IsTabless) {s : Scanner} {ts : List Token}
    {g r : List Char} (h : s.Inside (flow + 1) ts (g ++ (moreText text xs ++ r))) (hg : IsGap g)
    (hr : EndsPlain r) : ∃ (s' : Scanner) (g'' : List Char), s.Leads s' ∧ IsGap g'' ∧
      s'.Inside (flow + 1) ((moreTokens tokens (xs.map Spaced.it)).reverse ++ ts) (g'' ++ r) := by
  induction xs generalizing s ts g with
  | nil => exact ⟨s, g, .refl, hg, h⟩
  | cons x xs ih =>
    obtain ⟨hx, hxs⟩ := List.forall_mem_cons.1 hruns
    obtain ⟨⟨hbefore, hafter⟩, hlater⟩ := List.forall_mem_cons.1 hgaps
    have htext : moreText text (x :: xs) ++ r = ',' :: (x.before.chars ++
        (text x.it ++ (x.after.chars ++ (moreText text xs ++ r)))) := by
      simp [moreText, Spaced.text]
    rw [htext] at h
    obtain ⟨s₁, hleads₁, hs₁, hallowed⟩ := h.comma hg
    obtain ⟨s₂, g₂, hleads₂, hg₂, hs₂⟩ := hx hs₁ hallowed hbefore.isGap hafter.isGap
      (endsPlain_moreText xs hr)
    obtain ⟨s₃, g₃, hleads₃, hg₃, hs₃⟩ := ih hxs hlater hs₂ hg₂
    refine ⟨s₃, g₃, hleads₁.trans (hleads₂.trans hleads₃), hg₃, ?_⟩
    have htokens : (moreTokens tokens ((x :: xs).map Spaced.it)).reverse ++ ts =
        (moreTokens tokens (xs.map Spaced.it)).reverse ++
          ((tokens x.it).reverse ++ .flowEntry :: ts) := by
      simp [moreTokens]
    rw [htokens]
    exact hs₃

theorem listed_leads {l : Listed α} (hruns : ∀ x ∈ l.parts, Runs text tokens flow x)
    (hgaps : ∀ g ∈ l.gaps, g.IsTabless) {s : Scanner} {ts : List Token} {r : List Char}
    (h : s.Inside (flow + 1) ts (l.text text ++ r)) (hallowed : s.keyAllowed = true)
    (hr : EndsPlain r) : ∃ (s' : Scanner) (g : List Char), s.Leads s' ∧ IsGap g ∧
      s'.Inside (flow + 1) ((listTokens tokens l.parts).reverse ++ ts) (g ++ r) := by
  cases l with
  | none gap => exact ⟨s, gap.chars, .refl, (hgaps gap (.head _)).isGap, h⟩
  | some x xs =>
    obtain ⟨hx, hxs⟩ := List.forall_mem_cons.1 hruns
    have hbefore : x.before.IsTabless := hgaps _ (by simp [Listed.gaps])
    have hafter : x.after.IsTabless := hgaps _ (by simp [Listed.gaps])
    have hlater : ∀ y ∈ xs, y.before.IsTabless ∧ y.after.IsTabless := by
      intro y hy
      have hmem (g : Gap) (hg : g = y.before ∨ g = y.after) : g ∈ (Listed.some x xs).gaps := by
        rw [Listed.gaps]
        refine .tail _ (.tail _ (List.mem_flatMap.2 ⟨y, hy, ?_⟩))
        simpa using hg
      exact ⟨hgaps _ (hmem _ (.inl rfl)), hgaps _ (hmem _ (.inr rfl))⟩
    simp only [Listed.text, Spaced.text, List.append_assoc] at h
    obtain ⟨s₁, g₁, hleads₁, hg₁, hs₁⟩ := hx h hallowed hbefore.isGap hafter.isGap
      (endsPlain_moreText xs hr)
    have hruns' : ∀ y ∈ xs, Runs text tokens flow y.it := fun y hy =>
      hxs y.it (List.mem_map_of_mem hy)
    obtain ⟨s₂, g₂, hleads₂, hg₂, hs₂⟩ := more_leads hruns' hlater hs₁ hg₁ hr
    refine ⟨s₂, g₂, hleads₁.trans hleads₂, hg₂, ?_⟩
    have htokens : (listTokens tokens (Listed.some x xs).parts).reverse ++ ts =
        (moreTokens tokens (xs.map Spaced.it)).reverse ++ ((tokens x.it).reverse ++ ts) := by
      simp [listTokens, Listed.parts]
    rw [htokens]
    exact hs₂

end Lists

theorem Scalar.runs {x : Scalar} (hx : x.IsLegible) (flow : Nat) :
    Runs Scalar.text (fun x => [x.token]) flow x :=
  fun h _ hg hg' hr => scalar_leads x h hg hx hg' hr

theorem Datum.leads {d : Datum} (hd : d.IsLegible) {flow : Nat} {s : Scanner} {ts : List Token}
    {g g' r : List Char} (h : s.Inside (flow + 1) ts (g ++ (d.text ++ (g' ++ r)))) (hg : IsGap g)
    (hg' : IsGap g') (hr : EndsPlain r) : ∃ (s' : Scanner) (g'' : List Char), s.Leads s' ∧
      IsGap g'' ∧ s'.Inside (flow + 1) (d.tokens.reverse ++ ts) (g'' ++ r) := by
  cases d with
  | scalar x => exact scalar_leads x h hg (hd.scalars x (.head _)) hg' hr
  | array xs =>
    have htext : Datum.text (.array xs) ++ (g' ++ r) =
        '[' :: (xs.text Scalar.text ++ ']' :: (g' ++ r)) := by
      simp [Datum.text]
    rw [htext] at h
    obtain ⟨s₁, hleads₁, hs₁, hallowed₁⟩ := h.opens hg (.inl ⟨rfl, rfl⟩)
    obtain ⟨s₂, g₂, hleads₂, hg₂, hs₂⟩ := listed_leads
      (fun x hx => Scalar.runs (hd.scalars x hx) (flow + 1)) hd.gaps hs₁ hallowed₁
      ⟨']', _, rfl, .inr (by decide)⟩
    obtain ⟨s₃, hleads₃, hs₃, -⟩ := hs₂.closes hg₂ (.inl ⟨rfl, rfl⟩)
    refine ⟨s₃, g', hleads₁.trans (hleads₂.trans hleads₃), hg', ?_⟩
    have htokens : (Datum.array xs).tokens.reverse ++ ts = .flowSequenceEnd ::
        ((listTokens (fun x => [x.token]) xs.parts).reverse ++ .flowSequence :: ts) := by
      simp [Datum.tokens]
    rw [htokens]
    exact hs₃

theorem Member.runs {m : Member} (hm : m.IsLegible) (flow : Nat) :
    Runs Member.text Member.tokens flow m := by
  intro s ts g g' r h hallowed hg hg' hr
  have htext : m.text ++ (g' ++ r) = stringText m.key ++ (m.beforeColon.chars ++
      ':' :: (m.afterColon.chars ++ (m.datum.text ++ (g' ++ r)))) := by
    simp [Member.text]
  rw [htext] at h
  obtain ⟨s₁, hleads₁, hs₁⟩ := key_leads h hallowed hg hm.key hm.beforeColon
  obtain ⟨s₂, g₂, hleads₂, hg₂, hs₂⟩ := Datum.leads hm.datum hs₁ hm.afterColon.isGap hg' hr
  refine ⟨s₂, g₂, hleads₁.trans hleads₂, hg₂, ?_⟩
  rw [Member.tokens, List.reverse_append, List.append_assoc]
  exact hs₂

structure Document.IsLegible (d : Document) : Prop where
  before : d.before.IsTabless
  members : ∀ m ∈ d.members.parts, m.IsLegible
  gaps : ∀ g ∈ d.members.gaps, g.IsTabless
  after : d.after.IsTabless

theorem Document.ofText_text {d : Document} (hd : d.IsLegible)
    (hallowed : ∀ x ∈ d.text, isAllowed x = true) : Token.ofText d.text = d.tokens := by
  have hstart : (Scanner.start d.text).Inside 0 []
      (d.before.chars ++ '\x7b' :: (d.members.text Member.text ++ '\x7d' :: d.after.chars)) :=
    ⟨rfl, rfl, rfl, nofun, rfl, rfl⟩
  obtain ⟨s₁, hleads₁, hs₁, hallowed₁⟩ := hstart.opens hd.before.isGap (.inr ⟨rfl, rfl⟩)
  obtain ⟨s₂, g₂, hleads₂, hg₂, hs₂⟩ := listed_leads
    (fun m hm => Member.runs (hd.members m hm) 0) hd.gaps hs₁ hallowed₁
    ⟨'\x7d', _, rfl, .inr (by decide)⟩
  obtain ⟨s₃, hleads₃, hs₃, -⟩ := hs₂.closes hg₂ (.inr ⟨rfl, rfl⟩)
  have hleads : (Scanner.start d.text).Leads s₃ := hleads₁.trans (hleads₂.trans hleads₃)
  obtain ⟨fuel, hfuel, hrun⟩ := hleads.run (Nat.lt_succ_self _)
  obtain ⟨fuel, rfl⟩ := Nat.exists_eq_add_one_of_ne_zero (Nat.ne_zero_of_lt hfuel)
  obtain ⟨s₄, hstep, htokens⟩ := hs₃.finish hd.after.isGap
  have hlast : Scanner.run (fuel + 1) s₃ = d.tokens.reverse := by
    rw [Scanner.run_of_last hstep (by rw [htokens]; rfl), htokens]
    simp [Document.tokens]
  unfold Token.ofText
  rw [if_pos (List.all_eq_true.2 hallowed)]
  change (Scanner.run ((Scanner.start d.text).cursor.rest.length + 1) _).reverse = _
  rw [hrun, hlast, List.reverse_reverse]

end NoteDecor.Json
