import NoteDecor.Proofs.Json.Scanning
import NoteDecor.Proofs.Yaml.CutShort

/-! What makes a JSON object illegible: tabs in its gaps and markers in its strings. What stands before
the first of them is read as it would be without it, but no token begins with a tab, and a marker cuts
a string short. -/

namespace NoteDecor.Json
open Yaml

theorem Gap.exists_tab {g : Gap} (h : ¬ g.IsTabless) :
    ∃ g₁ r, g.chars = g₁ ++ '\t' :: r ∧ IsGap g₁ := by
  have htab : '\t' ∈ g.chars := Decidable.not_not.1 h
  obtain ⟨g₁, r, hchars, hfirst⟩ := List.eq_append_cons_of_mem htab
  have hblank : ∀ c ∈ g₁, isSpace c = true := by
    intro c hc
    exact g.blank c (hchars ▸ List.mem_append_left _ hc)
  exact ⟨g₁, r, hchars, Gap.IsTabless.isGap (g := ⟨g₁, hblank⟩) hfirst⟩

theorem Gap.fails {g : Gap} (hg : ¬ g.IsTabless) {s : Scanner} {flow : Nat} {ts : List Token}
    {r : List Char} (h : s.Inside flow ts (g.chars ++ r)) (hts : ∀ t ∈ ts, t.IsInner) :
    s.Fails := by
  obtain ⟨g₁, r₁, hchars, hgap⟩ := Gap.exists_tab hg
  rw [hchars, List.append_assoc] at h
  exact h.fails_of_tab hgap hts

section Lists

variable {α : Type} {text : α → List Char} {tokens : α → List Token} {clean : α → Prop} {flow : Nat}

def Spoils (text : α → List Char) (flow : Nat) (x : α) : Prop :=
  ∀ {s : Scanner} {ts : List Token} {g r : List Char}, s.Inside (flow + 1) ts (g ++ (text x ++ r)) →
    s.keyAllowed = true → IsGap g → (∀ t ∈ ts, t.IsInner) → s.Fails

structure Fares (text : α → List Char) (tokens : α → List Token) (clean : α → Prop) (flow : Nat)
    (x : α) : Prop where
  runs : clean x → Runs text tokens flow x
  spoils : ¬ clean x → Spoils text flow x
  inner : ∀ t ∈ tokens x, t.IsInner

structure Spaced.IsLegible (clean : α → Prop) (x : Spaced α) : Prop where
  before : x.before.IsTabless
  it : clean x.it
  after : x.after.IsTabless

theorem Spaced.fails {x : Spaced α} (hx : Fares text tokens clean flow x.it)
    (htab : ¬ x.IsLegible clean) {s : Scanner} {ts : List Token} {r : List Char}
    (h : s.Inside (flow + 1) ts (x.text text ++ r)) (hallowed : s.keyAllowed = true)
    (hts : ∀ t ∈ ts, t.IsInner) : s.Fails := by
  rw [Spaced.text, List.append_assoc, List.append_assoc] at h
  by_cases hbefore : x.before.IsTabless
  · by_cases hclean : clean x.it
    · have hafter : ¬ x.after.IsTabless := fun hafter => htab ⟨hbefore, hclean, hafter⟩
      obtain ⟨g₁, r₁, hchars, hgap⟩ := Gap.exists_tab hafter
      rw [hchars, List.append_assoc] at h
      obtain ⟨s₁, g₂, hleads, hg₂, hs₁⟩ := hx.runs hclean h hallowed hbefore.isGap hgap
        ⟨'\t', _, rfl, by decide⟩
      refine hleads.fails (hs₁.fails_of_tab hg₂ ?_)
      exact List.forall_mem_append.2 ⟨fun t ht => hx.inner t (List.mem_reverse.1 ht), hts⟩
    · exact hx.spoils hclean h hallowed hbefore.isGap hts
  · exact Gap.fails hbefore h hts

theorem Spaced.passes {x : Spaced α} (hx : Fares text tokens clean flow x.it)
    (hclean : x.IsLegible clean) {s : Scanner} {ts : List Token} {r : List Char}
    (h : s.Inside (flow + 1) ts (x.text text ++ r)) (hallowed : s.keyAllowed = true)
    (hr : EndsPlain r) (hts : ∀ t ∈ ts, t.IsInner) :
    ∃ (s' : Scanner) (ts' : List Token) (g : List Char), s.Leads s' ∧ IsGap g ∧
      s'.Inside (flow + 1) ts' (g ++ r) ∧ ∀ t ∈ ts', t.IsInner := by
  rw [Spaced.text, List.append_assoc, List.append_assoc] at h
  obtain ⟨s', g, hleads, hg, hs'⟩ := hx.runs hclean.it h hallowed hclean.before.isGap
    hclean.after.isGap hr
  exact ⟨s', _, g, hleads, hg, hs',
    List.forall_mem_append.2 ⟨fun t ht => hx.inner t (List.mem_reverse.1 ht), hts⟩⟩

theorem moreText_fails {xs : List (Spaced α)} (hxs : ∀ x ∈ xs, Fares text tokens clean flow x.it)
    (htab : ∃ x ∈ xs, ¬ x.IsLegible clean) {s : Scanner} {ts : List Token} {g r : List Char}
    (h : s.Inside (flow + 1) ts (g ++ (moreText text xs ++ r))) (hg : IsGap g) (hr : EndsPlain r)
    (hts : ∀ t ∈ ts, t.IsInner) : s.Fails := by
  induction xs generalizing s ts g with
  | nil =>
    obtain ⟨x, hx, -⟩ := htab
    cases hx
  | cons x xs ih =>
    obtain ⟨hx, hxs⟩ := List.forall_mem_cons.1 hxs
    have htext : moreText text (x :: xs) ++ r =
        ',' :: (x.text text ++ (moreText text xs ++ r)) := by
      simp [moreText]
    rw [htext] at h
    obtain ⟨s₁, hleads₁, hs₁, hallowed⟩ := h.comma hg
    have hts₁ : ∀ t ∈ Token.flowEntry :: ts, t.IsInner := List.forall_mem_cons.2 ⟨trivial, hts⟩
    refine hleads₁.fails ?_
    by_cases hclean : x.IsLegible clean
    · have hlater : ∃ y ∈ xs, ¬ y.IsLegible clean := by
        obtain ⟨y, hy, hspoilt⟩ := htab
        rcases List.mem_cons.1 hy with rfl | hy
        · exact absurd hclean hspoilt
        · exact ⟨y, hy, hspoilt⟩
      obtain ⟨s₂, ts₂, g₂, hleads₂, hg₂, hs₂, hts₂⟩ :=
        Spaced.passes hx hclean hs₁ hallowed (endsPlain_moreText xs hr) hts₁
      exact hleads₂.fails (ih hxs hlater hs₂ hg₂ hts₂)
    · exact Spaced.fails hx hclean hs₁ hallowed hts₁

structure Listed.IsLegible (clean : α → Prop) (l : Listed α) : Prop where
  gaps : ∀ g ∈ l.gaps, g.IsTabless
  parts : ∀ x ∈ l.parts, clean x

theorem Listed.isLegible_some {x : Spaced α} {xs : List (Spaced α)} (hx : x.IsLegible clean)
    (hxs : ∀ y ∈ xs, y.IsLegible clean) : (Listed.some x xs).IsLegible clean := by
  constructor
  · refine List.forall_mem_cons.2 ⟨hx.before, List.forall_mem_cons.2 ⟨hx.after, fun g hg => ?_⟩⟩
    obtain ⟨y, hy, hg⟩ := List.mem_flatMap.1 hg
    simp only [List.mem_cons, List.not_mem_nil, or_false] at hg
    rcases hg with rfl | rfl
    · exact (hxs y hy).before
    · exact (hxs y hy).after
  · exact List.forall_mem_cons.2 ⟨hx.it, List.forall_mem_map.2 fun y hy => (hxs y hy).it⟩

theorem Listed.fails {l : Listed α} (hl : ∀ x ∈ l.parts, Fares text tokens clean flow x)
    (htab : ¬ l.IsLegible clean) {s : Scanner} {ts : List Token} {r : List Char}
    (h : s.Inside (flow + 1) ts (l.text text ++ r)) (hallowed : s.keyAllowed = true)
    (hr : EndsPlain r) (hts : ∀ t ∈ ts, t.IsInner) : s.Fails := by
  cases l with
  | none gap =>
    refine Gap.fails (fun hgap => htab ⟨?_, nofun⟩) h hts
    exact List.forall_mem_singleton.2 hgap
  | some x xs =>
    obtain ⟨hx, hxs⟩ := List.forall_mem_cons.1 hl
    have hxs : ∀ y ∈ xs, Fares text tokens clean flow y.it := List.forall_mem_map.1 hxs
    rw [Listed.text, List.append_assoc] at h
    by_cases hclean : x.IsLegible clean
    · have hlater : ∃ y ∈ xs, ¬ y.IsLegible clean := by
        by_contra hnone
        refine htab (Listed.isLegible_some hclean fun y hy => ?_)
        by_contra hspoilt
        exact hnone ⟨y, hy, hspoilt⟩
      obtain ⟨s₁, ts₁, g₁, hleads₁, hg₁, hs₁, hts₁⟩ :=
        Spaced.passes hx hclean h hallowed (endsPlain_moreText xs hr) hts
      exact hleads₁.fails (moreText_fails hxs hlater hs₁ hg₁ hr hts₁)
    · exact Spaced.fails hx hclean h hallowed hts

end Lists

theorem Scalar.token_isInner (x : Scalar) : x.token.IsInner := by cases x <;> trivial

theorem string_fails {ps : List Piece} {s : Scanner} {flow : Nat} {ts : List Token} {g r : List Char}
    (h : s.Inside flow ts (g ++ (stringText ps ++ r))) (hg : IsGap g) (hps : isMarked ps = true)
    (hts : ∀ t ∈ ts, t.IsInner) : s.Fails := by
  obtain ⟨s₁, hs₁, -, -, -, hstep⟩ := h.step hg (.inr (Scanner.begins_of_mark (by decide) _))
  refine ⟨s, .refl, ?_, h.tokens ▸ hts⟩
  obtain ⟨ks, hks, -, -⟩ := hs₁.saveKey
  have hat : s₁.cursor.At (stringText ps ++ r) s₁.cursor.index s₁.cursor.line :=
    ⟨hs₁.rest, rfl, rfl⟩
  rcases quoted_of_string hat with ⟨-, hfault⟩ | ⟨hmarked, -⟩
  · have hread : Scanner.quotedScalar s₁.cursor = .error .malformed := by
      rw [Scanner.quotedScalar, hfault]
      rfl
    have hne : stringText ps ++ r ≠ [] := List.cons_ne_nil _ _
    rw [hstep, if_neg hne, token_of_string hs₁, Scanner.keyable, hks]
    dsimp only [bind, Except.bind]
    rw [hread]
  · rw [hps] at hmarked
    cases hmarked

theorem Scalar.fails {x : Scalar} (hx : ¬ x.IsLegible) {s : Scanner} {flow : Nat} {ts : List Token}
    {g r : List Char} (h : s.Inside flow ts (g ++ (x.text ++ r))) (hg : IsGap g)
    (hts : ∀ t ∈ ts, t.IsInner) : s.Fails := by
  cases x with
  | string ps => exact string_fails h hg (Bool.not_eq_false _ ▸ hx) hts
  | number n => exact absurd trivial hx
  | truth b => exact absurd trivial hx

theorem Scalar.fares (x : Scalar) (flow : Nat) :
    Fares Scalar.text (fun x => [x.token]) Scalar.IsLegible flow x where
  runs hx := Scalar.runs hx flow
  spoils hx _ _ _ _ h _ hg hts := Scalar.fails hx h hg hts
  inner := List.forall_mem_singleton.2 x.token_isInner

theorem listTokens_isInner {α : Type} {tokens : α → List Token}
    (h : ∀ x, ∀ t ∈ tokens x, t.IsInner) (xs : List α) : ∀ t ∈ listTokens tokens xs, t.IsInner := by
  have hmore (xs : List α) : ∀ t ∈ moreTokens tokens xs, t.IsInner := by
    induction xs with
    | nil => exact List.forall_mem_nil _
    | cons x xs ih =>
      exact List.forall_mem_cons.2 ⟨trivial, List.forall_mem_append.2 ⟨h x, ih⟩⟩
  cases xs with
  | nil => exact List.forall_mem_nil _
  | cons x xs => exact List.forall_mem_append.2 ⟨h x, hmore xs⟩

theorem Datum.tokens_isInner (d : Datum) : ∀ t ∈ d.tokens, t.IsInner := by
  have hscalar (x : Scalar) : ∀ t ∈ [x.token], t.IsInner :=
    List.forall_mem_singleton.2 x.token_isInner
  cases d with
  | scalar x => exact hscalar x
  | array xs =>
    exact List.forall_mem_cons.2 ⟨trivial, List.forall_mem_append.2
      ⟨listTokens_isInner hscalar xs.parts, List.forall_mem_singleton.2 trivial⟩⟩

theorem Member.keyTokens_isInner (m : Member) : ∀ t ∈ m.keyTokens, t.IsInner := by
  have hkey : ∀ t ∈ (if m.isNear then [Token.key] else []), t.IsInner := by
    cases m.isNear
    · exact List.forall_mem_nil _
    · exact List.forall_mem_singleton.2 trivial
  exact List.forall_mem_append.2 ⟨hkey,
    List.forall_mem_cons.2 ⟨trivial, List.forall_mem_singleton.2 trivial⟩⟩

theorem Member.tokens_isInner (m : Member) : ∀ t ∈ m.tokens, t.IsInner :=
  List.forall_mem_append.2 ⟨m.keyTokens_isInner, m.datum.tokens_isInner⟩

theorem Datum.fails {d : Datum} (hd : ¬ d.IsLegible) {flow : Nat} {s : Scanner} {ts : List Token}
    {g r : List Char} (h : s.Inside (flow + 1) ts (g ++ (d.text ++ r))) (hg : IsGap g)
    (hts : ∀ t ∈ ts, t.IsInner) : s.Fails := by
  cases d with
  | scalar x =>
    refine Scalar.fails (fun hx => hd ⟨?_, List.forall_mem_nil _⟩) h hg hts
    exact List.forall_mem_singleton.2 hx
  | array xs =>
    have htext : Datum.text (.array xs) ++ r = '[' :: (xs.text Scalar.text ++ ']' :: r) := by
      simp [Datum.text]
    rw [htext] at h
    obtain ⟨s₁, hleads₁, hs₁, hallowed₁⟩ := h.opens hg (.inl ⟨rfl, rfl⟩)
    refine hleads₁.fails (Listed.fails (fun x _ => x.fares (flow + 1))
      (fun hxs => hd ⟨hxs.parts, hxs.gaps⟩) hs₁ hallowed₁ ⟨']', _, rfl, .inr (by decide)⟩ ?_)
    exact List.forall_mem_cons.2 ⟨trivial, hts⟩

theorem Member.spoils {m : Member} (hm : ¬ m.IsLegible) (flow : Nat) :
    Spoils Member.text flow m := by
  intro s ts g r h hallowed hg hts
  have htext : m.text ++ r = stringText m.key ++ (m.beforeColon.chars ++
      ':' :: (m.afterColon.chars ++ (m.datum.text ++ r))) := by
    simp [Member.text]
  rw [htext] at h
  cases hkey : isMarked m.key with
  | true => exact string_fails h hg hkey hts
  | false =>
    by_cases hbefore : m.beforeColon.IsTabless
    · obtain ⟨s₁, hleads, hs₁⟩ := key_leads h hallowed hg hkey hbefore
      have hts₁ : ∀ t ∈ m.keyTokens.reverse ++ ts, t.IsInner :=
        List.forall_mem_append.2 ⟨fun t ht => m.keyTokens_isInner t (List.mem_reverse.1 ht), hts⟩
      refine hleads.fails ?_
      by_cases hafter : m.afterColon.IsTabless
      · have hdatum : ¬ m.datum.IsLegible := fun hdatum => hm ⟨hkey, hbefore, hafter, hdatum⟩
        exact Datum.fails hdatum hs₁ hafter.isGap hts₁
      · exact Gap.fails hafter hs₁ hts₁
    · obtain ⟨s₁, hleads, hs₁, -⟩ := string_leads h hg hkey
      exact hleads.fails (Gap.fails hbefore hs₁ (List.forall_mem_cons.2 ⟨trivial, hts⟩))

theorem Member.fares (m : Member) (flow : Nat) :
    Fares Member.text Member.tokens Member.IsLegible flow m where
  runs hm := Member.runs hm flow
  spoils hm := Member.spoils hm flow
  inner := m.tokens_isInner

namespace Document

variable {d : Document}

theorem start_fails (hd : ¬ d.IsLegible) : (Scanner.start d.text).Fails := by
  have hstart : (Scanner.start d.text).Inside 0 [] (d.before.chars ++
      '\x7b' :: (d.members.text Member.text ++ '\x7d' :: d.after.chars)) :=
    ⟨rfl, rfl, rfl, List.forall_mem_nil _, rfl, rfl⟩
  by_cases hbefore : d.before.IsTabless
  · obtain ⟨s₁, hleads₁, hs₁, hallowed₁⟩ := hstart.opens hbefore.isGap (.inr ⟨rfl, rfl⟩)
    have hts₁ : ∀ t ∈ [Token.flowMapping], t.IsInner := List.forall_mem_singleton.2 trivial
    have hends : EndsPlain ('\x7d' :: d.after.chars) := ⟨'\x7d', _, rfl, .inr (by decide)⟩
    have hmembers : ∀ m ∈ d.members.parts, Fares Member.text Member.tokens Member.IsLegible 0 m :=
      fun m _ => m.fares 0
    refine hleads₁.fails ?_
    by_cases hinside : d.members.IsLegible Member.IsLegible
    · have hafter : ¬ d.after.IsTabless := fun hafter =>
        hd ⟨hbefore, hinside.parts, hinside.gaps, hafter⟩
      obtain ⟨s₂, g₂, hleads₂, hg₂, hs₂⟩ := listed_leads
        (fun m hm => (hmembers m hm).runs (hinside.parts m hm)) hinside.gaps hs₁ hallowed₁ hends
      obtain ⟨s₃, hleads₃, hs₃, -⟩ := hs₂.closes hg₂ (.inr ⟨rfl, rfl⟩)
      have hlist := listTokens_isInner Member.tokens_isInner d.members.parts
      rw [← List.append_nil d.after.chars] at hs₃
      refine hleads₂.fails (hleads₃.fails (Gap.fails hafter hs₃ ?_))
      exact List.forall_mem_cons.2 ⟨trivial, List.forall_mem_append.2
        ⟨fun t ht => hlist t (List.mem_reverse.1 ht), hts₁⟩⟩
    · exact Listed.fails hmembers hinside hs₁ hallowed₁ hends hts₁
  · exact Gap.fails hbefore hstart (List.forall_mem_nil _)

theorem ofTokens?_of_illegible (hd : ¬ d.IsLegible) (hallowed : ∀ x ∈ d.text, isAllowed x = true) :
    Node.ofTokens? (Token.ofText d.text) = .error .malformed :=
  Node.ofTokens?_cutShort ((start_fails hd).ofText hallowed)

end Document

end NoteDecor.Json
