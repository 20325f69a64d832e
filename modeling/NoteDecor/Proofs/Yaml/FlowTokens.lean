import Mathlib.Data.Bool.AllAny
import Mathlib.Logic.Relation
import NoteDecor.Proofs.Steps
import NoteDecor.Proofs.Yaml.PlainWords

/-! Tokens of flow, where neither columns nor the ends of lines open or close anything. A scanner goes
from one mark or scalar to the next, whatever gaps are between them. -/

namespace NoteDecor.Yaml

def Scanner.Advances (s s' : Scanner) : Prop :=
  s.step = .ok s' ∧ s'.tokens.head? ≠ some .streamEnd ∧
    s'.cursor.rest.length < s.cursor.rest.length

def Scanner.Leads : Scanner → Scanner → Prop := Relation.ReflTransGen Scanner.Advances

theorem Scanner.Leads.run {s s' : Scanner} (h : s.Leads s') {fuel : Nat}
    (hfuel : s.cursor.rest.length < fuel) : ∃ fuel', s'.cursor.rest.length < fuel' ∧
      Scanner.run fuel s = Scanner.run fuel' s' := by
  induction h with
  | refl =>
    refine ⟨fuel, ?_, ?_⟩
    · exact hfuel
    · rfl
  | tail _ hstep ih =>
    obtain ⟨fuel₁, hfuel₁, hrun⟩ := ih
    obtain ⟨hok, hopen, hless⟩ := hstep
    obtain ⟨fuel₂, rfl⟩ := Nat.exists_eq_add_one_of_ne_zero (Nat.ne_zero_of_lt hfuel₁)
    refine ⟨fuel₂, by omega, hrun.trans ?_⟩
    rw [Scanner.run]
    unfold Scanner.goOn
    rw [hok]
    exact if_neg hopen

structure Scanner.Inside (s : Scanner) (flow : Nat) (tokens : List Token) (rest : List Char) :
    Prop where
  flow : s.flow = flow
  indent : s.indent = -1
  indents : s.indents = []
  optional : ∀ k ∈ s.keys, k.required = false
  tokens : s.tokens = tokens
  rest : s.cursor.rest = rest

def Begins (r : List Char) : Prop :=
  ∃ x u, r = x :: u ∧ (x == ' ' || isBreak x) = false ∧ x ≠ '#' ∧ x ≠ '\uFEFF'

theorem Begins.settles {r : List Char} (h : Begins r) : Settles r := by
  obtain ⟨x, u, rfl, hx, -⟩ := h
  rintro y ⟨⟩
  exact hx

namespace Scanner

variable {s : Scanner} {flow : Nat} {ts : List Token} {g r u : List Char}

theorem dropStale_optional {ks : List KeyStart} (h : ∀ k ∈ ks, k.required = false) (c : Cursor) :
    dropStale ks c = .ok (ks.filter fun k => !isStale c k) := by
  induction ks with
  | nil => rfl
  | cons k ks ih =>
    obtain ⟨hk, hks⟩ := List.forall_mem_cons.1 h
    rw [dropStale, ih hks, hk]
    cases hstale : isStale c k <;> simp [hstale, bind, Except.bind, pure, Except.pure]

theorem Inside.unwind (h : s.Inside flow ts r) (column : Int) : s.unwind column = s := by
  unfold Scanner.unwind
  rw [h.indents]
  split
  · rfl
  · rw [closeBlocks, ← h.indents]

theorem Inside.dropKey (h : s.Inside flow ts r) :
    s.dropKey = .ok { s with keys := s.keys.filter fun k => k.flow != s.flow } := by
  have hnone : (s.keys.any fun k => k.flow == s.flow && k.required) = false := by
    rw [List.any_eq_false]
    intro k hk
    simp [h.optional k hk]
  rw [Scanner.dropKey, hnone]
  rfl

theorem Inside.withKeys (h : s.Inside flow ts r) {ks : List KeyStart}
    (hks : ∀ k ∈ ks, k.required = false) : Inside { s with keys := ks } flow ts r :=
  ⟨h.flow, h.indent, h.indents, hks, h.tokens, h.rest⟩

theorem Inside.filtered (h : s.Inside flow ts r) (p : KeyStart → Bool) :
    Inside { s with keys := s.keys.filter p } flow ts r :=
  h.withKeys fun k hk => h.optional k ((List.mem_filter.1 hk).1)

theorem Inside.step (h : s.Inside flow ts (g ++ r)) (hg : IsGap g) (hr : r = [] ∨ Begins r) :
    ∃ s' : Scanner, s'.Inside flow ts r ∧
      s'.cursor.At r (s.cursor.index + g.length) (s.cursor.line + breaksIn g) ∧
      (s.keyAllowed = true → s'.keyAllowed = true) ∧
      s'.keys = s.keys.filter (fun k => !isStale s'.cursor k) ∧
      s.step = if r = [] then (do return (← s'.endDocument).emit .streamEnd) else s'.token := by
  have hat : s.cursor.At (g ++ r) s.cursor.index s.cursor.line := ⟨h.rest, rfl, rfl⟩
  have hsettles : Settles r := by
    rcases hr with rfl | hr
    · exact nofun
    · exact hr.settles
  have hcomment : r.head? ≠ some '#' := by
    rcases hr with rfl | ⟨x, u, rfl, -, hx, -⟩
    · exact nofun
    · exact fun heq => hx (Option.some.inj heq)
  have hmark : s.cursor.peek ≠ '\uFEFF' := by
    rw [hat.peek_eq]
    cases g with
    | nil =>
      rcases hr with rfl | ⟨x, u, rfl, -, -, hx⟩
      · decide
      · exact hx
    | cons y g =>
      change y ≠ '\uFEFF'
      rcases hg y (.head _) with rfl | rfl | rfl <;> decide
  have hfuel : g.length < s.cursor.rest.length + 1 := by
    rw [h.rest, List.length_append]
    omega
  -- the gap is passed first, and keys are forgotten by where the scanner then stands
  obtain ⟨c', hc', hat'⟩ := skipGap_of_gap hg hsettles hcomment hfuel hat
  have hto : s.toNextToken =
      (s.moveTo c').allowKey (s.keyAllowed || (s.flow == 0 && breaksIn g != 0)) := by
    unfold toNextToken
    dsimp only
    rw [if_neg (by simp [hmark])]
    exact hc'
  have hmoved : Inside ((s.moveTo c').allowKey
      (s.keyAllowed || (s.flow == 0 && breaksIn g != 0))) flow ts r :=
    ⟨h.flow, h.indent, h.indents, h.optional, h.tokens, hat'.rest⟩
  refine ⟨_, hmoved.filtered fun k => !isStale c' k, hat', fun hallowed => ?_, rfl, ?_⟩
  · simp [Scanner.allowKey, hallowed]
  · unfold Scanner.step
    rw [hto]
    dsimp only
    rw [dropStale_optional hmoved.optional]
    change (let s := Scanner.unwind _ _; if s.cursor.rest.isEmpty = true then _ else _) = _
    rw [(hmoved.filtered _).unwind]
    dsimp only [Scanner.moveTo, Scanner.allowKey]
    rw [hat'.rest]
    cases r <;> rfl

theorem Inside.advance {Q : Scanner → Prop} {flow' : Nat} {ts' : List Token} {r' : List Char}
    (h : s.Inside flow ts (g ++ r)) (hg : IsGap g) (hr : Begins r)
    (htoken : ∀ s' : Scanner, s'.Inside flow ts r → (s.keyAllowed = true → s'.keyAllowed = true) →
      ∃ s'' : Scanner, s'.token = .ok s'' ∧ s''.Inside flow' ts' r' ∧ Q s'')
    (hopen : ts'.head? ≠ some .streamEnd) (hless : r'.length < r.length) :
    ∃ s' : Scanner, s.Leads s' ∧ s'.Inside flow' ts' r' ∧ Q s' := by
  obtain ⟨s₁, hinside, -, hallowed, -, hstep⟩ := h.step hg (.inr hr)
  obtain ⟨s₂, hok, hinside', hQ⟩ := htoken s₁ hinside hallowed
  have hne : r ≠ [] := by
    obtain ⟨x, u, rfl, -⟩ := hr
    exact List.cons_ne_nil _ _
  refine ⟨s₂, .single ⟨?_, ?_, ?_⟩, hinside', hQ⟩
  · rw [hstep, if_neg hne, hok]
  · rw [hinside'.tokens]
    exact hopen
  · rw [hinside'.rest, h.rest, List.length_append]
    omega

theorem Inside.saveKey (h : s.Inside flow ts r) : ∃ ks, s.saveKey = .ok { s with keys := ks } ∧
    (∀ k ∈ ks, k.required = false) ∧
    (s.keyAllowed = true → ∃ k ∈ ks, (∀ k' ∈ ks, k'.flow = flow → k' = k) ∧ k.flow = flow ∧
      k.tokens = ts.length ∧ k.index = s.cursor.index ∧ k.line = s.cursor.line) := by
  unfold Scanner.saveKey
  by_cases hallowed : s.keyAllowed = true
  · have hindent : (s.indent == (s.cursor.column : Int)) = false := by
      rw [h.indent]
      exact beq_false_of_ne (by omega)
    rw [if_pos hallowed, h.dropKey]
    refine ⟨_, rfl, ?_, fun _ => ⟨_, List.mem_append_right _ (.head _), ?_, h.flow,
      congrArg List.length h.tokens, rfl, rfl⟩⟩
    · intro k hk
      rcases List.mem_append.1 hk with hk | hk
      · exact h.optional k (List.mem_filter.1 hk).1
      · rw [List.mem_singleton.1 hk]
        simp [hindent]
    · intro k hk hflow
      rcases List.mem_append.1 hk with hk | hk
      · have hother := (List.mem_filter.1 hk).2
        rw [h.flow, hflow] at hother
        simp at hother
      · exact List.mem_singleton.1 hk
  · rw [if_neg hallowed]
    exact ⟨s.keys, rfl, h.optional, fun hyes => absurd hyes hallowed⟩

theorem begins_of_mark {x : Char} (hx : x = '[' ∨ x = ']' ∨ x = '\x7b' ∨ x = '\x7d' ∨ x = ',' ∨
    x = ':' ∨ x = '\x22') (u : List Char) : Begins (x :: u) := by
  refine ⟨x, u, rfl, ?_⟩
  rcases hx with rfl | rfl | rfl | rfl | rfl | rfl | rfl <;> decide

theorem Inside.peek {x : Char} (h : s.Inside flow ts (x :: u)) : s.cursor.peek = x := by
  rw [Cursor.peek, h.rest]
  rfl

theorem Inside.next {x : Char} (h : s.Inside flow ts (x :: u)) (hx : isBreak x = false) :
    s.cursor.next.rest = u :=
  (Cursor.At.next ⟨h.rest, rfl, rfl⟩ hx).rest

theorem Inside.opens {x : Char} {t : Token} (h : s.Inside flow ts (g ++ x :: u)) (hg : IsGap g)
    (hx : x = '[' ∧ t = .flowSequence ∨ x = '\x7b' ∧ t = .flowMapping) :
    ∃ s' : Scanner, s.Leads s' ∧ s'.Inside (flow + 1) (t :: ts) u ∧ s'.keyAllowed = true := by
  have hbegins : Begins (x :: u) :=
    begins_of_mark (hx.elim (fun hx => .inl hx.1) fun hx => .inr (.inr (.inl hx.1))) u
  refine h.advance hg hbegins (fun s' hs' _ => ?_) ?_ (Nat.lt_succ_self _)
  · have hbreak : isBreak x = false := by rcases hx with ⟨rfl, -⟩ | ⟨rfl, -⟩ <;> rfl
    have htoken : s'.token = s'.flowStart t := by
      unfold Scanner.token
      dsimp only
      rw [hs'.peek]
      rcases hx with ⟨rfl, rfl⟩ | ⟨rfl, rfl⟩ <;> rfl
    obtain ⟨ks, hks, hoptional, -⟩ := hs'.saveKey
    rw [htoken, Scanner.flowStart, hks]
    exact ⟨_, rfl, ⟨congrArg (· + 1) hs'.flow, hs'.indent, hs'.indents, hoptional,
      congrArg (t :: ·) hs'.tokens, hs'.next hbreak⟩, rfl⟩
  · rcases hx with ⟨-, rfl⟩ | ⟨-, rfl⟩ <;> nofun

theorem Inside.closes {x : Char} {t : Token} (h : s.Inside (flow + 1) ts (g ++ x :: u))
    (hg : IsGap g)
    (hx : x = ']' ∧ t = .flowSequenceEnd ∨ x = '\x7d' ∧ t = .flowMappingEnd) :
    ∃ s' : Scanner, s.Leads s' ∧ s'.Inside flow (t :: ts) u ∧ True := by
  have hbegins : Begins (x :: u) := by
    refine begins_of_mark ?_ u
    rcases hx with ⟨rfl, -⟩ | ⟨rfl, -⟩ <;> decide
  refine h.advance hg hbegins (fun s' hs' _ => ?_) ?_ (Nat.lt_succ_self _)
  · have hbreak : isBreak x = false := by rcases hx with ⟨rfl, -⟩ | ⟨rfl, -⟩ <;> rfl
    have htoken : s'.token = s'.flowEnd t := by
      unfold Scanner.token
      dsimp only
      rw [hs'.peek]
      rcases hx with ⟨rfl, rfl⟩ | ⟨rfl, rfl⟩ <;> rfl
    have hflow : s'.flow - 1 = flow := by rw [hs'.flow, Nat.add_sub_cancel]
    rw [htoken, Scanner.flowEnd, hs'.dropKey]
    exact ⟨_, rfl, ⟨hflow, hs'.indent, hs'.indents,
      (hs'.filtered fun k => k.flow != s'.flow).optional, congrArg (t :: ·) hs'.tokens,
      hs'.next hbreak⟩, trivial⟩
  · rcases hx with ⟨-, rfl⟩ | ⟨-, rfl⟩ <;> nofun

theorem Inside.comma (h : s.Inside flow ts (g ++ ',' :: u)) (hg : IsGap g) :
    ∃ s' : Scanner, s.Leads s' ∧ s'.Inside flow (.flowEntry :: ts) u ∧ s'.keyAllowed = true := by
  refine h.advance hg (begins_of_mark (by decide) u) (fun s' hs' _ => ?_) nofun
    (Nat.lt_succ_self _)
  have htoken : s'.token = s'.flowEntry := by
    unfold Scanner.token
    dsimp only
    rw [hs'.peek]
    rfl
  have hallowed : Inside (s'.allowKey true) flow ts (',' :: u) :=
    ⟨hs'.flow, hs'.indent, hs'.indents, hs'.optional, hs'.tokens, hs'.rest⟩
  rw [htoken, Scanner.flowEntry, hallowed.dropKey]
  exact ⟨_, rfl, ⟨hs'.flow, hs'.indent, hs'.indents,
    (hs'.filtered fun k => k.flow != s'.flow).optional, congrArg (Token.flowEntry :: ·) hs'.tokens,
    hs'.next (by decide)⟩, rfl⟩

theorem Inside.valueMark_of_key {k : KeyStart} {t : Token}
    (h : s.Inside (flow + 1) (t :: ts) (':' :: u))
    (hfind : s.keys.find? (fun k => k.flow == s.flow) = some k) (hk : k.tokens = ts.length) :
    ∃ s', s.valueMark = .ok s' ∧ s'.Inside (flow + 1) (.value :: t :: .key :: ts) u := by
  have hnewer : s.tokens.length - k.tokens = 1 := by
    rw [h.tokens, hk, List.length_cons]
    omega
  have hinserted : Inside (Scanner.insertAt { s with
      keys := s.keys.filter fun k => k.flow != s.flow } k.tokens .key) (flow + 1)
      (t :: .key :: ts) (':' :: u) := by
    refine ⟨h.flow, h.indent, h.indents, (h.filtered fun k => k.flow != s.flow).optional, ?_, h.rest⟩
    unfold Scanner.insertAt
    dsimp only
    rw [hnewer, h.tokens]
    rfl
  have hflow : ¬ ((Scanner.insertAt { s with
      keys := s.keys.filter fun k => k.flow != s.flow } k.tokens .key).flow == 0) = true := by
    rw [hinserted.flow]
    exact Bool.false_ne_true
  unfold Scanner.valueMark
  rw [hfind]
  refine ⟨_, rfl, ?_⟩
  rw [if_neg hflow]
  exact ⟨hinserted.flow, hinserted.indent, hinserted.indents, hinserted.optional,
    congrArg (Token.value :: ·) hinserted.tokens, h.next (by decide)⟩

theorem Inside.valueMark_alone (h : s.Inside (flow + 1) ts (':' :: u))
    (hfind : s.keys.find? (fun k => k.flow == s.flow) = none) :
    ∃ s', s.valueMark = .ok s' ∧ s'.Inside (flow + 1) (.value :: ts) u := by
  have hopen : s.openBlock .blockMapping = .ok s := by
    unfold Scanner.openBlock
    rw [h.flow]
    rfl
  have hallowed : Inside (s.allowKey (s.flow == 0)) (flow + 1) ts (':' :: u) :=
    ⟨h.flow, h.indent, h.indents, h.optional, h.tokens, h.rest⟩
  unfold Scanner.valueMark
  rw [hfind, hopen]
  dsimp only [bind, Except.bind]
  rw [hallowed.dropKey]
  exact ⟨_, rfl, h.flow, h.indent, h.indents, (h.filtered fun k => k.flow != s.flow).optional,
    congrArg (Token.value :: ·) h.tokens, h.next (by decide)⟩

def BeginsWord (t : List Char) : Prop :=
  ∃ x u, t = x :: u ∧ (x.isAlphanum = true ∨ x = '-' ∧ ∃ y v, u = y :: v ∧ y.isAlphanum = true)

theorem ne_of_isAlphanum {x y : Char} (hx : x.isAlphanum = true) (hy : y.isAlphanum = false) :
    x ≠ y := by
  rintro rfl
  rw [hx] at hy
  cases hy

theorem not_gap_of_isAlphanum {x : Char} (hx : x.isAlphanum = true) : isGap x = false := by
  have hspace : x ≠ ' ' := ne_of_isAlphanum hx (by decide)
  have htab : x ≠ '\t' := ne_of_isAlphanum hx (by decide)
  have hnull : x ≠ '\x00' := ne_of_isAlphanum hx (by decide)
  have hfeed : x ≠ '\n' := ne_of_isAlphanum hx (by decide)
  have hreturn : x ≠ '\r' := ne_of_isAlphanum hx (by decide)
  have hnext : x ≠ '\u0085' := ne_of_isAlphanum hx (by decide)
  have hline : x ≠ '\u2028' := ne_of_isAlphanum hx (by decide)
  have hparagraph : x ≠ '\u2029' := ne_of_isAlphanum hx (by decide)
  simp [isGap, isEnd, isBreak, hspace, htab, hnull, hfeed, hreturn, hnext, hline, hparagraph]

section Words

variable {c : Cursor} {x y : Char} {u : List Char}

theorem startsPlain_of_isAlphanum (hrest : c.rest = x :: u) (hx : x.isAlphanum = true) :
    startsPlain c true = true := by
  have hpeek : c.peek = x := by
    rw [Cursor.peek, hrest]
    rfl
  have hmark : isIn "-?:,[]\x7b\x7d#&*!|>'\"%@\x60" x = false := by
    rw [Bool.eq_false_iff]
    intro hin
    have hne : ∀ y ∈ "-?:,[]\x7b\x7d#&*!|>'\"%@\x60".toList, y.isAlphanum = false :=
      List.all_iff_forall_prop.1 (by decide)
    rw [hne x (List.contains_iff_mem.1 hin)] at hx
    cases hx
  unfold startsPlain
  dsimp only
  rw [hpeek, not_gap_of_isAlphanum hx, hmark]
  rfl

theorem peekAt_of_hyphen (hrest : c.rest = '-' :: y :: u) : c.peekAt 1 = y := by
  rw [Cursor.peekAt, hrest]
  rfl

theorem startsPlain_of_hyphen (hrest : c.rest = '-' :: y :: u) (hy : y.isAlphanum = true) :
    startsPlain c true = true := by
  have hpeek : c.peek = '-' := by
    rw [Cursor.peek, hrest]
    rfl
  unfold startsPlain
  dsimp only
  rw [hpeek, peekAt_of_hyphen hrest, not_gap_of_isAlphanum hy]
  rfl

theorem not_marker_of_hyphen (hrest : c.rest = '-' :: y :: u) (hy : y.isAlphanum = true) :
    c.isAtMarker = false := by
  have hhyphens : c.isAt "---" = false := by
    have hne : '-' ≠ y := (ne_of_isAlphanum hy (by decide)).symm
    rw [Cursor.isAt, hrest]
    change (true && (('-' == y) && _)) = false
    rw [beq_false_of_ne hne]
    rfl
  have hpoints : c.isAt "..." = false := by
    rw [Cursor.isAt, hrest]
    rfl
  rw [Cursor.isAtMarker, hhyphens, hpoints]
  rfl

end Words

theorem Inside.token_word {t : List Char} (h : s.Inside (flow + 1) ts (t ++ r))
    (ht : BeginsWord t) : s.token = s.plainScalar := by
  obtain ⟨x, u, rfl, hx⟩ := ht
  have hpeek : s.cursor.peek = x := by
    rw [Cursor.peek, h.rest]
    rfl
  have hflow : (s.flow != 0) = true := by
    rw [h.flow]
    rfl
  unfold Scanner.token
  dsimp only
  rw [hpeek, hflow]
  rcases hx with hx | ⟨rfl, y, v, rfl, hy⟩
  · have hother {y : Char} (hy : y.isAlphanum = false) : (x == y) = false :=
      beq_false_of_ne (ne_of_isAlphanum hx hy)
    have hpercent : (x == '%') = false := hother (by decide)
    have hminus : (x == '-') = false := hother (by decide)
    have hpoint : (x == '.') = false := hother (by decide)
    have hquestion : (x == '?') = false := hother (by decide)
    have hcolon : (x == ':') = false := hother (by decide)
    have hbar : (x == '|') = false := hother (by decide)
    have hgreater : (x == '>') = false := hother (by decide)
    have hstarts := startsPlain_of_isAlphanum h.rest hx
    split
    all_goals first
      | exact absurd hx (by decide)
      | simp [hpercent, hminus, hpoint, hquestion, hcolon, hbar, hgreater, hstarts]
  · rw [peekAt_of_hyphen h.rest, not_gap_of_isAlphanum hy, not_marker_of_hyphen h.rest hy]
    simp [startsPlain_of_hyphen h.rest hy]

theorem BeginsWord.head {t : List Char} (ht : BeginsWord t) : ∃ x u, t = x :: u ∧
    isGap x = false ∧ x ≠ '#' ∧ x ≠ '\uFEFF' := by
  obtain ⟨x, u, rfl, hx⟩ := ht
  refine ⟨x, u, rfl, ?_⟩
  rcases hx with hx | ⟨rfl, -⟩
  · exact ⟨not_gap_of_isAlphanum hx, ne_of_isAlphanum hx (by decide),
      ne_of_isAlphanum hx (by decide)⟩
  · decide

theorem BeginsWord.begins {t : List Char} (ht : BeginsWord t) (r : List Char) :
    Begins (t ++ r) := by
  obtain ⟨x, u, rfl, hgap, hhash, hmark⟩ := ht.head
  refine ⟨x, u ++ r, rfl, ?_, hhash, hmark⟩
  simp only [isGap, isEnd, Bool.or_eq_false_iff] at hgap
  rw [hgap.1.1, hgap.2.2]
  rfl

theorem Inside.word_token {t g' : List Char} (h : s.Inside (flow + 1) ts (t ++ (g' ++ r)))
    (ht : BeginsWord t) (hword : ∀ x ∈ t, isWordText x = true) (hg' : IsGap g')
    (hr : EndsPlain r) : ∃ s' : Scanner, s.token = .ok s' ∧
      s'.Inside (flow + 1) (.scalar (String.ofList t) true :: ts) r := by
  obtain ⟨x, u, hcons, -, hhash, -⟩ := ht.head
  have hne : t ≠ [] := by
    rw [hcons]
    exact List.cons_ne_nil _ _
  have hcomment : t.head? ≠ some '#' := by
    rw [hcons]
    exact fun heq => hhash (Option.some.inj heq)
  have hflow : (s.flow != 0) = true := by
    rw [h.flow]
    rfl
  obtain ⟨ks, hks, hoptional, -⟩ := h.saveKey
  have hat : s.cursor.At (t ++ (g' ++ r)) s.cursor.index s.cursor.line := ⟨h.rest, rfl, rfl⟩
  obtain ⟨ended, c', hc', hat'⟩ := plain_of_word (s.indent + 1) hword hne hcomment hg' hr hat
  have hplain : Scalar.plain (s.flow != 0) (s.indent + 1) s.cursor = (t, ended, c') := by
    rw [hflow]
    exact hc'
  rw [h.token_word ht, Scanner.plainScalar, hks]
  dsimp only [bind, Except.bind]
  rw [hplain]
  exact ⟨_, rfl, h.flow, h.indent, h.indents, hoptional,
    congrArg (Token.scalar (String.ofList t) true :: ·) h.tokens, hat'.rest⟩

theorem Inside.word {t g' : List Char} (h : s.Inside (flow + 1) ts (g ++ (t ++ (g' ++ r))))
    (hg : IsGap g) (ht : BeginsWord t) (hword : ∀ x ∈ t, isWordText x = true) (hg' : IsGap g')
    (hr : EndsPlain r) : ∃ s' : Scanner, s.Leads s' ∧
      s'.Inside (flow + 1) (.scalar (String.ofList t) true :: ts) r := by
  have hless : r.length < (t ++ (g' ++ r)).length := by
    obtain ⟨x, u, rfl, -⟩ := ht.head
    simp only [List.length_append, List.length_cons]
    omega
  obtain ⟨s', hleads, hinside, -⟩ := h.advance (Q := fun _ => True) hg (ht.begins _)
    (fun s₁ hs₁ _ => (hs₁.word_token ht hword hg' hr).imp fun _ h => ⟨h.1, h.2, trivial⟩)
    nofun hless
  exact ⟨s', hleads, hinside⟩

theorem Inside.finish (h : s.Inside flow ts g) (hg : IsGap g) :
    ∃ s', s.step = .ok s' ∧ s'.tokens = .streamEnd :: ts := by
  have hrest : s.Inside flow ts (g ++ []) := by
    rw [List.append_nil]
    exact h
  obtain ⟨s₁, hs₁, -, -, -, hstep⟩ := hrest.step hg (.inl rfl)
  rw [hstep, if_pos rfl, Scanner.endDocument, hs₁.unwind, hs₁.dropKey]
  exact ⟨_, rfl, congrArg (Token.streamEnd :: ·) hs₁.tokens⟩

theorem run_of_last {s' : Scanner} (hstep : s.step = .ok s')
    (hlast : s'.tokens.head? = some .streamEnd) (fuel : Nat) :
    Scanner.run (fuel + 1) s = s'.tokens := by
  rw [Scanner.run]
  unfold Scanner.goOn
  rw [hstep]
  exact if_pos hlast

end Scanner

end NoteDecor.Yaml
