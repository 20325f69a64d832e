import NoteDecor.Proofs.Yaml.FlowTokens
import NoteDecor.Yaml.Node

/-! Tokens that a fault cuts short. Whatever stands before it, the reader of nodes does not get past
the fault, and the text is malformed. -/

namespace NoteDecor.Yaml

def Token.IsInner : Token → Prop
  | .streamEnd | .fault _ => False
  | _ => True

namespace Node

def CutAfter (n : Nat) (ts : List Token) : Prop :=
  ∃ inner, (∀ t ∈ inner, t.IsInner) ∧ n ≤ inner.length ∧ ts = inner ++ [.fault .malformed]

def Halts {α : Type} (n : Nat) (m : Reader α) : Prop :=
  ∀ s, CutAfter n s.tokens → m.run s = .error .malformed ∨
    ∃ p, m.run s = .ok p ∧ CutAfter 0 p.2.tokens

theorem peek_cutShort {n : Nat} {s : Reading} (h : CutAfter n s.tokens) :
    peek.run s = .error .malformed ∨
      ∃ t : Token, t.IsInner ∧ CutAfter 1 s.tokens ∧ peek.run s = .ok (t, s) := by
  obtain ⟨ts, as, hs, g⟩ := s
  obtain ⟨inner, hinner, -, rfl⟩ := h
  cases inner with
  | nil => exact .inl rfl
  | cons t inner =>
    have ht := hinner t (.head _)
    refine .inr ⟨t, ht, ⟨t :: inner, hinner, Nat.succ_pos _, rfl⟩, ?_⟩
    cases t <;> first | rfl | exact ht.elim

namespace Halts

variable {α β : Type} {n : Nat}

theorem mono {m : Reader α} (h : Halts 0 m) : Halts n m := by
  rintro s ⟨inner, hinner, -, htokens⟩
  exact h s ⟨inner, hinner, Nat.zero_le _, htokens⟩

theorem refuse : Halts n (Node.refuse : Reader α) := fun _ _ => .inl rfl

theorem refused {f : α → Reader β} : Halts n (Node.refuse >>= f) := fun _ _ => .inl rfl

theorem aside {f : Reading → α × Reading} (h : ∀ s, (f s).2.tokens = s.tokens) :
    Halts n (modifyGet f : Reader α) := by
  rintro s ⟨inner, hinner, -, htokens⟩
  exact .inr ⟨f s, rfl, inner, hinner, Nat.zero_le _, (h s).trans htokens⟩

theorem pure (a : α) : Halts n (Pure.pure a : Reader α) := aside (f := (a, ·)) fun _ => rfl

theorem bind {m : Reader α} {f : α → Reader β} (hm : Halts n m) (hf : ∀ a, Halts 0 (f a)) :
    Halts n (m >>= f) := by
  intro s hs
  rw [StateT.run_bind]
  rcases hm s hs with hm | ⟨p, hm, hp⟩
  · rw [hm]
    exact .inl rfl
  · rw [hm]
    exact hf p.1 p.2 hp

theorem getting {f : Reading → Reader α} (h : ∀ s, Halts n (f s)) : Halts n (get >>= f) :=
  fun s hs => h s s hs

theorem peeking {f : Token → Reader α} (h : ∀ t, t.IsInner → Halts 1 (f t)) :
    Halts n (peek >>= f) := by
  intro s hs
  rw [StateT.run_bind]
  rcases peek_cutShort hs with hpeek | ⟨t, ht, hcut, hpeek⟩
  · rw [hpeek]
    exact .inl rfl
  · rw [hpeek]
    exact h t ht s hcut

theorem drop : Halts 1 Node.drop := by
  rintro ⟨ts, as, hs, g⟩ ⟨inner, hinner, hpos, rfl⟩
  obtain ⟨t, inner, rfl⟩ := List.exists_cons_of_length_pos hpos
  exact .inr ⟨_, rfl, inner, fun t ht => hinner t (.tail _ ht), Nat.zero_le _, rfl⟩

theorem dropping {m : Reader α} (h : Halts 0 m) : Halts 1 (Node.drop >>= fun _ => m) :=
  drop.bind fun _ => h

end Halts

def Refuses {α : Type} (n : Nat) (m : Reader α) : Prop :=
  ∀ s, CutAfter n s.tokens → m.run s = .error .malformed

namespace Refuses

variable {α β : Type} {n : Nat}

theorem mono {m : Reader α} (h : Refuses 0 m) : Refuses n m := by
  rintro s ⟨inner, hinner, -, htokens⟩
  exact h s ⟨inner, hinner, Nat.zero_le _, htokens⟩

theorem refuse : Refuses n (Node.refuse : Reader α) := fun _ _ => rfl

theorem bind {m : Reader α} {f : α → Reader β} (hm : Halts n m) (hf : ∀ a, Refuses 0 (f a)) :
    Refuses n (m >>= f) := by
  intro s hs
  rw [StateT.run_bind]
  rcases hm s hs with hm | ⟨p, hm, hp⟩
  · rw [hm]
    rfl
  · rw [hm]
    exact hf p.1 p.2 hp

theorem peeking {f : Token → Reader α} (h : ∀ t, t.IsInner → Refuses 1 (f t)) :
    Refuses n (peek >>= f) := by
  intro s hs
  rw [StateT.run_bind]
  rcases peek_cutShort hs with hpeek | ⟨t, ht, hcut, hpeek⟩
  · rw [hpeek]
    rfl
  · rw [hpeek]
    exact h t ht s hcut

end Refuses

theorem takeAnchor_halts : Halts 0 takeAnchor := by
  refine .peeking fun t _ => ?_
  split
  · exact .dropping (.pure _)
  · exact .pure _

theorem takeTag_halts : Halts 0 takeTag := by
  refine .peeking fun t _ => ?_
  split
  · exact .dropping (.pure _)
  · exact .pure _

theorem tagName_halts (tag : Option String × String) : Halts 0 (tagName tag) := by
  unfold tagName
  split
  · exact .pure _
  · refine .getting fun s => ?_
    split
    · exact .pure _
    · exact .refuse

theorem takeProperties_halts : Halts 0 takeProperties := by
  refine takeAnchor_halts.bind fun first => takeTag_halts.bind fun tag => ?_
  have hname : Halts 0 (tag.mapM tagName) := by
    cases tag with
    | none => exact .pure _
    | some tag => exact (tagName_halts tag).bind fun _ => .pure _
  have hrest (anchor : Option String) :
      Halts 0 (tag.mapM tagName >>= fun name => pure (anchor, name)) := hname.bind fun _ => .pure _
  split
  · exact takeAnchor_halts.bind hrest
  · exact hrest first

theorem add_halts (tag : Tag) (content : Content) : Halts 0 (add tag content) :=
  .aside fun _ => rfl

theorem bindAnchor_halts (anchor : Option String) (m : Nat) : Halts 0 (bindAnchor anchor m) := by
  cases anchor with
  | none => exact .pure _
  | some name => exact .aside fun _ => rfl

theorem checkAnchor_halts (anchor : Option String) : Halts 0 (checkAnchor anchor) := by
  cases anchor with
  | none => exact .pure _
  | some name =>
    refine .getting fun s => ?_
    split
    · exact .refuse
    · exact .pure _

theorem addAround_halts {tag : Tag} {anchor : Option String} {parts : Reader Content}
    (h : Halts 0 parts) : Halts 0 (addAround tag anchor parts) :=
  (add_halts _ _).bind fun n => (bindAnchor_halts _ _).bind fun _ => h.bind fun _ =>
    .bind (.aside fun _ => rfl) fun _ => .pure n

structure AllHalt (fuel : Nat) : Prop where
  read : ∀ inBlock flat, Halts 0 (read fuel inBlock flat)
  body : ∀ inBlock flat anchor tag bare, Halts 0 (body fuel inBlock flat anchor tag bare)
  readUnless : ∀ ends inBlock flat, Halts 0 (readUnless fuel ends inBlock flat)
  blockItems : Halts 0 (blockItems fuel)
  flatEntries : Halts 0 (flatEntries fuel)
  blockEntries : Halts 0 (blockEntries fuel)
  blockValue : Halts 0 (blockValue fuel)
  flowValue : ∀ close, Halts 0 (flowValue fuel close)
  flowItem : Halts 0 (flowItem fuel)
  flowItems : ∀ first, Halts 0 (flowItems fuel first)
  flowPair : Halts 0 (flowPair fuel)
  flowEntries : ∀ first, Halts 0 (flowEntries fuel first)

namespace AllHalt

variable {fuel : Nat}

theorem zero : AllHalt 0 :=
  ⟨fun _ _ => .refuse, fun _ _ _ _ _ => .refuse, fun _ _ _ => .refuse, .refuse, .refuse, .refuse,
    .refuse, fun _ => .refuse, .refuse, fun _ => .refuse, .refuse, fun _ => .refuse⟩

theorem read_succ (h : AllHalt fuel) (inBlock flat : Bool) :
    Halts 0 (Node.read (fuel + 1) inBlock flat) := by
  unfold Node.read
  refine .peeking fun t _ => ?_
  split
  · refine .dropping (.getting fun s => ?_)
    split
    · exact .pure _
    · exact .refuse
  · exact (takeProperties_halts.bind fun p => h.body _ _ _ _ _).mono

theorem body_succ (h : AllHalt fuel) (inBlock flat : Bool) (anchor tag : Option String)
    (bare : Bool) : Halts 0 (Node.body (fuel + 1) inBlock flat anchor tag bare) := by
  have hscalar (tag' : Tag) (text : String) : Halts 0 (do
      let n ← add tag' (.scalar text)
      bindAnchor anchor n
      return n) :=
    (add_halts _ _).bind fun n => (bindAnchor_halts _ _).bind fun _ => .pure n
  have hsequence {items : Reader (List Nat)} (hitems : Halts 0 items) :
      Halts 0 (do
        checkAnchor anchor
        addAround (kindOf tag .seq) anchor (return .sequence (← items))) :=
    (checkAnchor_halts _).bind fun _ => addAround_halts (hitems.bind fun _ => .pure _)
  have hmapping {entries : Reader (List (Nat × Nat))} (hentries : Halts 0 entries) :
      Halts 0 (do
        checkAnchor anchor
        addAround (kindOf tag .map) anchor (return .mapping (← entries))) :=
    (checkAnchor_halts _).bind fun _ => addAround_halts (hentries.bind fun _ => .pure _)
  unfold Node.body
  refine .peeking fun t _ => ?_
  dsimp only
  split
  · exact (hsequence h.flatEntries).mono
  · exact .dropping ((checkAnchor_halts _).bind fun _ => hscalar _ _)
  · exact .dropping (hsequence (h.flowItems true))
  · exact .dropping (hmapping (h.flowEntries true))
  · exact .dropping (hsequence h.blockItems)
  · exact .dropping (hmapping h.blockEntries)
  · split
    · exact .refuse
    · exact ((checkAnchor_halts _).bind fun _ => hscalar _ _).mono

theorem readUnless_succ (h : AllHalt fuel) (ends : List Token) (inBlock flat : Bool) :
    Halts 0 (Node.readUnless (fuel + 1) ends inBlock flat) := by
  unfold Node.readUnless
  refine .peeking fun t _ => ?_
  split
  · exact (add_halts _ _).mono
  · exact (h.read _ _).mono

theorem blockItems_succ (h : AllHalt fuel) : Halts 0 (Node.blockItems (fuel + 1)) := by
  unfold Node.blockItems
  refine .peeking fun t _ => ?_
  split
  · exact .dropping ((h.readUnless _ _ _).bind fun _ => h.blockItems.bind fun _ => .pure _)
  · exact .dropping (.pure _)
  · exact .refuse

theorem flatEntries_succ (h : AllHalt fuel) : Halts 0 (Node.flatEntries (fuel + 1)) := by
  unfold Node.flatEntries
  refine .peeking fun t _ => ?_
  split
  · exact .dropping ((h.readUnless _ _ _).bind fun _ => h.flatEntries.bind fun _ => .pure _)
  · exact .pure _

theorem blockEntries_succ (h : AllHalt fuel) : Halts 0 (Node.blockEntries (fuel + 1)) := by
  unfold Node.blockEntries
  refine .peeking fun t _ => ?_
  split
  · exact .dropping ((h.readUnless _ _ _).bind fun _ => h.blockValue.bind fun _ =>
      h.blockEntries.bind fun _ => .pure _)
  · exact .dropping (.pure _)
  · exact .refuse

theorem blockValue_succ (h : AllHalt fuel) : Halts 0 (Node.blockValue (fuel + 1)) := by
  unfold Node.blockValue
  refine .peeking fun t _ => ?_
  split
  · exact .dropping (h.readUnless _ _ _)
  · exact (add_halts _ _).mono

theorem flowValue_succ (h : AllHalt fuel) (close : Token) :
    Halts 0 (Node.flowValue (fuel + 1) close) := by
  unfold Node.flowValue
  refine .peeking fun t _ => ?_
  split
  · exact .dropping (h.readUnless _ _ _)
  · exact (add_halts _ _).mono

theorem flowItem_succ (h : AllHalt fuel) : Halts 0 (Node.flowItem (fuel + 1)) := by
  unfold Node.flowItem
  refine .peeking fun t _ => ?_
  split
  · exact .dropping (addAround_halts ((h.readUnless _ _ _).bind fun _ =>
      (h.flowValue _).bind fun _ => .pure _))
  · exact (h.read _ _).mono

theorem flowPair_succ (h : AllHalt fuel) : Halts 0 (Node.flowPair (fuel + 1)) := by
  unfold Node.flowPair
  refine .peeking fun t _ => ?_
  split
  · exact .dropping ((h.readUnless _ _ _).bind fun _ => (h.flowValue _).bind fun _ => .pure _)
  · exact ((h.read _ _).bind fun _ => (add_halts _ _).bind fun _ => .pure _).mono

theorem listing {α : Type} {close : Token} {item : Reader α} {more : Reader (List α)}
    (first : Bool) (hitem : Halts 0 item) (hmore : Halts 0 more) : Halts 0 (do
      if (← peek) = close then
        drop
        return []
      if !first then
        if (← peek) = .flowEntry then drop else refuse
      if (← peek) = close then
        drop
        return []
      let x ← item
      return x :: (← more)) := by
  have hend : Halts 1 (drop >>= fun _ => pure [] : Reader (List α)) := .dropping (.pure _)
  have hrest : Halts 0 (do
      if (← peek) = close then
        drop
        return []
      let x ← item
      return x :: (← more)) := by
    refine .peeking fun t _ => ?_
    split
    · exact hend
    · exact (hitem.bind fun _ => hmore.bind fun _ => .pure _).mono
  refine .peeking fun t _ => ?_
  split
  · exact hend
  · refine .mono ?_
    split
    · refine .peeking fun t _ => ?_
      split
      · exact .dropping hrest
      · exact .refused
    · exact hrest

theorem flowItems_succ (h : AllHalt fuel) (first : Bool) :
    Halts 0 (Node.flowItems (fuel + 1) first) := by
  unfold Node.flowItems
  exact listing first h.flowItem (h.flowItems false)

theorem flowEntries_succ (h : AllHalt fuel) (first : Bool) :
    Halts 0 (Node.flowEntries (fuel + 1) first) := by
  unfold Node.flowEntries
  exact listing first h.flowPair (h.flowEntries false)

theorem ofFuel (fuel : Nat) : AllHalt fuel := by
  induction fuel with
  | zero => exact zero
  | succ fuel ih =>
    exact ⟨ih.read_succ, ih.body_succ, ih.readUnless_succ, ih.blockItems_succ, ih.flatEntries_succ,
      ih.blockEntries_succ, ih.blockValue_succ, ih.flowValue_succ, ih.flowItem_succ,
      ih.flowItems_succ, ih.flowPair_succ, ih.flowEntries_succ⟩

end AllHalt

theorem directives_halts (fuel : Nat) (versioned : Bool) (known : List (String × String)) :
    Halts 0 (directives fuel versioned known) := by
  induction fuel generalizing versioned known with
  | zero => exact .refuse
  | succ fuel ih =>
    unfold directives
    refine .peeking fun t _ => ?_
    split
    · split
      · exact .refuse
      · exact .dropping (ih _ _)
    · split
      · exact .refuse
      · exact .dropping (ih _ _)
    · exact .dropping (ih _ _)
    · exact .pure _

theorem skipEnds_halts (fuel : Nat) : Halts 0 (skipEnds fuel) := by
  induction fuel with
  | zero => exact .pure _
  | succ fuel ih =>
    refine .peeking fun t _ => ?_
    split
    · exact .dropping ih
    · exact .pure _

theorem explicitDocument_halts (fuel : Nat) : Halts 0 (explicitDocument fuel) := by
  refine (directives_halts _ _ _).bind fun own => .bind (.aside fun _ => rfl) fun _ => ?_
  refine .peeking fun t _ => ?_
  have hroot : Halts 1 (do
      drop
      let t ← peek
      if isDirective t || t = .documentStart || t = .documentEnd || t = .streamEnd then empty
      else read fuel true false) := by
    refine .dropping (.peeking fun t _ => ?_)
    split
    · exact (add_halts _ _).mono
    · exact ((AllHalt.ofFuel fuel).read _ _).mono
  split
  · exact .refused
  · exact hroot

theorem document?_refuses (fuel : Nat) {s : Reading} (hs : CutAfter 0 s.tokens) :
    (document? fuel).run s = .error .malformed := by
  -- what can follow a document is told from the last step on
  have hend (n : Nat) : Refuses 0 (do
      skipEnds fuel
      if (← peek) = .streamEnd then return some n
      let _ ← directives fuel false []
      refuse : Reader (Option Nat)) := by
    refine .bind (skipEnds_halts fuel) fun _ => .peeking fun t ht => ?_
    split
    · next h => exact (h ▸ ht : Token.IsInner .streamEnd).elim
    · exact .bind (directives_halts _ _ _).mono fun _ => .refuse
  have hrest (n : Nat) : Refuses 0 (do
      if (← peek) = .documentEnd then drop
      skipEnds fuel
      if (← peek) = .streamEnd then return some n
      let _ ← directives fuel false []
      refuse : Reader (Option Nat)) := by
    refine .peeking fun t _ => ?_
    split
    · exact .bind .drop fun _ => hend n
    · exact (hend n).mono
  have hwhole : Refuses 0 (document? fuel) := by
    refine .peeking fun t ht => ?_
    split
    · next h => exact (h ▸ ht : Token.IsInner .streamEnd).elim
    · refine .mono ?_
      split
      · exact .bind (explicitDocument_halts fuel) hrest
      · exact .bind ((AllHalt.ofFuel fuel).read _ _) hrest
  exact hwhole s hs

theorem ofTokens?_cutShort {ts : List Token} (h : CutAfter 0 ts) :
    ofTokens? ts = .error .malformed := by
  rw [ofTokens?, document?_refuses _ h]
  rfl

end Node

def Scanner.Fails (s : Scanner) : Prop :=
  ∃ s' : Scanner, s.Leads s' ∧ s'.step = .error .malformed ∧ ∀ t ∈ s'.tokens, t.IsInner

namespace Scanner

variable {s s' : Scanner} {flow : Nat} {ts : List Token} {g r : List Char}

theorem Leads.fails (h : s.Leads s') (hfails : s'.Fails) : s.Fails := by
  obtain ⟨s'', hleads, hstep, hinner⟩ := hfails
  exact ⟨s'', h.trans hleads, hstep, hinner⟩

theorem mem_certain {t : Token} (h : t ∈ s.certain) : t ∈ s.tokens := by
  unfold certain at h
  exact List.mem_of_mem_drop h

theorem Fails.ofText {text : List Char} (h : (start text).Fails)
    (hallowed : ∀ x ∈ text, isAllowed x = true) : Node.CutAfter 0 (Token.ofText text) := by
  obtain ⟨s, hleads, hstep, hinner⟩ := h
  obtain ⟨fuel, hfuel, hrun⟩ := hleads.run (Nat.lt_succ_self _)
  obtain ⟨fuel, rfl⟩ := Nat.exists_eq_add_one_of_ne_zero (Nat.ne_zero_of_lt hfuel)
  have hlast : Scanner.run (fuel + 1) s = .fault .malformed :: s.certain := by
    rw [Scanner.run]
    unfold Scanner.goOn
    rw [hstep]
  unfold Token.ofText
  rw [if_pos (List.all_eq_true.2 hallowed)]
  change Node.CutAfter 0 (Scanner.run ((start text).cursor.rest.length + 1) _).reverse
  rw [hrun, hlast, List.reverse_cons]
  exact ⟨s.certain.reverse, fun t ht => hinner t (mem_certain (List.mem_reverse.1 ht)),
    Nat.zero_le _, rfl⟩

theorem Inside.fails_of_tab (h : s.Inside flow ts (g ++ '\t' :: r)) (hg : IsGap g)
    (hts : ∀ t ∈ ts, t.IsInner) : s.Fails := by
  obtain ⟨s', hs', -, -, -, hstep⟩ := h.step hg (.inr ⟨'\t', r, rfl, by decide⟩)
  refine ⟨s, .refl, ?_, h.tokens ▸ hts⟩
  have hplain (inFlow : Bool) : startsPlain s'.cursor inFlow = false := by
    unfold startsPlain
    rw [hs'.peek]
    cases inFlow <;> simp [isGap, isIn]
  rw [hstep, if_neg (List.cons_ne_nil _ _)]
  unfold token
  dsimp only
  rw [hs'.peek, hplain]
  rfl

end Scanner

end NoteDecor.Yaml
