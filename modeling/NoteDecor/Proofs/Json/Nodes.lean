import NoteDecor.Proofs.Json.Scanning
import NoteDecor.Yaml.Node

/-! The tokens of a JSON object as nodes, numbered in the order in which they begin: the object, and
then each key with its datum and the items of that. -/

namespace NoteDecor.Json
open Yaml

def Scalar.literal : Scalar → String
  | string ps => String.ofList (readChars ps)
  | number n => String.ofList n.text
  | truth b => truthText b

def Scalar.isWord : Scalar → Bool
  | string _ => false
  | _ => true

def Scalar.node (x : Scalar) : Node :=
  ⟨Node.scalarKind none x.literal x.isWord, .scalar x.literal⟩

def Datum.nodes (n : Nat) : Datum → List Node
  | scalar x => [x.node]
  | array xs =>
    ⟨.seq, .sequence (List.range' (n + 1) xs.parts.length)⟩ :: xs.parts.map Scalar.node

def Member.nodes (n : Nat) (m : Member) : List Node :=
  ⟨.str, .scalar (String.ofList (readChars m.key))⟩ :: m.datum.nodes (n + 1)

def memberNodes : Nat → List Member → List Node
  | _, [] => []
  | n, m :: ms => m.nodes n ++ memberNodes (n + (m.nodes n).length) ms

def memberEntries : Nat → List Member → List (Nat × Nat)
  | _, [] => []
  | n, m :: ms => (n, n + 1) :: memberEntries (n + (m.nodes n).length) ms

def Document.nodes (d : Document) : List Node :=
  ⟨.map, .mapping (memberEntries 1 d.members.parts)⟩ :: memberNodes 1 d.members.parts

theorem Scalar.token_eq (x : Scalar) : x.token = .scalar x.literal x.isWord := by cases x <;> rfl

section Reading

variable {ts : List Token} {as : List (String × Nat)} {hs : List (String × String)} {l r : List Node}

def stateOf (ts : List Token) (as : List (String × Nat)) (hs : List (String × String))
    (l : List Node) : Node.Reading :=
  ⟨ts, as, hs, l.toArray⟩

theorem stateOf_push (x : Node) : stateOf ts as hs (l ++ [x]) = ⟨ts, as, hs, l.toArray.push x⟩ := by
  rw [stateOf, List.push_toArray]

theorem stateOf_set (x y : Node) : stateOf ts as hs (l ++ y :: r) =
    ⟨ts, as, hs, (l ++ x :: r).toArray.setIfInBounds l.length y⟩ := by
  rw [stateOf, List.setIfInBounds_toArray, List.set_append_right _ _ (Nat.le_refl _), Nat.sub_self,
    List.set_cons_zero]

theorem read_scalar (fuel : Nat) (x : Scalar) :
    (Node.read (fuel + 2) false false).run (stateOf (x.token :: ts) as hs l) =
      .ok (l.length, stateOf ts as hs (l ++ [x.node])) := by
  rw [stateOf_push, x.token_eq]
  rfl

theorem flowItems_end (fuel : Nat) (first : Bool) :
    (Node.flowItems (fuel + 1) first).run (stateOf (.flowSequenceEnd :: ts) as hs l) =
      .ok ([], stateOf ts as hs l) := by
  cases first <;> rfl

theorem flowItems_first (fuel : Nat) (x : Scalar) :
    (Node.flowItems (fuel + 4) true).run (stateOf (x.token :: ts) as hs l) =
      (Node.flowItems (fuel + 3) false >>= fun ns => pure (l.length :: ns)).run
        (stateOf ts as hs (l ++ [x.node])) := by
  rw [stateOf_push, x.token_eq]
  rfl

theorem flowItems_next (fuel : Nat) (x : Scalar) :
    (Node.flowItems (fuel + 4) false).run (stateOf (.flowEntry :: x.token :: ts) as hs l) =
      (Node.flowItems (fuel + 3) false >>= fun ns => pure (l.length :: ns)).run
        (stateOf ts as hs (l ++ [x.node])) := by
  rw [stateOf_push, x.token_eq]
  rfl

theorem flowItems_more {fuel : Nat} {xs : List Scalar} (h : xs.length + 4 ≤ fuel) :
    (Node.flowItems fuel false).run
        (stateOf (moreTokens (fun x => [Scalar.token x]) xs ++ .flowSequenceEnd :: ts) as hs l) =
      .ok (List.range' l.length xs.length, stateOf ts as hs (l ++ xs.map Scalar.node)) := by
  obtain ⟨fuel, rfl⟩ := Nat.exists_eq_add_of_le' (Nat.le_of_add_left_le h)
  induction xs generalizing fuel l with
  | nil => rw [List.map_nil, List.append_nil]; exact flowItems_end ..
  | cons x xs ih =>
    change (Node.flowItems _ false).run (stateOf (.flowEntry :: x.token ::
      (moreTokens (fun x => [Scalar.token x]) xs ++ .flowSequenceEnd :: ts)) as hs l) = _
    rw [List.length_cons] at h
    obtain ⟨fuel, rfl⟩ := Nat.exists_eq_add_of_le' (show 1 ≤ fuel by omega)
    rw [flowItems_next, StateT.run_bind, ih fuel (by omega)]
    rw [List.length_append, List.append_assoc]
    rfl

theorem flowItems_list {fuel : Nat} {xs : List Scalar} (h : xs.length + 4 ≤ fuel) :
    (Node.flowItems fuel true).run
        (stateOf (listTokens (fun x => [Scalar.token x]) xs ++ .flowSequenceEnd :: ts) as hs l) =
      .ok (List.range' l.length xs.length, stateOf ts as hs (l ++ xs.map Scalar.node)) := by
  obtain ⟨fuel, rfl⟩ := Nat.exists_eq_add_of_le' (Nat.le_of_add_left_le h)
  cases xs with
  | nil => rw [List.map_nil, List.append_nil]; exact flowItems_end ..
  | cons x xs =>
    change (Node.flowItems _ true).run (stateOf (x.token ::
      (moreTokens (fun x => [Scalar.token x]) xs ++ .flowSequenceEnd :: ts)) as hs l) = _
    rw [List.length_cons] at h
    rw [flowItems_first, StateT.run_bind, flowItems_more (by omega)]
    rw [List.length_append, List.append_assoc]
    rfl

theorem read_array {fuel : Nat} {ts' : List Token} {ns : List Nat}
    (h : (Node.flowItems fuel true).run (stateOf ts as hs (l ++ [⟨.seq, .scalar ""⟩])) =
      .ok (ns, stateOf ts' as hs (l ++ ⟨.seq, .scalar ""⟩ :: r))) :
    (Node.read (fuel + 2) false false).run (stateOf (.flowSequence :: ts) as hs l) =
      .ok (l.length, stateOf ts' as hs (l ++ ⟨.seq, .sequence ns⟩ :: r)) := by
  rw [stateOf_push] at h
  rw [stateOf_set ⟨.seq, .scalar ""⟩]
  change ((Node.flowItems fuel true >>= fun items => pure (.sequence items)) >>= fun content => (do
    modify fun r => { r with graph := r.graph.setIfInBounds l.toArray.size ⟨.seq, content⟩ }
    pure l.length : Node.Reader Nat)).run ⟨ts, as, hs, l.toArray.push ⟨.seq, .scalar ""⟩⟩ = _
  rw [StateT.run_bind, StateT.run_bind, h]
  rfl

theorem length_le_listTokens {α : Type} {tokens : α → List Token} (h : ∀ x, tokens x ≠ [])
    (xs : List α) : xs.length ≤ (listTokens tokens xs).length := by
  have hmore (xs : List α) : xs.length ≤ (moreTokens tokens xs).length := by
    induction xs with
    | nil => exact Nat.le_refl 0
    | cons x xs ih =>
      rw [moreTokens, List.length_cons, List.length_cons, List.length_append]
      omega
  cases xs with
  | nil => exact Nat.le_refl 0
  | cons x xs =>
    have hx := List.length_pos_iff.2 (h x)
    have hxs := hmore xs
    rw [listTokens, List.length_cons, List.length_append]
    omega

theorem read_datum {fuel : Nat} {d : Datum} (h : d.tokens.length + 4 ≤ fuel) :
    (Node.read fuel false false).run (stateOf (d.tokens ++ ts) as hs l) =
      .ok (l.length, stateOf ts as hs (l ++ d.nodes l.length)) := by
  obtain ⟨fuel, rfl⟩ := Nat.exists_eq_add_of_le' (show 2 ≤ fuel by omega)
  cases d with
  | scalar x => exact read_scalar fuel x
  | array xs =>
    have hlength : xs.parts.length ≤ (listTokens (fun x => [Scalar.token x]) xs.parts).length :=
      length_le_listTokens (fun _ => List.cons_ne_nil _ _) _
    have hfuel : xs.parts.length + 4 ≤ fuel := by
      rw [Datum.tokens, List.length_cons, List.length_append, List.length_singleton] at h
      omega
    have htokens : (Datum.array xs).tokens ++ ts = .flowSequence ::
        (listTokens (fun x => [Scalar.token x]) xs.parts ++ .flowSequenceEnd :: ts) := by
      simp [Datum.tokens]
    have hitems : (Node.flowItems fuel true).run (stateOf
          (listTokens (fun x => [Scalar.token x]) xs.parts ++ .flowSequenceEnd :: ts) as hs
          (l ++ [⟨.seq, .scalar ""⟩])) = _ := flowItems_list hfuel
    rw [List.append_assoc] at hitems
    rw [htokens, read_array hitems, List.length_append]
    rfl

theorem flowPair_key (fuel : Nat) (text : String) (d : Datum) :
    (Node.flowPair (fuel + 4)).run
        (stateOf (.key :: .scalar text false :: .value :: (d.tokens ++ ts)) as hs l) =
      (Node.read (fuel + 1) false false >>= fun v => pure (l.length, v)).run
        (stateOf (d.tokens ++ ts) as hs (l ++ [⟨.str, .scalar text⟩])) := by
  rw [stateOf_push]
  cases d with
  | scalar x => rw [Datum.tokens, x.token_eq]; rfl
  | array xs => rfl

theorem Member.tokens_of_near {m : Member} (hm : m.isNear = true) : m.tokens =
    .key :: .scalar (String.ofList (readChars m.key)) false :: .value :: m.datum.tokens := by
  rw [Member.tokens, Member.keyTokens, if_pos hm]
  rfl

theorem flowPair_near {fuel : Nat} {m : Member} (hm : m.isNear = true)
    (h : m.tokens.length + 4 ≤ fuel) :
    (Node.flowPair fuel).run (stateOf (m.tokens ++ ts) as hs l) =
      .ok ((l.length, l.length + 1), stateOf ts as hs (l ++ m.nodes l.length)) := by
  obtain ⟨fuel, rfl⟩ := Nat.exists_eq_add_of_le' (Nat.le_of_add_left_le h)
  rw [Member.tokens_of_near hm] at h ⊢
  have hfuel : m.datum.tokens.length + 4 ≤ fuel + 1 := by
    rw [List.length_cons, List.length_cons, List.length_cons] at h
    omega
  refine (flowPair_key fuel _ m.datum).trans ?_
  rw [StateT.run_bind, read_datum hfuel, List.length_append, List.append_assoc]
  rfl

theorem flowPair_far (fuel : Nat) {m : Member} (hm : m.isNear = false) :
    ∃ r, (Node.flowPair (fuel + 3)).run (stateOf (m.tokens ++ ts) as hs l) =
      .ok r ∧ r.2.tokens = .value :: (m.datum.tokens ++ ts) := by
  rw [Member.tokens, Member.keyTokens, if_neg (Bool.not_eq_true _ ▸ hm)]
  exact ⟨_, rfl, rfl⟩

theorem flowEntries_end (fuel : Nat) (first : Bool) :
    (Node.flowEntries (fuel + 1) first).run (stateOf (.flowMappingEnd :: ts) as hs l) =
      .ok ([], stateOf ts as hs l) := by
  cases first <;> rfl

def entriesFrom (fuel : Nat) : Node.Reader (List (Nat × Nat)) := do
  let e ← Node.flowPair fuel
  return e :: (← Node.flowEntries fuel false)

theorem flowEntries_first (fuel : Nat) (m : Member) :
    (Node.flowEntries (fuel + 1) true).run (stateOf (m.tokens ++ ts) as hs l) =
      (entriesFrom fuel).run (stateOf (m.tokens ++ ts) as hs l) := by
  rw [Member.tokens, Member.keyTokens]
  cases m.isNear <;> rfl

theorem flowEntries_next (fuel : Nat) (m : Member) :
    (Node.flowEntries (fuel + 1) false).run (stateOf (.flowEntry :: (m.tokens ++ ts)) as hs l) =
      (entriesFrom fuel).run (stateOf (m.tokens ++ ts) as hs l) := by
  rw [Member.tokens, Member.keyTokens]
  cases m.isNear <;> rfl

theorem entriesFrom_of_pair {fuel : Nat} {s s' : Node.Reading} {e : Nat × Nat}
    (h : (Node.flowPair fuel).run s = .ok (e, s')) : (entriesFrom fuel).run s =
      (Node.flowEntries fuel false >>= fun es => pure (e :: es)).run s' := by
  rw [entriesFrom, StateT.run_bind, h]
  rfl

theorem entriesFrom_near {fuel : Nat} {m : Member} {ms : List Member}
    (hms : ∀ x ∈ m :: ms, x.isNear = true)
    (h : m.tokens.length + (moreTokens Member.tokens ms).length + 4 ≤ fuel) :
    (entriesFrom fuel).run (stateOf (m.tokens ++
        (moreTokens Member.tokens ms ++ .flowMappingEnd :: ts)) as hs l) =
      .ok (memberEntries l.length (m :: ms),
        stateOf ts as hs (l ++ memberNodes l.length (m :: ms))) := by
  induction ms generalizing fuel m l with
  | nil =>
    obtain ⟨fuel, rfl⟩ := Nat.exists_eq_add_of_le' (show 1 ≤ fuel by omega)
    rw [entriesFrom_of_pair (flowPair_near (hms m (.head _)) (by omega)), StateT.run_bind,
      moreTokens, List.nil_append, flowEntries_end, memberNodes, memberNodes, List.append_nil]
    rfl
  | cons m' ms ih =>
    obtain ⟨hm, hms⟩ := List.forall_mem_cons.1 hms
    rw [moreTokens, List.length_cons, List.length_append] at h
    obtain ⟨fuel, rfl⟩ := Nat.exists_eq_add_of_le' (show 1 ≤ fuel by omega)
    rw [entriesFrom_of_pair (flowPair_near hm (by omega)), moreTokens, List.cons_append,
      List.append_assoc, StateT.run_bind, flowEntries_next, ih hms (by omega), List.length_append,
      List.append_assoc]
    rfl

theorem flowEntries_value (fuel : Nat) {s : Node.Reading} (h : s.tokens = .value :: ts) :
    (Node.flowEntries (fuel + 1) false).run s = .error .malformed := by
  obtain ⟨tokens, as, hs, g⟩ := s
  obtain rfl : tokens = .value :: ts := h
  rfl

theorem entriesFrom_far {fuel : Nat} {m : Member} {ms : List Member}
    (hms : ∃ x ∈ m :: ms, x.isNear = false)
    (h : m.tokens.length + (moreTokens Member.tokens ms).length + 4 ≤ fuel) :
    (entriesFrom fuel).run (stateOf (m.tokens ++
        (moreTokens Member.tokens ms ++ .flowMappingEnd :: ts)) as hs l) =
      .error .malformed := by
  -- the members before the first far one are read as they stand
  induction ms generalizing fuel m l with
  | nil =>
    obtain ⟨_, hmem, hm⟩ := hms
    obtain rfl := List.mem_singleton.1 hmem
    obtain ⟨fuel, rfl⟩ := Nat.exists_eq_add_of_le' (show 3 ≤ fuel by omega)
    obtain ⟨s, hs, htokens⟩ := flowPair_far fuel hm
    rw [entriesFrom_of_pair hs, StateT.run_bind, flowEntries_value _ htokens]
    rfl
  | cons m' ms ih =>
    rw [moreTokens, List.length_cons, List.length_append] at h
    obtain ⟨fuel, rfl⟩ := Nat.exists_eq_add_of_le' (show 3 ≤ fuel by omega)
    cases hm : m.isNear with
    | true =>
      have hlater : ∃ x ∈ m' :: ms, x.isNear = false := by
        obtain ⟨x, hmem, hx⟩ := hms
        rcases List.mem_cons.1 hmem with rfl | hmem
        · cases hm.symm.trans hx
        · exact ⟨x, hmem, hx⟩
      rw [entriesFrom_of_pair (flowPair_near hm (by omega)), moreTokens, List.cons_append,
        List.append_assoc, StateT.run_bind, flowEntries_next, ih hlater (by omega)]
      rfl
    | false =>
      obtain ⟨s, hs, htokens⟩ := flowPair_far fuel hm
      rw [entriesFrom_of_pair hs, StateT.run_bind, flowEntries_value _ htokens]
      rfl

theorem flowEntries_list {fuel : Nat} {ms : List Member} (hms : ∀ m ∈ ms, m.isNear = true)
    (h : (listTokens Member.tokens ms).length + 5 ≤ fuel) :
    (Node.flowEntries fuel true).run
        (stateOf (listTokens Member.tokens ms ++ .flowMappingEnd :: ts) as hs l) =
      .ok (memberEntries l.length ms, stateOf ts as hs (l ++ memberNodes l.length ms)) := by
  obtain ⟨fuel, rfl⟩ := Nat.exists_eq_add_of_le' (show 1 ≤ fuel by omega)
  cases ms with
  | nil => rw [memberNodes, List.append_nil]; exact flowEntries_end ..
  | cons m ms =>
    rw [listTokens, List.length_append] at h
    rw [listTokens, List.append_assoc, flowEntries_first, entriesFrom_near hms (by omega)]

theorem flowEntries_list_far {fuel : Nat} {ms : List Member} (hms : ∃ m ∈ ms, m.isNear = false)
    (h : (listTokens Member.tokens ms).length + 5 ≤ fuel) :
    (Node.flowEntries fuel true).run
        (stateOf (listTokens Member.tokens ms ++ .flowMappingEnd :: ts) as hs l) =
      .error .malformed := by
  obtain ⟨fuel, rfl⟩ := Nat.exists_eq_add_of_le' (show 1 ≤ fuel by omega)
  cases ms with
  | nil =>
    obtain ⟨m, hm, -⟩ := hms
    cases hm
  | cons m ms =>
    rw [listTokens, List.length_append] at h
    rw [listTokens, List.append_assoc, flowEntries_first, entriesFrom_far hms (by omega)]

def putEntries (n : Nat) (es : List (Nat × Nat)) : Node.Reader Nat := do
  modify fun s => { s with graph := s.graph.setIfInBounds n ⟨.map, .mapping es⟩ }
  return n

theorem read_object (fuel : Nat) :
    (Node.read (fuel + 2) true false).run (stateOf (.flowMapping :: ts) as hs []) =
      (Node.flowEntries fuel true >>= putEntries 0).run (stateOf ts as hs [⟨.map, .scalar ""⟩]) := by
  change ((Node.flowEntries fuel true >>= fun es => pure (.mapping es)) >>= fun content => (do
    modify fun r => { r with graph := r.graph.setIfInBounds 0 ⟨.map, content⟩ }
    pure 0 : Node.Reader Nat)).run (stateOf ts as hs [⟨.map, .scalar ""⟩]) = _
  rw [bind_assoc]
  rfl

def finishAt (fuel n : Nat) : Node.Reader (Option Nat) := do
  if (← Node.peek) = .documentEnd then Node.drop
  Node.skipEnds fuel
  if (← Node.peek) = .streamEnd then return some n
  let _ ← Node.directives fuel false []
  Node.refuse

theorem document?_object (fuel : Nat) :
    (Node.document? (fuel + 2)).run (stateOf (.flowMapping :: ts) as hs []) =
      (Node.flowEntries fuel true >>= putEntries 0 >>= finishAt (fuel + 2)).run
        (stateOf ts as hs [⟨.map, .scalar ""⟩]) := by
  change (Node.read (fuel + 2) true false >>= finishAt (fuel + 2)).run _ = _
  rw [StateT.run_bind, StateT.run_bind, read_object]

end Reading

namespace Document

variable {d : Document}

theorem exists_fuel (d : Document) : ∃ fuel, 5 * d.tokens.length + 8 = fuel + 2 ∧
    (listTokens Member.tokens d.members.parts).length + 5 ≤ fuel := by
  have hlength : (listTokens Member.tokens d.members.parts).length ≤ d.tokens.length := by
    rw [tokens, List.length_cons, List.length_append]
    omega
  exact ⟨5 * d.tokens.length + 6, rfl, by omega⟩

theorem ofTokens?_eq {fuel : Nat} (hfuel : 5 * d.tokens.length + 8 = fuel + 2) :
    Node.ofTokens? d.tokens = ((Node.flowEntries fuel true).run (stateOf
      (listTokens Member.tokens d.members.parts ++ [.flowMappingEnd, .streamEnd]) [] Node.handles
      [⟨.map, .scalar ""⟩]) >>= fun p => (putEntries 0 p.1 >>= finishAt (fuel + 2)).run p.2) >>=
        fun p => pure (p.1.map (p.2.graph, ·)) := by
  rw [Node.ofTokens?, hfuel]
  change ((Node.document? (fuel + 2)).run (stateOf d.tokens [] Node.handles []) >>= fun p =>
    pure (p.1.map (p.2.graph, ·))) = _
  rw [tokens, document?_object, bind_assoc, StateT.run_bind]

theorem ofTokens?_tokens (h : ∀ m ∈ d.members.parts, m.isNear = true) :
    Node.ofTokens? d.tokens = .ok (some (d.nodes.toArray, 0)) := by
  obtain ⟨fuel, hfuel, hle⟩ := d.exists_fuel
  rw [ofTokens?_eq hfuel, flowEntries_list h hle]
  rfl

theorem ofTokens?_tokens_of_far (h : ∃ m ∈ d.members.parts, m.isNear = false) :
    Node.ofTokens? d.tokens = .error .malformed := by
  obtain ⟨fuel, hfuel, hle⟩ := d.exists_fuel
  rw [ofTokens?_eq hfuel, flowEntries_list_far h hle]
  rfl

end Document

end NoteDecor.Json
