import NoteDecor.Proofs.Json.Scalars
import NoteDecor.Proofs.Yaml.Building

/-! The nodes of a JSON object as a value. The object and its arrays are containers, filled one after
the other; keys and scalars are read where they are met, and the first scalar without a value ends
it. -/

namespace NoteDecor.Json
open Yaml

section Yields

variable {α β : Type} {Q R : Build → Prop} {b : Build}

def Yields (m : Result (α × Build)) (fault : Option Yaml.Fault) (a : α) (Q : Build → Prop) : Prop :=
  match fault with
  | none => ∃ b, m = .ok (a, b) ∧ Q b
  | some f => m = .error f

namespace Yields

theorem pure {a : α} (h : Q b) : Yields ((Pure.pure a : Builder α).run b) none a Q := ⟨b, rfl, h⟩

theorem bind {m : Builder α} {next : α → Builder β} {fault fault' : Option Yaml.Fault} {a : α} {c : β}
    (hm : Yields (m.run b) fault a Q)
    (hnext : ∀ b', Q b' → Yields ((next a).run b') fault' c R) :
    Yields ((m >>= next).run b) (fault.or fault') c R := by
  rw [StateT.run_bind]
  cases fault with
  | none =>
    obtain ⟨b', hb', hQ⟩ := hm
    rw [hb']
    exact hnext b' hQ
  | some f =>
    rw [show m.run b = .error f from hm]
    exact rfl

theorem map {m : Builder α} {f : α → β} {fault : Option Yaml.Fault} {a : α}
    (hm : Yields (m.run b) fault a Q) :
    Yields ((m >>= fun a => Pure.pure (f a)).run b) fault (f a) Q := by
  rw [← Option.or_none (o := fault)]
  exact hm.bind fun b' hb' => pure hb'

theorem mono {m : Result (α × Build)} {fault : Option Yaml.Fault} {a : α} (h : Yields m fault a Q)
    (hQ : ∀ b, Q b → R b) : Yields m fault a R := by
  cases fault with
  | none =>
    obtain ⟨b', hb', hb⟩ := h
    exact ⟨b', hb', hQ b' hb⟩
  | some f => exact h

end Yields

end Yields

/-- Scalars that were met have the values of their nodes. -/
def Faithful (b : Build) : Prop :=
  ∀ k t text v, b.graph.getD k default = ⟨t, .scalar text⟩ → Build.isCollection t = false →
    b.made.getD k none = some v → Yaml.Scalar.value t text = .ok v

structure Looked (b b' : Build) : Prop where
  graph : b'.graph = b.graph
  cells : b'.cells = b.cells
  waiting : b'.waiting = b.waiting
  isShared : b'.isShared = b.isShared
  faithful : Faithful b → Faithful b'

namespace Looked

theorem refl (b : Build) : Looked b b := ⟨rfl, rfl, rfl, rfl, id⟩

theorem trans {b b' b'' : Build} (h : Looked b b') (h' : Looked b' b'') : Looked b b'' :=
  ⟨h'.graph.trans h.graph, h'.cells.trans h.cells, h'.waiting.trans h.waiting,
    h'.isShared.trans h.isShared, h'.faithful ∘ h.faithful⟩

end Looked

section Arrays

variable {α : Type} {xs : Array α} {j k : Nat} {x d : α}

theorem getD_set_ne (h : j ≠ k) : (xs.setIfInBounds k x).getD j d = xs.getD j d := by
  rw [Array.getD_eq_getD_getElem?, Array.getElem?_setIfInBounds_ne (Ne.symm h),
    ← Array.getD_eq_getD_getElem?]

theorem getD_set_self (h : k < xs.size) : (xs.setIfInBounds k x).getD k d = x := by
  rw [Array.getD_eq_getD_getElem?, Array.getElem?_setIfInBounds, if_pos rfl, if_pos h,
    Option.getD_some]

theorem getD_set_cases (xs : Array α) (j k : Nat) (x d : α) :
    (j = k ∧ (xs.setIfInBounds k x).getD j d = x) ∨ (xs.setIfInBounds k x).getD j d = xs.getD j d := by
  by_cases hj : j = k
  · subst hj
    by_cases hsize : j < xs.size
    · exact .inl ⟨rfl, getD_set_self hsize⟩
    · rw [Array.setIfInBounds_eq_of_size_le (Nat.le_of_not_lt hsize)]
      exact .inr rfl
  · exact .inr (getD_set_ne hj)

end Arrays

section Looking

variable {b : Build} {k : Nat} {t : Tag} {text : String}

theorem bind_run {α β : Type} {m : Builder α} {next : α → Builder β} {b b' : Build} {a : α}
    (h : m.run b = .ok (a, b')) : (m >>= next).run b = (next a).run b' := by
  rw [StateT.run_bind, h]
  rfl

theorem get_run (b : Build) : (MonadState.get : Builder Build).run b = .ok (b, b) := rfl

theorem node_run (b : Build) (k : Nat) :
    (Build.node k).run b = .ok (b.graph.getD k default, b) := rfl

theorem modify_run (f : Build → Build) (b : Build) :
    (modify f : Builder Unit).run b = .ok ((), f b) := rfl

theorem value_run_of_made {v : Value} (h : b.made.getD k none = some v) : (Build.value k).run b =
    .ok (v, { b with isShared := b.isShared || !v.mentioned.isEmpty }) := by
  unfold Build.value
  rw [bind_run (get_run b), h]
  rfl

theorem scalar_run (b : Build) (t : Tag) (text : String) :
    (Build.scalar ⟨t, .scalar text⟩).run b =
      (Yaml.Scalar.value t text).bind fun v => .ok (v, b) := by
  have htext : (liftM (Build.scalarText b.graph (b.graph.size + 1) ⟨t, .scalar text⟩) :
      Builder String).run b = .ok (text, b) := rfl
  unfold Build.scalar
  rw [bind_run (get_run b)]
  dsimp only
  rw [bind_run htext]
  split
  · next h => cases h
  · rfl

theorem value_run_of_scalar (h : b.made.getD k none = none)
    (hnode : b.graph.getD k default = ⟨t, .scalar text⟩) (ht : Build.isCollection t = false)
    (hknown : Build.knownTag t = true) : (Build.value k).run b =
      (Yaml.Scalar.value t text).bind fun v =>
        .ok (v, { b with made := b.made.setIfInBounds k (some v) }) := by
  unfold Build.value
  rw [bind_run (get_run b), h]
  dsimp only
  rw [bind_run (node_run b k), hnode]
  dsimp only
  rw [ht, hknown, if_neg Bool.false_ne_true, if_pos rfl, StateT.run_bind, scalar_run]
  cases Yaml.Scalar.value t text <;> rfl

theorem value_run_of_container (h : b.made.getD k none = none)
    (htag : Build.isCollection (b.graph.getD k default).tag = true) : (Build.value k).run b =
      .ok (.cell b.cells.size, { b with
        cells := b.cells.push .null
        waiting := b.waiting ++ [(k, b.cells.size)]
        made := b.made.setIfInBounds k (some (.cell b.cells.size)) }) := by
  unfold Build.value
  rw [bind_run (get_run b), h]
  dsimp only
  rw [bind_run (node_run b k), htag]
  rfl

theorem mentioned_scalarValue {v : Value} (h : Yaml.Scalar.value t text = .ok v) :
    v.mentioned = [] :=
  scalarValue_cases (Q := fun v => v.mentioned = []) h rfl (fun _ => rfl) (fun _ => rfl)
    (fun _ => rfl) (fun _ => rfl) (fun _ => rfl) (fun _ => rfl) fun _ => rfl

theorem Faithful.set (hb : Faithful b) {v : Value}
    (hk : ∀ t text, b.graph.getD k default = ⟨t, .scalar text⟩ → Build.isCollection t = false →
      Yaml.Scalar.value t text = .ok v) :
    Faithful { b with made := b.made.setIfInBounds k (some v) } := by
  intro j t text w hj ht hw
  rcases getD_set_cases b.made j k (some v) none with ⟨rfl, hset⟩ | hset
  · obtain rfl := Option.some.inj (hset.symm.trans hw)
    exact hk t text hj ht
  · exact hb j t text w hj ht (hset.symm.trans hw)

theorem value_yields {x : Scalar} (hb : Faithful b) (hnode : b.graph.getD k default = x.node) :
    Yields ((Build.value k).run b) x.fault? x.read fun b' =>
      Looked b b' ∧ ∀ j, j ≠ k → b'.made.getD j none = b.made.getD j none := by
  rw [x.node_eq] at hnode
  have htag : Build.isCollection x.tag = false ∧ Build.knownTag x.tag = true := by
    rcases x.tag_cases with h | h | h | h <;> rw [h] <;> decide
  cases hmade : b.made.getD k none with
  | some v =>
    have hv := hb k _ _ v hnode htag.1 hmade
    obtain ⟨hfault, rfl⟩ := Scalar.result_eq_ok.1 (x.value_tag ▸ hv)
    rw [value_run_of_made hmade, mentioned_scalarValue hv, hfault]
    exact ⟨_, rfl, ⟨rfl, rfl, rfl, Bool.or_false _, fun h => h⟩, fun _ _ => rfl⟩
  | none =>
    rw [value_run_of_scalar hmade hnode htag.1 htag.2, x.value_tag]
    cases hfault : x.fault? with
    | some f =>
      rw [Scalar.result_of_some hfault]
      rfl
    | none =>
      have hread := Scalar.result_of_none hfault
      rw [hread]
      refine ⟨_, rfl, ⟨rfl, rfl, rfl, rfl, fun hb => hb.set fun t text hk _ => ?_⟩,
        fun j hj => getD_set_ne hj⟩
      cases hnode.symm.trans hk
      exact x.value_tag.trans hread

end Looking

def Stand (g : Graph) : Nat → List Node → Prop
  | _, [] => True
  | n, x :: l => g.getD n default = x ∧ Stand g (n + 1) l

theorem stand_append {g : Graph} {n : Nat} {l r : List Node} :
    Stand g n (l ++ r) ↔ Stand g n l ∧ Stand g (n + l.length) r := by
  induction l generalizing n with
  | nil => exact (iff_of_eq (true_and _)).symm
  | cons x l ih =>
    rw [List.cons_append, Stand, Stand, ih, List.length_cons, and_assoc, Nat.add_assoc,
      Nat.add_comm 1]

theorem stand_toArray (before l : List Node) : Stand (before ++ l).toArray before.length l := by
  induction l generalizing before with
  | nil => trivial
  | cons x l ih =>
    refine ⟨?_, ?_⟩
    · rw [Array.getD_eq_getD_getElem?, List.getElem?_toArray, List.getElem?_append_right
        (Nat.le_refl _), Nat.sub_self]
      rfl
    · have h := ih (before ++ [x])
      rw [List.append_assoc, List.length_append] at h
      exact h

theorem findSome?_cons {α β : Type} (f : α → Option β) (x : α) (xs : List α) :
    (x :: xs).findSome? f = (f x).or (xs.findSome? f) := by
  rw [List.findSome?_cons]
  cases f x <;> rfl

theorem values_yield {b : Build} {n : Nat} {xs : List Scalar} (hb : Faithful b)
    (hnodes : Stand b.graph n (xs.map Scalar.node)) :
    Yields (((List.range' n xs.length).mapM Build.value).run b) (xs.findSome? Scalar.fault?)
      (xs.map Scalar.read) (Looked b) := by
  induction xs generalizing b n with
  | nil => exact .pure (.refl b)
  | cons x xs ih =>
    rw [List.length_cons, List.range'_succ, List.mapM_cons, findSome?_cons]
    refine (value_yields hb hnodes.1).bind fun b₁ ⟨hlooked, _⟩ => ?_
    have hrest := ih (hlooked.faithful hb) (n := n + 1) (by rw [hlooked.graph]; exact hnodes.2)
    exact (hrest.mono fun b₂ h => hlooked.trans h).map

theorem content_yields {b : Build} {n : Nat} {xs : Listed Scalar} (hb : Faithful b)
    (hnodes : Stand b.graph n ((Datum.array xs).nodes n)) :
    Yields ((Build.content n).run b) (xs.parts.findSome? Scalar.fault?)
      (.list (xs.parts.map Scalar.read)) (Looked b) := by
  obtain ⟨harray, hparts⟩ := hnodes
  have hitems : (Build.items n).run b = .ok (List.range' (n + 1) xs.parts.length, b) := by
    unfold Build.items
    rw [bind_run (node_run b n), harray]
    rfl
  unfold Build.content
  rw [bind_run (node_run b n), harray]
  dsimp only
  rw [bind_run hitems]
  exact (values_yield hb hparts).map

namespace Datum

def held (c : Nat) : Datum → Value
  | scalar x => x.read
  | array _ => .cell c

def unfilled (n c : Nat) : Datum → List (Nat × Nat)
  | scalar _ => []
  | array _ => [(n, c)]

def outer : Datum → List Scalar
  | scalar x => [x]
  | array _ => []

def inner : Datum → List Scalar
  | scalar _ => []
  | array xs => xs.parts

end Datum

def Member.name (m : Member) : String := String.ofList (readChars m.key)

def heldBy : Nat → List Member → List (String × Value)
  | _, [] => []
  | c, m :: ms => (m.name, m.datum.held c) :: heldBy (c + (m.datum.unfilled 0 c).length) ms

def unfilledFrom : (n c : Nat) → List Member → List (Nat × Nat)
  | _, _, [] => []
  | n, c, m :: ms => m.datum.unfilled (n + 1) c ++
      unfilledFrom (n + (m.nodes n).length) (c + (m.datum.unfilled 0 c).length) ms

structure Entered (arrays : List (Nat × Nat)) (b b' : Build) : Prop where
  graph : b'.graph = b.graph
  isShared : b'.isShared = b.isShared
  size : b'.cells.size = b.cells.size + arrays.length
  waiting : b'.waiting = b.waiting ++ arrays
  faithful : Faithful b → Faithful b'

theorem Looked.entered {b b' : Build} (h : Looked b b') : Entered [] b b' :=
  ⟨h.graph, h.isShared, congrArg Array.size h.cells, h.waiting.trans (List.append_nil _).symm,
    h.faithful⟩

theorem Entered.trans {arrays arrays' : List (Nat × Nat)} {b b' b'' : Build}
    (h : Entered arrays b b') (h' : Entered arrays' b' b'') : Entered (arrays ++ arrays') b b'' := by
  refine ⟨h'.graph.trans h.graph, h'.isShared.trans h.isShared, ?_, ?_, h'.faithful ∘ h.faithful⟩
  · rw [h'.size, h.size, List.length_append, Nat.add_assoc]
  · rw [h'.waiting, h.waiting, List.append_assoc]

section Members

variable {b : Build} {n : Nat}

def FreshFrom (n : Nat) (b : Build) : Prop := ∀ j ≥ n, b.made.getD j none = none

theorem datum_yields {d : Datum} (hb : Faithful b) (hnodes : Stand b.graph n (d.nodes n))
    (hfresh : FreshFrom n b) :
    Yields ((Build.value n).run b) (d.outer.findSome? Scalar.fault?) (d.held b.cells.size) fun b' =>
      Entered (d.unfilled n b.cells.size) b b' ∧ FreshFrom (n + 1) b' := by
  cases d with
  | scalar x =>
    rw [Datum.outer, List.findSome?_singleton]
    refine (value_yields hb hnodes.1).mono fun b' ⟨hlooked, hothers⟩ => ⟨hlooked.entered, ?_⟩
    intro j hj
    rw [hothers j (by omega)]
    exact hfresh j (by omega)
  | array xs =>
    refine ⟨_, value_run_of_container (hfresh n (Nat.le_refl n)) (by rw [hnodes.1]; rfl),
      ⟨rfl, rfl, Array.size_push .., rfl, fun hb => ?_⟩, fun j hj => ?_⟩
    · refine Faithful.set (b := { b with cells := _, waiting := _ }) hb fun t text hk _ => ?_
      cases hnodes.1.symm.trans hk
    · rw [getD_set_ne (by omega)]
      exact hfresh j (by omega)

theorem entry_yields {m : Member} (hb : Faithful b) (hnodes : Stand b.graph n (m.nodes n))
    (hfresh : FreshFrom n b) :
    Yields ((Build.entry (n, n + 1)).run b) (m.datum.outer.findSome? Scalar.fault?)
      ⟨.text m.name, none, m.datum.held b.cells.size⟩ fun b' =>
        Entered (m.datum.unfilled (n + 1) b.cells.size) b b' ∧ FreshFrom (n + 2) b' := by
  have hkey : Yields ((Build.value n).run b) none (.text m.name) _ :=
    value_yields (x := .string m.key) hb hnodes.1
  unfold Build.entry
  refine hkey.bind fun b₁ ⟨hlooked, hothers⟩ => ?_
  have hnodes₁ : Stand b₁.graph (n + 1) (m.datum.nodes (n + 1)) := hlooked.graph ▸ hnodes.2
  have hfresh₁ : FreshFrom (n + 1) b₁ := by
    intro j hj
    rw [hothers j (by omega)]
    exact hfresh j (by omega)
  have hvalue := datum_yields (hlooked.faithful hb) hnodes₁ hfresh₁
  rw [hlooked.cells] at hvalue
  change Yields ((Build.node n >>= fun x => Build.value (n + 1) >>= fun v => (pure
    ⟨.text m.name, Build.origin? n x (.text m.name), v⟩ : Builder Build.Entry)).run b₁) _ _ _
  rw [bind_run (node_run b₁ n)]
  exact (hvalue.mono fun b₂ h => ⟨hlooked.entered.trans h.1, h.2⟩).map

theorem length_unfilled (d : Datum) (n c n' c' : Nat) :
    (d.unfilled n c).length = (d.unfilled n' c').length := by
  cases d <;> rfl

theorem two_le_length_nodes (m : Member) (n : Nat) : 2 ≤ (m.nodes n).length := by
  unfold Member.nodes
  cases m.datum with
  | scalar x => exact Nat.le_refl 2
  | array xs => exact Nat.le_add_left ..

def entryOf (p : String × Value) : Build.Entry := ⟨.text p.1, none, p.2⟩

theorem entries_yield {ms : List Member} (hb : Faithful b) (hnodes : Stand b.graph n (memberNodes n ms))
    (hfresh : FreshFrom n b) :
    Yields (((memberEntries n ms).mapM Build.entry).run b)
      ((ms.flatMap fun m => m.datum.outer).findSome? Scalar.fault?)
      ((heldBy b.cells.size ms).map entryOf)
      (Entered (unfilledFrom n b.cells.size ms) b) := by
  induction ms generalizing b n with
  | nil => exact .pure (Looked.refl b).entered
  | cons m ms ih =>
    obtain ⟨hm, hms⟩ := stand_append.1 hnodes
    rw [memberEntries, List.mapM_cons, List.flatMap_cons, List.findSome?_append]
    refine (entry_yields hb hm hfresh).bind fun b₁ ⟨hentered, hfresh₁⟩ => ?_
    have hfresh₂ : FreshFrom (n + (m.nodes n).length) b₁ := by
      have := two_le_length_nodes m n
      exact fun j hj => hfresh₁ j (by omega)
    have hsize : b₁.cells.size = b.cells.size + (m.datum.unfilled 0 b.cells.size).length := by
      rw [hentered.size, length_unfilled]
    have hrest := ih (hentered.faithful hb) (hentered.graph ▸ hms) hfresh₂
    rw [hsize] at hrest
    exact (hrest.mono fun b₂ h => hentered.trans h).map

end Members

section Object

variable {b : Build} {n : Nat} {es : List (Nat × Nat)}

theorem set_getD (g : Graph) (n : Nat) : g.setIfInBounds n (g.getD n default) = g := by
  refine Array.ext (Array.size_setIfInBounds ..) fun i hi hi' => ?_
  rw [Array.getElem_setIfInBounds]
  split
  · next h =>
    subst h
    rw [Array.getD_eq_getD_getElem?, Array.getElem?_eq_getElem hi']
    rfl
  · rfl

theorem mergedInto_run (flatten : Nat → Builder Unit) (done : List (Nat × Nat))
    (h : ∀ e ∈ es, (b.graph.getD e.1 default).tag = .str) :
    (Build.mergedInto flatten n done es).run b = .ok ([], b) := by
  induction es generalizing done with
  | nil => rfl
  | cons e es ih =>
    obtain ⟨he, hes⟩ := List.forall_mem_cons.1 h
    unfold Build.mergedInto
    rw [bind_run (node_run b e.1), he]
    exact ih _ hes

theorem entriesOf_run (hnode : (b.graph.getD n default).content = .mapping es) :
    (Build.entriesOf n).run b = .ok (es, b) := by
  unfold Build.entriesOf
  rw [bind_run (node_run b n), hnode]
  rfl

theorem flatten_run (fuel : Nat) (hnode : (b.graph.getD n default).content = .mapping es)
    (h : ∀ e ∈ es, (b.graph.getD e.1 default).tag = .str) :
    (Build.flatten (fuel + 1) n).run b = .ok ((), b) := by
  have hsame : ({ b.graph.getD n default with content := .mapping es } : Node) =
      b.graph.getD n default := by rw [← hnode]
  unfold Build.flatten
  rw [bind_run (entriesOf_run hnode), bind_run (mergedInto_run _ _ h), bind_run (entriesOf_run hnode),
    List.nil_append]
  unfold Build.setEntries
  rw [bind_run (node_run b n), hsame]
  change Except.ok ((), { b with graph := b.graph.setIfInBounds n (b.graph.getD n default) }) = _
  rw [set_getD]

theorem putEntry_entryOf (p : String × Value) (ps : List (String × Value)) :
    Build.putEntry (entryOf p) (ps.map entryOf) = (assign p.1 p.2 ps).map entryOf := by
  induction ps with
  | nil => rfl
  | cons q ps ih =>
    have hsame : (entryOf p).key.same (entryOf q).key = (q.1 == p.1) :=
      Value.same_text_left p.1 (.text q.1)
    have horigin : ((entryOf p).origin.isSome && (entryOf p).origin == (entryOf q).origin) = false :=
      rfl
    rw [List.map_cons, Build.putEntry, assign, hsame, horigin, Bool.or_false]
    by_cases hq : q.1 = p.1
    · rw [if_pos (beq_iff_eq.2 hq), if_pos hq]
      rw [List.map_cons, entryOf, entryOf, ← hq]
    · rw [if_neg (mt beq_iff_eq.1 hq), if_neg hq, ih, List.map_cons]

theorem foldl_putEntry (ps done : List (String × Value)) :
    (ps.map entryOf).foldl (fun es e => Build.putEntry e es) (done.map entryOf) =
      (ps.foldl (fun es p => assign p.1 p.2 es) done).map entryOf := by
  induction ps generalizing done with
  | nil => rfl
  | cons p ps ih =>
    rw [List.map_cons, List.foldl_cons, List.foldl_cons, putEntry_entryOf, ih]

theorem tag_of_memberEntries {g : Graph} {ms : List Member} (h : Stand g n (memberNodes n ms)) :
    ∀ e ∈ memberEntries n ms, (g.getD e.1 default).tag = .str := by
  induction ms generalizing n with
  | nil => nofun
  | cons m ms ih =>
    obtain ⟨hm, hms⟩ := stand_append.1 h
    refine List.forall_mem_cons.2 ⟨?_, ih hms⟩
    rw [hm.1]

def lastOfEach (ps : List (String × Value)) : Entries :=
  Entries.fields (ps.foldl (fun es p => assign p.1 p.2 es) [])

theorem mappingEntries_yield {ms : List Member} (hb : Faithful b)
    (hroot : b.graph.getD n default = ⟨.map, .mapping (memberEntries (n + 1) ms)⟩)
    (hnodes : Stand b.graph (n + 1) (memberNodes (n + 1) ms)) (hfresh : FreshFrom (n + 1) b) :
    Yields ((Build.mappingEntries n).run b)
      ((ms.flatMap fun m => m.datum.outer).findSome? Scalar.fault?)
      (((heldBy b.cells.size ms).foldl (fun es p => assign p.1 p.2 es) []).map entryOf)
      (Entered (unfilledFrom (n + 1) b.cells.size ms) b) := by
  have hcontent : (b.graph.getD n default).content = .mapping (memberEntries (n + 1) ms) := by
    rw [hroot]
  unfold Build.mappingEntries
  rw [bind_run (node_run b n), hroot]
  dsimp only
  rw [bind_run (get_run b), bind_run (flatten_run _ hcontent (tag_of_memberEntries hnodes)),
    bind_run (entriesOf_run hcontent), ← foldl_putEntry]
  exact (entries_yield hb hnodes hfresh).map

theorem object_yields {ms : List Member} (hb : Faithful b)
    (hroot : b.graph.getD n default = ⟨.map, .mapping (memberEntries (n + 1) ms)⟩)
    (hnodes : Stand b.graph (n + 1) (memberNodes (n + 1) ms)) (hfresh : FreshFrom (n + 1) b) :
    Yields ((Build.content n).run b)
      ((ms.flatMap fun m => m.datum.outer).findSome? Scalar.fault?)
      (.map (lastOfEach (heldBy b.cells.size ms)))
      (Entered (unfilledFrom (n + 1) b.cells.size ms) b) := by
  have hmap := (mappingEntries_yield hb hroot hnodes hfresh).map
    (f := fun es => Value.map (es.map fun e => (e.key, e.value)))
  rw [List.map_map] at hmap
  unfold Build.content
  rw [bind_run (node_run b n), hroot]
  exact hmap

end Object

def Filled (cells : Array Value) : Nat → List Member → Prop
  | _, [] => True
  | c, m :: ms => (∀ p ∈ m.datum.unfilled 0 c, cells.getD p.2 .null =
      .list (m.datum.inner.map Scalar.read)) ∧
        Filled cells (c + (m.datum.unfilled 0 c).length) ms

theorem fillAll_run {b : Build} {k c : Nat} {waiting : List (Nat × Nat)} (fuel : Nat)
    (h : b.waiting = (k, c) :: waiting) : (Build.fillAll (fuel + 1)).run b =
      (Build.content k >>= fun v => do
        modify fun b => { b with cells := b.cells.setIfInBounds c v }
        Build.fillAll fuel).run { b with waiting } := by
  rw [Build.fillAll, bind_run (get_run b), h]
  rfl

theorem fillAll_end {b : Build} (fuel : Nat) (h : b.waiting = []) :
    (Build.fillAll fuel).run b = .ok ((), b) := by
  cases fuel with
  | zero => rfl
  | succ fuel =>
    unfold Build.fillAll
    rw [bind_run (get_run b), h]
    rfl

structure FilledFrom (c : Nat) (ms : List Member) (b b' : Build) : Prop where
  isShared : b'.isShared = b.isShared
  size : b'.cells.size = b.cells.size
  before : ∀ i < c, b'.cells.getD i .null = b.cells.getD i .null
  filled : Filled b'.cells c ms

theorem fillAll_yields {ms : List Member} {b : Build} {fuel n c : Nat} (hb : Faithful b)
    (hnodes : Stand b.graph n (memberNodes n ms)) (hwaiting : b.waiting = unfilledFrom n c ms)
    (hcells : c + (unfilledFrom n c ms).length ≤ b.cells.size)
    (hfuel : (unfilledFrom n c ms).length ≤ fuel) :
    Yields ((Build.fillAll fuel).run b) ((ms.flatMap fun m => m.datum.inner).findSome? Scalar.fault?)
      () (FilledFrom c ms b) := by
  -- a scalar leaves nothing to be filled, an array the first cell that still waits
  induction ms generalizing b fuel n c with
  | nil =>
    rw [fillAll_end fuel hwaiting]
    exact ⟨b, rfl, rfl, rfl, fun _ _ => rfl, trivial⟩
  | cons m ms ih =>
    obtain ⟨hm, hms⟩ := stand_append.1 hnodes
    rw [unfilledFrom] at hwaiting hcells hfuel
    rw [List.flatMap_cons, List.findSome?_append]
    cases hd : m.datum with
    | scalar x =>
      rw [hd] at hwaiting hcells hfuel
      refine (ih hb hms hwaiting hcells hfuel).mono fun b' h => ⟨h.isShared, h.size, h.before, ?_⟩
      rw [Filled, hd]
      exact ⟨nofun, h.filled⟩
    | array xs =>
      have hone : (Datum.unfilled 0 c (.array xs)).length = 1 := rfl
      rw [hd, hone] at hwaiting hcells hfuel
      rw [Datum.unfilled, List.length_append, List.length_singleton] at hcells hfuel
      obtain ⟨fuel, rfl⟩ := Nat.exists_eq_add_of_le' (Nat.le_of_add_right_le hfuel)
      rw [fillAll_run fuel hwaiting]
      have hdatum : Stand b.graph (n + 1) ((Datum.array xs).nodes (n + 1)) := hd ▸ hm.2
      have hcontent := content_yields (b := { b with
        waiting := unfilledFrom (n + (m.nodes n).length) (c + 1) ms }) hb hdatum
      refine hcontent.bind fun b₁ hlooked => ?_
      have hsize : b₁.cells.size = b.cells.size := congrArg Array.size hlooked.cells
      have hnodes₁ : Stand b₁.graph (n + (m.nodes n).length) (memberNodes _ ms) :=
        hlooked.graph ▸ hms
      rw [bind_run (modify_run _ b₁)]
      let v : Value := .list (xs.parts.map Scalar.read)
      have hfits : c + 1 + (unfilledFrom (n + (m.nodes n).length) (c + 1) ms).length ≤
          (b₁.cells.setIfInBounds c v).size := by
        rw [Array.size_setIfInBounds, hsize]
        omega
      have hle : (unfilledFrom (n + (m.nodes n).length) (c + 1) ms).length ≤ fuel := by omega
      have hrest := ih (b := { b₁ with cells := b₁.cells.setIfInBounds c v })
        (hlooked.faithful hb) hnodes₁ hlooked.waiting hfits hle
      refine hrest.mono fun b' h => ⟨h.isShared.trans hlooked.isShared, ?_, fun i hi => ?_, ?_⟩
      · rw [h.size, Array.size_setIfInBounds, hsize]
      · rw [h.before i (by omega), getD_set_ne (by omega), hlooked.cells]
      · rw [Filled, hd]
        refine ⟨List.forall_mem_singleton.2 ?_, h.filled⟩
        rw [h.before c (Nat.lt_succ_self c), getD_set_self (by omega)]
        rfl

theorem fillCells_read (f : Nat → Value) (x : Scalar) : x.read.fillCells f = x.read := by
  cases x with
  | string ps => rfl
  | number n =>
    rw [Scalar.read, Number.read, Number.value]
    split
    · split <;> rfl
    · rfl
  | truth b => rfl

theorem fillCellsAll_read (f : Nat → Value) (xs : List Scalar) :
    Value.fillCellsAll f (xs.map Scalar.read) = xs.map Scalar.read := by
  induction xs with
  | nil => rfl
  | cons x xs ih => rw [List.map_cons, Value.fillCellsAll, fillCells_read, ih]

theorem fillCellsEach_fields (f : Nat → Value) (ps : List (String × Value)) :
    Value.fillCellsEach f (Entries.fields ps) =
      Entries.fields (ps.map fun p => (p.1, p.2.fillCells f)) := by
  induction ps with
  | nil => rfl
  | cons p ps ih => exact congrArg ((Value.text p.1, p.2.fillCells f) :: ·) ih

theorem length_unfilledFrom_le (n c : Nat) (ms : List Member) :
    (unfilledFrom n c ms).length ≤ (memberNodes n ms).length := by
  induction ms generalizing n c with
  | nil => exact Nat.le_refl 0
  | cons m ms ih =>
    have hdatum : (m.datum.unfilled (n + 1) c).length ≤ 1 := by
      cases m.datum <;> simp [Datum.unfilled]
    have hnodes := two_le_length_nodes m n
    have hrest := ih (n + (m.nodes n).length) (c + (m.datum.unfilled 0 c).length)
    rw [unfilledFrom, memberNodes, List.length_append, List.length_append]
    omega

theorem heldBy_filled {cells : Array Value} {fuel n c : Nat} {ms : List Member}
    (hfuel : (unfilledFrom n c ms).length ≤ fuel) (h : Filled cells c ms) :
    (heldBy c ms).map (fun p => (p.1, p.2.fillCells (Build.tree cells fuel))) =
      ms.map fun m => (m.name, m.datum.valueBy Scalar.read) := by
  induction ms generalizing n c with
  | nil => rfl
  | cons m ms ih =>
    rw [unfilledFrom, List.length_append] at hfuel
    have hvalue : (m.datum.held c).fillCells (Build.tree cells fuel) =
        m.datum.valueBy Scalar.read := by
      have hcell := h.1
      cases hd : m.datum with
      | scalar x => exact fillCells_read _ x
      | array xs =>
        rw [hd] at hcell hfuel
        obtain ⟨fuel, rfl⟩ := Nat.exists_eq_add_of_le' (Nat.le_of_add_right_le hfuel)
        change (cells.getD c .null).fillCells (Build.tree cells fuel) = _
        rw [hcell (0, c) (.head _), Value.fillCells, fillCellsAll_read]
        rfl
    rw [heldBy, List.map_cons, List.map_cons, hvalue, ih (Nat.le_of_add_left_le hfuel) h.2]

namespace Document

variable {d : Document}

def readingOrder (d : Document) : List Scalar :=
  (d.members.parts.flatMap fun m => m.datum.outer) ++
    d.members.parts.flatMap fun m => m.datum.inner

/-- The entries that a document is read as. -/
def read (d : Document) : Entries := d.entriesBy readChars Scalar.read

theorem read_eq : d.read = lastOfEach (d.members.parts.map fun m =>
    (m.name, m.datum.valueBy Scalar.read)) := by
  rw [read, entriesBy, lastOfEach, List.foldl_map]
  rfl

theorem stand_nodes : Stand d.nodes.toArray 0 d.nodes := stand_toArray [] d.nodes

def opened (d : Document) : Build :=
  { Build.start d.nodes.toArray with
    made := (Array.replicate d.nodes.length none).setIfInBounds 0 (some (.cell 0))
    cells := #[.null]
    waiting := [(0, 0)] }

theorem getD_replicate_none (n k : Nat) :
    (Array.replicate n (none : Option Value)).getD k none = none := by
  rw [Array.getD_eq_getD_getElem?, Array.getElem?_replicate]
  split <;> rfl

theorem value_run_start :
    (Build.value 0).run (Build.start d.nodes.toArray) = .ok (.cell 0, d.opened) := by
  have hroot : (Build.start d.nodes.toArray).graph.getD 0 default = _ := stand_nodes.1
  exact value_run_of_container (getD_replicate_none _ _) (by rw [hroot]; rfl)

theorem finished_eq {b : Build} {ms : List Member} (hshared : b.isShared = false)
    (hroot : b.cells.getD 0 .null = .map (lastOfEach (heldBy 1 ms)))
    (hsize : b.cells.size = 1 + (unfilledFrom 1 1 ms).length) (h : Filled b.cells 1 ms) :
    b.finished (.cell 0) =
      .map (lastOfEach (ms.map fun m => (m.name, m.datum.valueBy Scalar.read))) := by
  have htree : b.finished (.cell 0) = Build.tree b.cells b.cells.size 0 := by
    rw [Build.finished, hshared]
    rfl
  rw [htree, hsize, Nat.add_comm, Build.tree, hroot, Value.fillCells, lastOfEach,
    fillCellsEach_fields, map_foldl_assign, heldBy_filled (Nat.le_refl _) h]
  rfl

theorem fill_yields : Yields ((Build.fillAll d.nodes.length).run d.opened)
    (d.readingOrder.findSome? Scalar.fault?) () fun b => b.finished (.cell 0) = .map d.read := by
  obtain ⟨hroot, hnodes⟩ : Stand d.nodes.toArray 0 d.nodes := stand_nodes
  have hstart : Faithful (Build.start d.nodes.toArray) := fun k t text v _ _ hv => by
    cases (getD_replicate_none _ _).symm.trans hv
  have hfaithful : Faithful d.opened := by
    refine Faithful.set (b := { Build.start d.nodes.toArray with cells := _, waiting := _ }) hstart
      fun t text hk _ => ?_
    cases hroot.symm.trans hk
  have hfresh : FreshFrom 1 d.opened := by
    intro j hj
    rw [opened, getD_set_ne (by omega), getD_replicate_none]
  have hobject := object_yields (b := { d.opened with waiting := [] }) hfaithful hroot hnodes hfresh
  rw [readingOrder, List.findSome?_append]
  change Yields ((Build.fillAll ((memberNodes 1 d.members.parts).length + 1)).run d.opened) _ _ _
  rw [fillAll_run _ rfl]
  refine hobject.bind fun b₁ hentered => ?_
  have hgraph : b₁.graph = d.nodes.toArray := hentered.graph
  have hsize : b₁.cells.size = 1 + (unfilledFrom 1 1 d.members.parts).length := hentered.size
  rw [bind_run (modify_run _ b₁)]
  let root : Value := .map (lastOfEach (heldBy 1 d.members.parts))
  have harrays := fillAll_yields (b := { b₁ with cells := b₁.cells.setIfInBounds 0 root })
    (hentered.faithful hfaithful) (hgraph ▸ hnodes) hentered.waiting
    (Nat.le_of_eq (hsize.symm.trans (Array.size_setIfInBounds ..).symm))
    (length_unfilledFrom_le 1 1 _)
  refine harrays.mono fun b₂ h => ?_
  rw [read_eq]
  refine finished_eq (h.isShared.trans hentered.isShared) ?_ ?_ h.filled
  · rw [h.before 0 Nat.zero_lt_one, getD_set_self (by omega)]
  · rw [h.size, Array.size_setIfInBounds, hsize]

theorem ofGraph_eq : Build.ofGraph d.nodes.toArray 0 =
    (Build.fillAll d.nodes.length).run d.opened >>= fun p => pure (p.2.finished (.cell 0)) := by
  have hsize : d.nodes.toArray.size = d.nodes.length := List.size_toArray
  unfold Build.ofGraph
  dsimp only
  rw [bind_run value_run_start, hsize, StateT.run_bind, bind_assoc]
  rfl

theorem ofGraph_nodes (h : d.readingOrder.findSome? Scalar.fault? = none) :
    Build.ofGraph d.nodes.toArray 0 = .ok (.map d.read) := by
  have hfill := d.fill_yields
  rw [h] at hfill
  obtain ⟨b, hrun, hfinished⟩ := hfill
  rw [ofGraph_eq, hrun, ← hfinished]
  rfl

theorem ofGraph_nodes_of_fault {f : Yaml.Fault} (h : d.readingOrder.findSome? Scalar.fault? = some f) :
    Build.ofGraph d.nodes.toArray 0 = .error f := by
  have hfill := d.fill_yields
  rw [h] at hfill
  rw [ofGraph_eq, show (Build.fillAll d.nodes.length).run d.opened = .error f from hfill]
  rfl

end Document

end NoteDecor.Json
