import NoteDecor.Proofs.Value.KeyedOnce
import NoteDecor.Yaml.Document

/-! What documents are read into. A builder keeps what is asked of the values and of the contents of
cells that it has made; it only ever adds cells, and storing an entry under a key that is there
replaces it. -/

namespace NoteDecor.Yaml
open Value

structure Kinds (P C : Nat → Value → Prop) : Prop where
  value_mono : ∀ {n n' v}, n ≤ n' → P n v → P n' v
  content_mono : ∀ {n n' v}, n ≤ n' → C n v → C n' v
  cell : ∀ {m n}, m < n → P n (cell m)
  scalar : ∀ {t text v} n, Scalar.value t text = .ok v → P n v
  null : ∀ n, C n null
  list : ∀ {n xs}, (∀ x ∈ xs, P n x) → C n (list xs)
  pair : ∀ {n k v}, P n k → P n v → C n (tuple [k, v])
  set : ∀ n xs, C n (set xs)
  map : ∀ {n} {es : Entries}, es.names.Nodup → (∀ e ∈ es, P n e.2) → C n (map es)

section Keeps

variable {P C : Nat → Value → Prop} {α β : Type} {n : Nat}

def Build.Holds (P C : Nat → Value → Prop) (b : Build) : Prop :=
  (∀ v, some v ∈ b.made.toList → P b.cells.size v) ∧ ∀ v ∈ b.cells.toList, C b.cells.size v

def Keeps (P C : Nat → Value → Prop) (n : Nat) (m : Builder α) (Q : Nat → α → Prop) : Prop :=
  ∀ b a b', n ≤ b.cells.size → b.Holds P C → m.run b = .ok (a, b') →
    b.cells.size ≤ b'.cells.size ∧ b'.Holds P C ∧ Q b'.cells.size a

def anything (_ : Nat) (_ : α) : Prop := True

namespace Keeps

theorem pure {a : α} {Q : Nat → α → Prop} (h : ∀ n' ≥ n, Q n' a) :
    Keeps P C n (Pure.pure a) Q := by
  intro b a' b' hn hb hr
  cases hr
  exact ⟨Nat.le_refl _, hb, h _ hn⟩

theorem bind {m : Builder α} {f : α → Builder β} {Q : Nat → α → Prop} {R : Nat → β → Prop}
    (hm : Keeps P C n m Q) (hf : ∀ n' ≥ n, ∀ a, Q n' a → Keeps P C n' (f a) R) :
    Keeps P C n (m >>= f) R := by
  intro b c b' hn hb hr
  rw [StateT.run_bind] at hr
  obtain ⟨⟨a, b₁⟩, hm₁, hf₁⟩ := bind_eq_ok.1 hr
  obtain ⟨hle, hb₁, ha⟩ := hm b a b₁ hn hb hm₁
  obtain ⟨hle', hb', hc⟩ := hf _ (Nat.le_trans hn hle) a ha b₁ c b' (Nat.le_refl _) hb₁ hf₁
  exact ⟨Nat.le_trans hle hle', hb', hc⟩

theorem refuse {Q : Nat → α → Prop} (f : Fault) : Keeps P C n (throw f) Q := by
  intro b a b' hn hb hr
  cases hr

theorem get : Keeps P C n (MonadState.get : Builder Build)
    fun n' b => b.Holds P C ∧ b.cells.size = n' := by
  intro b a b' hn hb hr
  cases hr
  exact ⟨Nat.le_refl _, hb, hb, rfl⟩

theorem modified {f : Build → Build}
    (h : ∀ b, n ≤ b.cells.size → b.Holds P C →
      b.cells.size ≤ (f b).cells.size ∧ (f b).Holds P C) :
    Keeps P C n (modify f : Builder Unit) anything := by
  intro b a b' hn hb hr
  cases hr
  exact ⟨(h b hn hb).1, (h b hn hb).2, trivial⟩

theorem aside {f : Build → Build} (h : ∀ b, (f b).made = b.made ∧ (f b).cells = b.cells) :
    Keeps P C n (modify f : Builder Unit) anything := by
  refine modified fun b _ hb => ?_
  obtain ⟨hmade, hcells⟩ := h b
  rw [Build.Holds, hmade, hcells]
  exact ⟨Nat.le_refl _, hb⟩

theorem lift {x : Result α} {Q : Nat → α → Prop} (h : ∀ a, x = .ok a → ∀ n', Q n' a) :
    Keeps P C n (liftM x : Builder α) Q := by
  intro b a b' hn hb hr
  obtain ⟨a', ha', hp⟩ := bind_eq_ok.1 hr
  cases hp
  exact ⟨Nat.le_refl _, hb, h a ha' _⟩

theorem mapM {f : α → Builder β} {Q : Nat → β → Prop} {xs : List α}
    (h : ∀ x, ∀ n' ≥ n, Keeps P C n' (f x) Q) (hQ : ∀ n n' y, n ≤ n' → Q n y → Q n' y) :
    Keeps P C n (xs.mapM f) fun n' ys => ∀ y ∈ ys, Q n' y := by
  induction xs generalizing n with
  | nil => exact pure fun n' _ y hy => by cases hy
  | cons x xs ih =>
    rw [List.mapM_cons]
    refine bind (h x n (Nat.le_refl n)) fun n₁ hn₁ y hy => ?_
    refine bind (ih fun x n' hn' => h x n' (Nat.le_trans hn₁ hn')) fun n₂ hn₂ ys hys => ?_
    refine pure fun n₃ hn₃ => List.forall_mem_cons.2
      ⟨hQ _ _ y (Nat.le_trans hn₂ hn₃) hy, fun z hz => hQ _ _ z hn₃ (hys z hz)⟩

end Keeps

end Keeps

namespace Build

section Flattening

variable {P C : Nat → Value → Prop}

theorem node_keeps (k n : Nat) : Keeps P C n (node k) anything :=
  .bind .get fun _ _ _ _ => .pure fun _ _ => trivial

theorem setNode_keeps (k : Nat) (x : Node) (n : Nat) : Keeps P C n (setNode k x) anything :=
  .aside fun _ => ⟨rfl, rfl⟩

theorem entriesOf_keeps (k n : Nat) : Keeps P C n (entriesOf k) anything := by
  unfold entriesOf
  refine .bind (node_keeps k n) fun n₁ _ x _ => ?_
  split <;> exact .pure fun _ _ => trivial

theorem setEntries_keeps (k : Nat) (es : List (Nat × Nat)) (n : Nat) :
    Keeps P C n (setEntries k es) anything :=
  .bind (node_keeps k n) fun n₁ _ _ _ => setNode_keeps k _ n₁

theorem brought_keeps {flatten : Nat → Builder Unit}
    (hf : ∀ m n, Keeps P C n (flatten m) anything) (k n : Nat) :
    Keeps P C n (brought flatten k) anything := by
  unfold brought
  extract_lets mapping
  have hm : ∀ m n, Keeps P C n (mapping m) anything := by
    intro m n
    refine .bind (node_keeps m n) fun n₁ _ x _ => ?_
    split
    · exact .bind (hf m n₁) fun n₂ _ _ _ => entriesOf_keeps m n₂
    · exact .refuse _
  refine .bind (node_keeps k n) fun n₁ _ x _ => ?_
  split
  · exact .bind (.mapM (fun m n' _ => hm m n') fun _ _ _ _ _ => trivial) fun _ _ _ _ =>
      .pure fun _ _ => trivial
  · exact hm k n₁

theorem mergedInto_keeps {flatten : Nat → Builder Unit}
    (hf : ∀ m n, Keeps P C n (flatten m) anything) (k : Nat) (es done : List (Nat × Nat))
    (n : Nat) : Keeps P C n (mergedInto flatten k done es) anything := by
  induction es generalizing done n with
  | nil => exact .pure fun _ _ => trivial
  | cons e rest ih =>
    unfold mergedInto
    refine .bind (node_keeps e.1 n) fun n₁ _ key _ => ?_
    split
    · refine .bind (setEntries_keeps k _ n₁) fun n₂ _ _ _ => ?_
      refine .bind (brought_keeps hf e.2 n₂) fun n₃ _ es _ => ?_
      refine .bind (entriesOf_keeps k n₃) fun n₄ _ own _ => ?_
      split
      · exact .bind (ih done n₄) fun _ _ _ _ => .pure fun _ _ => trivial
      · exact .pure fun _ _ => trivial
    · exact .bind (setNode_keeps _ _ n₁) fun n₂ _ _ _ => ih _ n₂
    · exact ih _ n₁

theorem flatten_keeps (fuel k n : Nat) : Keeps P C n (flatten fuel k) anything := by
  induction fuel generalizing k n with
  | zero => exact .refuse _
  | succ fuel ih =>
    unfold flatten
    refine .bind (entriesOf_keeps k n) fun n₁ _ es _ => ?_
    refine .bind (mergedInto_keeps ih k es [] n₁) fun n₂ _ merged _ => ?_
    exact .bind (entriesOf_keeps k n₂) fun n₃ _ _ _ => setEntries_keeps k _ n₃

end Flattening

section Values

variable {P C : Nat → Value → Prop} (hk : Kinds P C)
include hk

theorem scalar_keeps (x : Node) (n : Nat) : Keeps P C n (scalar x) P := by
  unfold scalar
  refine .bind .get fun n₁ _ b _ =>
    .bind (.lift (Q := anything) fun _ _ _ => trivial) fun n₂ _ text _ => ?_
  split
  · exact .refuse _
  · exact .lift fun v hv n' => hk.scalar n' hv

theorem holds_push {b : Build} (hb : b.Holds P C) {v : Value} (hv : C b.cells.size v) :
    Holds P C { b with cells := b.cells.push v } := by
  have hle : b.cells.size ≤ (b.cells.push v).size := by simp
  refine ⟨fun w hw => hk.value_mono hle (hb.1 w hw), fun w hw => hk.content_mono hle ?_⟩
  rcases List.mem_append.1 (Array.toList_push ▸ hw) with hw | hw
  · exact hb.2 w hw
  · exact (List.mem_singleton.1 hw) ▸ hv

theorem newCell_keeps {v : Value} {n : Nat} (hv : C n v) :
    Keeps P C n (newCell v) fun n' m => m < n' := by
  intro b m b' hn hb hr
  cases hr
  exact ⟨by simp, holds_push hk hb (hk.content_mono hn hv), by simp⟩

theorem container_keeps (k n : Nat) : Keeps P C n (container k) P :=
  .bind (newCell_keeps hk (hk.null n)) fun _ _ _ hm =>
    .bind (.aside fun _ => ⟨rfl, rfl⟩) fun _ hn₂ _ _ =>
      .pure fun _ hn₃ => hk.cell (Nat.lt_of_lt_of_le hm (Nat.le_trans hn₂ hn₃))

theorem value_keeps (k n : Nat) : Keeps P C n (value k) P := by
  unfold value
  refine .bind .get fun n₁ _ b ⟨hb, hsize⟩ => ?_
  split
  · next v hv =>
      refine .bind (.aside fun _ => ⟨rfl, rfl⟩) fun n₂ hn₂ _ _ => .pure fun n₃ hn₃ => ?_
      have hmade : P n₁ v := by
        refine hsize ▸ hb.1 v ?_
        rw [Array.getD_eq_getD_getElem?] at hv
        cases hm : b.made[k]? with
        | none =>
          rw [hm] at hv
          cases hv
        | some w =>
          rw [hm, Option.getD_some] at hv
          exact hv ▸ (Array.mem_of_getElem? hm).val
      exact hk.value_mono (Nat.le_trans hn₂ hn₃) hmade
  · refine .bind (node_keeps k n₁) fun n₂ _ x _ => ?_
    have hmade (n : Nat) (v : Value) (hv : P n v) : Keeps P C n (do
        modify fun b => { b with made := b.made.setIfInBounds k (some v) }
        return v) P := by
      refine .bind (.modified fun b hn hb => ⟨Nat.le_refl _, fun w hw => ?_, hb.2⟩)
        fun n₁ hn₁ _ _ => .pure fun n₂ hn₂ => hk.value_mono (Nat.le_trans hn₁ hn₂) hv
      rw [Array.toList_setIfInBounds] at hw
      rcases List.mem_or_eq_of_mem_set hw with hw | hw
      · exact hb.1 w hw
      · cases hw
        exact hk.value_mono hn hv
    dsimp only
    -- all ways of making the value end in storing it
    split
    · exact .bind (container_keeps hk k n₂) fun n₃ _ => hmade n₃
    · split
      · exact .bind (scalar_keeps hk x n₂) fun n₃ _ => hmade n₃
      · exact .bind (Q := P) (.refuse _) fun n₃ _ => hmade n₃

end Values

theorem keys_putEntry (e : Entry) (es : List Entry) :
    (putEntry e es).map Entry.key = es.map Entry.key ∨
    (putEntry e es).map Entry.key = es.map Entry.key ++ [e.key] ∧
      ∀ x ∈ es, e.key.same x.key = false := by
  induction es with
  | nil => exact .inr ⟨rfl, fun x hx => by cases hx⟩
  | cons x r ih =>
    unfold putEntry
    split
    · exact .inl rfl
    · next hx =>
        rw [Bool.or_eq_true, not_or] at hx
        refine ih.imp (fun h => ?_) fun ⟨h, hr⟩ => ⟨?_, fun y hy => ?_⟩
        · rw [List.map_cons, h, List.map_cons]
        · rw [List.map_cons, h, List.map_cons, List.cons_append]
        · rcases List.mem_cons.1 hy with rfl | hy
          · exact Bool.eq_false_iff.2 hx.1
          · exact hr y hy

theorem mem_putEntry {e y : Entry} {es : List Entry} (h : y ∈ putEntry e es) :
    y.value = e.value ∨ ∃ x ∈ es, y.value = x.value := by
  induction es with
  | nil =>
    rw [putEntry, List.mem_singleton] at h
    exact .inl (h ▸ rfl)
  | cons x r ih =>
    unfold putEntry at h
    split at h
    · rcases List.mem_cons.1 h with rfl | h
      · exact .inl rfl
      · exact .inr ⟨y, List.mem_cons_of_mem _ h, rfl⟩
    · rcases List.mem_cons.1 h with rfl | h
      · exact .inr ⟨y, List.mem_cons_self, rfl⟩
      · exact (ih h).imp_right fun ⟨z, hz, he⟩ => ⟨z, List.mem_cons_of_mem _ hz, he⟩

def names (es : List Entry) : List String := es.filterMap fun e => e.key.text?

theorem names_eq (es : List Entry) :
    names es = (es.map Entry.key).filterMap Value.text? := by
  rw [List.filterMap_map]
  rfl

theorem nodup_putEntry {es : List Entry} (h : (names es).Nodup) (e : Entry) :
    (names (putEntry e es)).Nodup := by
  rw [names_eq] at h ⊢
  rcases keys_putEntry e es with hk | ⟨hk, hnew⟩
  · rw [hk]
    exact h
  · rw [hk, List.filterMap_append]
    cases ht : e.key.text? with
    | none => simpa [ht] using h
    | some k =>
      rw [List.filterMap_cons_some ht, List.filterMap_nil]
      refine List.nodup_append.2 ⟨h, by simp, fun s hs t hk he => ?_⟩
      obtain ⟨y, hy, hys⟩ := List.mem_filterMap.1 hs
      obtain ⟨x, hx, rfl⟩ := List.mem_map.1 hy
      -- a new text among the keys would have been the same as one that is there already
      have hkey : e.key = text k := by
        revert ht
        cases e.key <;> simp [text?]
      have hsame := hnew x hx
      rw [hkey, same_text_left, Bool.eq_false_iff] at hsame
      refine hsame (Entries.isKey_iff.2 ?_)
      rw [hys, he, List.mem_singleton.1 hk]

theorem foldl_putEntry {Q : Value → Prop} {es done : List Entry} (hn : (names done).Nodup)
    (hd : ∀ e ∈ done, Q e.value) (he : ∀ e ∈ es, Q e.value) :
    (names (es.foldl (fun acc e => putEntry e acc) done)).Nodup ∧
      ∀ e ∈ es.foldl (fun acc e => putEntry e acc) done, Q e.value := by
  induction es generalizing done with
  | nil => exact ⟨hn, hd⟩
  | cons e r ih =>
    refine ih (nodup_putEntry hn e) (fun y hy => ?_) fun y hy => he y (List.mem_cons_of_mem _ hy)
    rcases mem_putEntry hy with h | ⟨x, hx, h⟩
    · exact h ▸ he e List.mem_cons_self
    · exact h ▸ hd x hx

section Contents

variable {P C : Nat → Value → Prop} (hk : Kinds P C)
include hk

theorem entry_keeps (e : Nat × Nat) (n : Nat) :
    Keeps P C n (entry e) fun n' e => P n' e.value := by
  unfold entry
  refine .bind (value_keeps hk e.1 n) fun n₁ _ key _ => ?_
  have hrest (n : Nat) : Keeps P C n (do
      return Entry.mk key (origin? e.1 (← node e.1) key) (← value e.2))
      fun n' e => P n' e.value :=
    .bind (node_keeps e.1 n) fun n₁ _ _ _ => .bind (value_keeps hk e.2 n₁) fun n₂ _ _ hv =>
      .pure fun n₃ hn₃ => hk.value_mono hn₃ hv
  dsimp only
  split
  · exact .bind (Q := anything) (.refuse _) fun n₂ _ _ _ => hrest n₂
  · exact hrest n₁

theorem mappingEntries_keeps (k n : Nat) : Keeps P C n (mappingEntries k) fun n' es =>
    (names es).Nodup ∧ ∀ e ∈ es, P n' e.value := by
  unfold mappingEntries
  refine .bind (node_keeps k n) fun n₁ _ x _ => ?_
  split
  · refine .bind .get fun n₂ _ b _ => .bind (flatten_keeps _ k n₂) fun n₃ _ _ _ => ?_
    refine .bind (entriesOf_keeps k n₃) fun n₄ _ own _ => ?_
    refine .bind (.mapM (fun e n' _ => entry_keeps hk e n') fun _ _ _ => hk.value_mono)
      fun n₅ _ es hes => ?_
    exact .pure fun n₆ hn₆ => foldl_putEntry List.nodup_nil (fun e he => by cases he)
      fun e he => hk.value_mono hn₆ (hes e he)
  · exact .refuse _

omit hk in
theorem items_keeps (k n : Nat) : Keeps P C n (items k) anything := by
  unfold items
  refine .bind (node_keeps k n) fun n₁ _ x _ => ?_
  split
  · exact .pure fun _ _ => trivial
  · exact .refuse _

theorem pair_keeps (k n : Nat) : Keeps P C n (pair k) P := by
  unfold pair
  refine .bind (node_keeps k n) fun n₁ _ x _ => ?_
  split
  · next k v hx =>
      refine .bind (value_keeps hk k n₁) fun n₂ _ key hkey => ?_
      refine .bind (value_keeps hk v n₂) fun n₃ hn₃ w hw => ?_
      refine .bind (newCell_keeps hk (hk.pair (hk.value_mono hn₃ hkey) hw)) fun n₄ _ m hm => ?_
      exact .pure fun n₅ hn₅ => hk.cell (Nat.lt_of_lt_of_le hm hn₅)
  · exact .refuse _

theorem content_keeps (k n : Nat) : Keeps P C n (content k) C := by
  unfold content
  refine .bind (node_keeps k n) fun n₁ _ x _ => ?_
  have hlist {f : Nat → Builder Value} (hf : ∀ k n, Keeps P C n (f k) P) :
      Keeps P C n₁ (do return .list (← (← items k).mapM f)) C := by
    refine .bind (items_keeps k n₁) fun n₂ _ ns _ => ?_
    refine .bind (.mapM (fun k n' _ => hf k n') fun _ _ _ => hk.value_mono) fun n₃ _ xs hxs => ?_
    exact .pure fun n₄ hn₄ => hk.content_mono hn₄ (hk.list hxs)
  split
  · exact hlist (value_keeps hk)
  · exact .bind (mappingEntries_keeps hk k n₁) fun _ _ _ _ => .pure fun n' _ => hk.set n' _
  · exact hlist (pair_keeps hk)
  · exact hlist (pair_keeps hk)
  · refine .bind (mappingEntries_keeps hk k n₁) fun n₂ _ es hes => .pure fun n₃ hn₃ => ?_
    refine hk.content_mono hn₃ (hk.map ?_ ?_)
    · rw [Entries.names, List.filterMap_map]
      exact hes.1
    · simpa only [List.forall_mem_map] using hes.2

theorem fillAll_keeps (fuel n : Nat) : Keeps P C n (fillAll fuel) anything := by
  induction fuel generalizing n with
  | zero => exact .pure fun _ _ => trivial
  | succ fuel ih =>
    unfold fillAll
    refine .bind .get fun n₁ _ b _ => ?_
    split
    · exact .pure fun _ _ => trivial
    · next k cell waiting hw =>
        refine .bind (.aside fun _ => ⟨rfl, rfl⟩) fun n₂ _ _ _ => ?_
        refine .bind (content_keeps hk k n₂) fun n₃ _ v hv => ?_
        refine .bind (.modified fun b hn hb => ?_) fun n₄ _ _ _ => ih n₄
        have hsize : (b.cells.setIfInBounds cell v).size = b.cells.size := by simp
        refine ⟨Nat.le_of_eq hsize.symm, fun w hw => hsize.symm ▸ hb.1 w hw, fun w hw => ?_⟩
        rw [Array.toList_setIfInBounds] at hw
        rcases List.mem_or_eq_of_mem_set hw with hw | rfl
        · exact hsize.symm ▸ hb.2 w hw
        · exact hsize.symm ▸ hk.content_mono hn hv

end Contents

theorem start_holds (P C : Nat → Value → Prop) (g : Graph) : (start g).Holds P C := by
  refine ⟨fun v hv => ?_, fun v hv => by cases hv⟩
  rw [start, Array.toList_replicate, List.mem_replicate] at hv
  cases hv.2

theorem ofGraph_finished {P C : Nat → Value → Prop} (hk : Kinds P C) {g : Graph} {root : Nat}
    {v : Value} (h : ofGraph g root = .ok v) :
    ∃ w b, v = finished b w ∧ b.Holds P C ∧ P b.cells.size w := by
  obtain ⟨⟨w, b⟩, hrun, hv⟩ := bind_eq_ok.1 h
  cases hv
  have hmake : Keeps P C 0 (do
      let v ← value root
      fillAll g.size
      return v) P :=
    .bind (value_keeps hk root 0) fun n₁ _ _ hv =>
      .bind (fillAll_keeps hk _ n₁) fun n₂ hn₂ _ _ => .pure fun n₃ hn₃ =>
        hk.value_mono (Nat.le_trans hn₂ hn₃) hv
  obtain ⟨-, hb, hw⟩ := hmake _ _ _ (Nat.zero_le _) (start_holds P C g) hrun
  exact ⟨w, b, rfl, hb, hw⟩

end Build

theorem scalarValue_cases {Q : Value → Prop} {t : Tag} {text : String} {v : Value}
    (h : Scalar.value t text = .ok v) (hnull : Q null) (hbool : ∀ b, Q (bool b))
    (hint : ∀ n, Q (int n)) (hfloat : ∀ x, Q (float x)) (hbytes : ∀ bs, Q (bytes bs))
    (hdate : ∀ d, Q (date d)) (hmoment : ∀ m, Q (moment m)) (htext : ∀ s, Q (Value.text s)) :
    Q v := by
  -- a case for each tag, in the order in which they are told apart
  unfold Scalar.value at h
  split at h
  · cases h
    exact hnull
  · unfold Scalar.bool at h
    dsimp only at h
    split at h
    · cases h
      exact hbool _
    · cases h
  · obtain ⟨p, -, hp⟩ := bind_eq_ok.1 h
    obtain ⟨n, -, hn⟩ := bind_eq_ok.1 hp
    cases hn
    exact hint _
  · obtain ⟨p, -, hp⟩ := bind_eq_ok.1 h
    obtain ⟨x, -, hx⟩ := bind_eq_ok.1 hp
    cases hx
    exact hfloat _
  · unfold Scalar.binary at h
    dsimp only at h
    split at h
    · cases h
    · obtain ⟨bs, -, hbs⟩ := bind_eq_ok.1 h
      cases hbs
      exact hbytes _
  · unfold Scalar.timestamp at h
    split at h
    · cases h
    · split at h
      · obtain ⟨d, -, rfl⟩ := map_eq_ok.1 (mapError_eq_ok.1 h)
        exact hdate _
      · obtain ⟨m, -, rfl⟩ := map_eq_ok.1 (mapError_eq_ok.1 h)
        exact hmoment _
  · cases h
    exact htext _
  · cases h

end NoteDecor.Yaml
