import NoteDecor.Proofs.Settings.KeyedOnce
import NoteDecor.Proofs.Value.Grounded
import NoteDecor.Proofs.Value.KeyPath

/-! A key is looked up in one layer after the other, the highest first, or in the merged layers.
Both ways lead to the same value, unless a layer hides what lower ones hold under the key. The layers
can be merged if no way down through any of them goes on for ever. -/

namespace NoteDecor

namespace Value

def Found.orElse : (above below : Found) → Found
  | .missing, below => below
  | above, _ => above

theorem Shows.trans {a b c : Option Value} {f g : Found} (hf : Shows a f b) (hg : Shows b g c) :
    Shows a (g.orElse f) c := by
  cases g with
  | missing =>
    rw [show c = b from hg]
    exact hf
  | blocked => exact hg
  | branch => exact hg
  | leaf v => exact hg

end Value

namespace Settings
open Value

namespace Layers

variable {l : Layers} {path : List String}

def found (l : Layers) (path : List String) (s : Source) : Found :=
  match l s with
  | none => .missing
  | some v => Value.found path v

def topmost (l : Layers) (path : List String) (ss : List Source) : Found :=
  ss.foldr (fun s below => (l.found path s).orElse below) .missing

theorem topmost_cons (s : Source) (ss : List Source) :
    l.topmost path (s :: ss) = (l.found path s).orElse (l.topmost path ss) := rfl

theorem topmost_append_singleton (ss : List Source) (s : Source) :
    l.topmost path (ss ++ [s]) = (l.topmost path ss).orElse (l.found path s) := by
  induction ss with
  | nil =>
    rw [List.nil_append, topmost_cons]
    cases l.found path s <;> rfl
  | cons t ss ih =>
    rw [List.cons_append, topmost_cons, topmost_cons, ih]
    cases l.found path t <;> rfl

theorem topmost_of_missing {above : List Source} (h : ∀ t ∈ above, l.found path t = .missing)
    (ss : List Source) : l.topmost path (above ++ ss) = l.topmost path ss := by
  induction above with
  | nil => rfl
  | cons t above ih =>
    obtain ⟨ht, habove⟩ := List.forall_mem_cons.1 h
    rw [List.cons_append, topmost_cons, ht, ih habove]
    rfl

theorem shows_mergeLayer (h : l.KeyedOnce) (path : List String) {s : Source}
    {base merged : Entries} (hm : mergeLayer base (l s) = .ok merged) :
    Shows (at? path (map base)) (l.found path s) (at? path (map merged)) := by
  unfold found
  cases hs : l s with
  | none =>
    rw [hs] at hm
    cases hm
    rfl
  | some v =>
    rw [hs, mergeLayer, merge] at hm
    cases hv : v.mapping? with
    | none =>
      rw [hv] at hm
      cases hm
    | some es =>
      rw [hv] at hm
      change Shows _ (Value.found path v) _
      rw [found_map hv]
      exact shows_mergeEntries hm (keyedOnce_mapping? (h s v hs) hv) path

theorem shows_merged (h : l.KeyedOnce) (path : List String) (ss : List Source)
    {base merged : Entries}
    (hm : ss.foldlM (fun base s => mergeLayer base (l s)) base = .ok merged) :
    Shows (at? path (map base)) (l.topmost path ss.reverse) (at? path (map merged)) := by
  induction ss generalizing base with
  | nil =>
    cases hm
    rfl
  | cons s ss ih =>
    rw [List.foldlM_cons] at hm
    obtain ⟨next, hnext, hrest⟩ := bind_eq_ok.1 hm
    rw [List.reverse_cons, topmost_append_singleton]
    exact (shows_mergeLayer h path hnext).trans (ih hrest)

theorem shows_all (h : l.KeyedOnce) (path : List String) {merged : Entries}
    (hm : l.all = .ok merged) :
    Shows (at? path (map [])) (l.topmost path Source.all.reverse) (at? path (map merged)) :=
  shows_merged h path Source.all hm

theorem shows_layer (l : Layers) (path : List String) (s : Source) :
    Shows none (l.found path s) ((l s).bind (at? path)) := by
  unfold found
  cases l s with
  | none => rfl
  | some v => exact shows_found path v

theorem held?_of_missing {s : Source} (h : l.found path s = .missing) : l.held? s path = none := by
  have hs := shows_layer l path s
  rw [h] at hs
  rw [held?, show (l s).bind (at? path) = none from hs]
  rfl

theorem held?_of_at? {s : Source} {v : Value} (h : (l s).bind (at? path) = some v)
    (hv : v ≠ null) : l.held? s path = some v := by
  rw [held?, h]
  cases v with
  | null => exact absurd rfl hv
  | _ => rfl

theorem held?_of_leaf {s : Source} {v : Value} (h : l.found path s = .leaf v) (hv : v ≠ null) :
    l.held? s path = some v := by
  have hs := shows_layer l path s
  rw [h] at hs
  exact held?_of_at? hs.1 hv

theorem found_of_held? {s : Source} {v : Value} (h : l.held? s path = some v)
    (hbare : v.mapping? = none) : l.found path s = .leaf v ∧ v ≠ null := by
  obtain ⟨hat, hv⟩ := Option.filter_eq_some_iff.1 h
  obtain ⟨x, hx, hat⟩ := Option.bind_eq_some_iff.1 hat
  refine ⟨?_, fun hnull => ?_⟩
  · rw [found, hx]
    exact (found_of_at? hat).trans (found_nil_of_bare hbare)
  · rw [hnull] at hv
    cases hv

theorem findSome?_held?_of_topmost {ss : List Source} {v : Value}
    (h : l.topmost path ss = .leaf v) (hv : v ≠ null) :
    ss.findSome? (fun s => l.held? s path) = some v := by
  induction ss with
  | nil => cases h
  | cons s ss ih =>
    rw [topmost_cons] at h
    rw [List.findSome?_cons]
    cases hs : l.found path s with
    | missing =>
      rw [hs] at h
      rw [held?_of_missing hs]
      exact ih h
    | leaf w =>
      rw [hs] at h
      cases h
      rw [held?_of_leaf hs hv]
    | blocked =>
      rw [hs] at h
      cases h
    | branch =>
      rw [hs] at h
      cases h

/-- A layer hides what lower ones hold under a key path if it holds nothing there, or on the way
something that is no mapping. -/
def Hides (l : Layers) (path : List String) (t : Source) : Prop :=
  (l t).bind (at? path) = some null ∨
  ∃ front w, front <+: path ∧ front ≠ path ∧ (l t).bind (at? front) = some w ∧ w.mapping? = none

theorem at?_eq_null_iff {t : Source} :
    (l t).bind (at? path) = some null ↔ l.found path t = .leaf null := by
  constructor
  · intro h
    obtain ⟨v, hv, hat⟩ := Option.bind_eq_some_iff.1 h
    rw [found, hv]
    exact (found_of_at? hat).trans (found_nil_of_bare rfl)
  · intro h
    have ht := shows_layer l path t
    rw [h] at ht
    exact ht.1

theorem hides_iff {t : Source} :
    l.Hides path t ↔ l.found path t = .leaf null ∨ l.found path t = .blocked := by
  refine or_congr at?_eq_null_iff ?_
  unfold found
  cases l t with
  | none => simp
  | some v => exact found_eq_blocked_iff.symm

theorem found_of_not_hides {t : Source} (hheld : l.held? t path = none)
    (hhides : ¬ l.Hides path t) : l.found path t = .missing := by
  have ht := shows_layer l path t
  rw [hides_iff, not_or] at hhides
  cases hf : l.found path t with
  | missing => rfl
  | blocked => exact absurd hf hhides.2
  | branch =>
    rw [hf] at ht
    obtain ⟨w, es, hw, hes⟩ := ht
    have hnull : w ≠ null := by
      rintro rfl
      cases hes
    rw [held?_of_at? hw hnull] at hheld
    cases hheld
  | leaf w =>
    have hnull : w ≠ null := by
      rintro rfl
      exact hhides.1 hf
    rw [held?_of_leaf hf hnull] at hheld
    cases hheld

/-- Every layer is a mapping in which no way down goes on for ever. -/
def Grounded (l : Layers) : Prop :=
  ∀ s v, l s = some v → (∃ es, v.mapping? = some es) ∧ v.Grounded

theorem all_ok_of_grounded (h : l.Grounded) : ∃ merged, l.all = .ok merged := by
  refine exists_foldlM_eq_ok (fun base s _ => ?_) []
  cases hs : l s with
  | none => exact ⟨base, rfl⟩
  | some v =>
    obtain ⟨⟨es, hes⟩, hv⟩ := h s v hs
    exact merge_ok_of_grounded hes hv base

/-- What the merged layers hold under a key, if it is something and no mapping, is what looking the
key up gives. What the lookup takes from a layer, if it is no mapping, is what the merged layers
hold under the key, unless a higher layer hides it. Grounded layers can be merged. -/
theorem get_agrees_with_all (hl : l.KeyedOnce) (key : String) :
    (∀ merged v, l.all = .ok merged → (map merged).at? (keyPath key) = some v →
      v ≠ null → v.mapping? = none → ∀ d, l.get key d = v) ∧
    (∀ below s above v, Source.all = below ++ s :: above →
      l.held? s (keyPath key) = some v → v.mapping? = none →
      (∀ t ∈ above, l.held? t (keyPath key) = none ∧ ¬ l.Hides (keyPath key) t) →
      (∀ d, l.get key d = v) ∧
      ∀ merged, l.all = .ok merged → (map merged).at? (keyPath key) = some v) ∧
    (l.Grounded → ∃ merged, l.all = .ok merged) := by
  have hget {v : Value} (ht : l.topmost (keyPath key) Source.all.reverse = .leaf v) (hv : v ≠ null)
      (d : Value) : l.get key d = v := by
    rw [get, get?, findSome?_held?_of_topmost ht hv]
    rfl
  refine ⟨fun merged v hm hat hv hbare d => ?_, fun below s above v hall hheld hbare habove => ?_,
    all_ok_of_grounded⟩
  · have hshows := shows_all hl (keyPath key) hm
    rw [hat] at hshows
    -- only a leaf on top shows something that is neither null nor a mapping
    cases ht : l.topmost (keyPath key) Source.all.reverse with
    | missing =>
      rw [ht] at hshows
      obtain ⟨k, ks, hpath⟩ := List.exists_cons_of_ne_nil (keyPath_ne_nil key)
      rw [hpath] at hshows
      cases hshows
    | blocked =>
      rw [ht] at hshows
      cases hshows
    | branch =>
      rw [ht] at hshows
      obtain ⟨w, es, hw, hes⟩ := hshows
      cases hw
      rw [hbare] at hes
      cases hes
    | leaf w =>
      rw [ht] at hshows
      cases hshows.1
      exact hget ht hv d
  · obtain ⟨hs, hv⟩ := found_of_held? hheld hbare
    have hmissing : ∀ t ∈ above.reverse, l.found (keyPath key) t = .missing := fun t ht =>
      found_of_not_hides (habove t (List.mem_reverse.1 ht)).1 (habove t (List.mem_reverse.1 ht)).2
    have htop : l.topmost (keyPath key) Source.all.reverse = .leaf v := by
      rw [hall, List.reverse_append, List.reverse_cons, List.append_assoc,
        topmost_of_missing hmissing, List.singleton_append, topmost_cons, hs]
      rfl
    refine ⟨hget htop hv, fun merged hm => ?_⟩
    have hshows := shows_all hl (keyPath key) hm
    rw [htop] at hshows
    exact hshows.1

def restacked : Layers :=
  (start.set .file (.record [(root, .record [("logging", .text "off")])])).set .runtime
    (.record [(root, .record [("logging", .record [("level", .text "DEBUG")])])])

theorem get_agrees_with_all_restacked : ∃ merged, restacked.all = .ok merged ∧
    (map merged).at? ["fmdecorator", "logging", "level"] = some (.text "DEBUG") ∧
    ∀ d, restacked.get "fmdecorator.logging.level" d = .text "DEBUG" := by
  have hkeyed : restacked.KeyedOnce :=
    (start_keyedOnce.set (by decide) .file).set (by decide) .runtime
  have hgrounded : restacked.Grounded := by
    intro s v hv
    cases s <;> cases hv <;> exact ⟨⟨_, rfl⟩, grounded_of_ends (by decide)⟩
  have hpath : keyPath "fmdecorator.logging.level" = ["fmdecorator", "logging", "level"] := by
    decide +kernel
  have hheld : restacked.held? .runtime (keyPath "fmdecorator.logging.level") =
      some (.text "DEBUG") := by
    rw [hpath]
    rfl
  obtain ⟨hagrees, htaken, hmerged⟩ := get_agrees_with_all hkeyed "fmdecorator.logging.level"
  obtain ⟨merged, hm⟩ := hmerged hgrounded
  obtain ⟨-, hall⟩ := htaken [.defaults, .file, .environment, .arguments] .runtime [] _ rfl hheld
    rfl (by nofun)
  have hat := hall merged hm
  refine ⟨merged, hm, ?_, hagrees merged _ hm hat (by nofun) rfl⟩
  rw [hpath] at hat
  exact hat

def ring (fs : List (String × Value)) : Value :=
  .knot [.record (fs ++ [("next", .cell 0)]), .record [(root, .cell 0)]] 1

def rings : Layers :=
  (start.set .file (ring [("vault", .text "one")])).set .arguments (ring [])

theorem all_rings : rings.held? .file (keyPath "fmdecorator.vault") = some (.text "one") ∧
    (∀ t ∈ [Source.environment, .arguments, .runtime],
      rings.held? t (keyPath "fmdecorator.vault") = none ∧
      ¬ rings.Hides (keyPath "fmdecorator.vault") t) ∧
    rings.get "fmdecorator.vault" .null = .text "one" ∧ rings.all = .error .endless := by
  have hpath : keyPath "fmdecorator.vault" = ["fmdecorator", "vault"] := by decide +kernel
  have hmissing : ∀ t ∈ [Source.environment, .arguments, .runtime],
      rings.found ["fmdecorator", "vault"] t = .missing := by
    simp only [List.forall_mem_cons, List.not_mem_nil, false_implies, implies_true, and_true]
    exact ⟨rfl, rfl, rfl⟩
  rw [get, get?, hpath]
  refine ⟨rfl, fun t ht => ⟨held?_of_missing (hmissing t ht), ?_⟩, rfl,
    eq_error_of_decide (by decide +kernel)⟩
  rw [hides_iff, hmissing t ht]
  simp

end Layers

end Settings

end NoteDecor
