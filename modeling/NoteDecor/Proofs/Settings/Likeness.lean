import NoteDecor.Proofs.Settings.Agreement
import NoteDecor.Proofs.Value.Tidy

/-! Two stacks of layers. Where every key path meets the same in both of them, layer by layer, they
read alike: merged they are equal, and so is what is looked up under any key. -/

namespace NoteDecor

namespace Value

theorem Found.Alike.orElse {f f' g g' : Found} (h : f.Alike g) (h' : f'.Alike g') :
    (f.orElse f').Alike (g.orElse g') := by
  cases h with
  | missing => exact h'
  | blocked => exact .blocked
  | branch => exact .branch
  | leaf hs => exact .leaf hs

theorem isNull_eq_of_same {v w : Value} (h : v.same w = true) : v.isNull = w.isNull := by
  cases v with
  | null =>
    cases w with
    | null => rfl
    | _ => simp [same, sameAmount, amount?] at h
  | _ =>
    cases w with
    | null => simp [same, sameAmount, amount?] at h
    | _ => rfl

end Value

namespace Settings
open Value

namespace Layers

variable {l l' : Layers}

def Tidy (l : Layers) : Prop := ∀ s v, l s = some v → v.Tidy ∧ ∃ fs, v = record fs

theorem Tidy.keyedOnce (h : l.Tidy) : l.KeyedOnce := fun s v hv => (h s v hv).1.keyedOnce

theorem Tidy.grounded (h : l.Tidy) : l.Grounded := by
  intro s v hv
  obtain ⟨htidy, fs, rfl⟩ := h s v hv
  exact ⟨⟨_, rfl⟩, htidy.grounded⟩

theorem Tidy.set (h : l.Tidy) {fs : List (String × Value)} (hfs : (record fs).Tidy) (s : Source) :
    (l.set s (record fs)).Tidy := by
  intro t w hw
  unfold Layers.set at hw
  split at hw
  · cases hw
    exact ⟨hfs, fs, rfl⟩
  · exact h t w hw

theorem Tidy.found_alike (h : l.Tidy) (path : List String) (s : Source) :
    (l.found path s).Alike (l.found path s) := by
  unfold Layers.found
  cases hs : l s with
  | none => exact .missing
  | some v => exact (h s v hs).1.found_alike path

theorem Tidy.merged (h : l.Tidy) (ss : List Source) {base m : Entries} (hbase : (map base).Tidy)
    (hm : ss.foldlM (fun base s => mergeLayer base (l s)) base = .ok m) : (map m).Tidy := by
  induction ss generalizing base with
  | nil =>
    cases hm
    exact hbase
  | cons s ss ih =>
    rw [List.foldlM_cons] at hm
    obtain ⟨next, hnext, hrest⟩ := bind_eq_ok.1 hm
    refine ih ?_ hrest
    cases hs : l s with
    | none =>
      rw [hs] at hnext
      cases hnext
      exact hbase
    | some v =>
      rw [hs] at hnext
      exact (h s v hs).1.merge hbase hnext

def Alike (l l' : Layers) : Prop := ∀ path s, (l.found path s).Alike (l'.found path s)

/-- Both give equal settings, as a whole and under each key. A default is given back as it is. -/
structure ReadsAlike (l l' : Layers) : Prop where
  all : ∃ m m', l.all = .ok m ∧ l'.all = .ok m' ∧ (map m).same (map m') = true
  get : ∀ key d, l.get key d = l'.get key d ∨ (l.get key d).same (l'.get key d) = true

section Alike

variable (h : l.Alike l') (path : List String)
include h

theorem Alike.topmost (ss : List Source) :
    (l.topmost path ss).Alike (l'.topmost path ss) := by
  induction ss with
  | nil => exact .missing
  | cons s ss ih =>
    rw [topmost_cons, topmost_cons]
    exact (h path s).orElse ih

theorem Alike.layer (s : Source) :
    Value.Alike ((l s).bind (at? path)) ((l' s).bind (at? path)) :=
  (h path s).shown .nothing (shows_layer l path s) (shows_layer l' path s)

end Alike

theorem Alike.held? (h : l.Alike l') (hl : l.Tidy) (hl' : l'.Tidy) (path : List String)
    (s : Source) :
    Option.Rel (fun v w => v.same w = true) (l.held? s path) (l'.held? s path) := by
  have hlayer := h.layer path s
  unfold Layers.held?
  cases ho : (l s).bind (at? path) with
  | none =>
    rw [ho] at hlayer
    cases ho' : (l' s).bind (at? path) with
    | none => exact .none
    | some w =>
      rw [ho'] at hlayer
      cases hlayer
  | some v =>
    rw [ho] at hlayer
    cases ho' : (l' s).bind (at? path) with
    | none =>
      rw [ho'] at hlayer
      cases hlayer
    | some w =>
      obtain ⟨x, hx, hxv⟩ := Option.bind_eq_some_iff.1 ho
      obtain ⟨y, hy, hyw⟩ := Option.bind_eq_some_iff.1 ho'
      -- alike along every path below, so the same as values
      have hsame : v.same w = true := by
        refine ((hl s x hx).1.at? hxv).same_of_alike ((hl' s y hy).1.at? hyw) fun rest => ?_
        have hrest := h.layer (path ++ rest) s
        rw [hx, hy] at hrest
        simpa only [Option.bind_some, at?_append, hxv, hyw] using hrest
      rw [Option.filter_some, Option.filter_some, isNull_eq_of_same hsame]
      split
      · exact .some hsame
      · exact .none

theorem Alike.get (h : l.Alike l') (hl : l.Tidy) (hl' : l'.Tidy) (key : String) (d : Value) :
    l.get key d = l'.get key d ∨ (l.get key d).same (l'.get key d) = true := by
  have hfirst (ss : List Source) : Option.Rel (fun v w => v.same w = true)
      (ss.findSome? fun s => l.held? s (keyPath key))
      (ss.findSome? fun s => l'.held? s (keyPath key)) := by
    induction ss with
    | nil => exact .none
    | cons s ss ih =>
      rw [List.findSome?_cons, List.findSome?_cons]
      have hs := h.held? hl hl' (keyPath key) s
      generalize l.held? s (keyPath key) = o, l'.held? s (keyPath key) = o' at hs
      cases hs with
      | none => exact ih
      | some hsame => exact .some hsame
  have hfound : Option.Rel (fun v w => v.same w = true) (l.get? key) (l'.get? key) :=
    hfirst Source.all.reverse
  unfold Layers.get
  generalize l.get? key = o, l'.get? key = o' at hfound
  cases hfound with
  | none => exact .inl rfl
  | some hsame => exact .inr hsame

theorem Alike.readsAlike (h : l.Alike l') (hl : l.Tidy) (hl' : l'.Tidy) : l.ReadsAlike l' := by
  obtain ⟨m, hm⟩ := all_ok_of_grounded hl.grounded
  obtain ⟨m', hm'⟩ := all_ok_of_grounded hl'.grounded
  refine ⟨⟨m, m', hm, hm', ?_⟩, h.get hl hl'⟩
  refine (hl.merged _ tidy_nothing hm).same_of_alike (hl'.merged _ tidy_nothing hm') fun path => ?_
  have hnothing : Value.Alike (at? path (map [])) (at? path (map [])) := by
    cases path with
    | nil => exact .mappings rfl rfl
    | cons k ks => exact .nothing
  exact (h.topmost path Source.all.reverse).shown hnothing (shows_all hl.keyedOnce path hm)
    (shows_all hl'.keyedOnce path hm')

end Layers

end Settings

end NoteDecor
