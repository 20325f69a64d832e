import Mathlib.Data.List.Infix
import NoteDecor.Proofs.Settings.Sound
import NoteDecor.Proofs.Value.Stepwise
import NoteDecor.Proofs.Workspace.SuccessfulReload

/-! Storing under a key of one layer a value that nothing else holds. Either something that is no
mapping is in the way and all stays as it was, or the value is there, nothing beside the key has
changed and the key reads as the layers above allow. This is so wherever no mapping on the way is
held in another place. -/

namespace NoteDecor

namespace Settings
open Value

namespace Layers

variable {l l' : Layers} {s : Source} {path : List String} {v : Value}

/-- What a layer holds, which is nothing if there is no such layer. -/
def content (l : Layers) (s : Source) : Value := (l s).getD (map [])

/-- On the way of a path a layer holds something that is no mapping. -/
def Blocked (l : Layers) (s : Source) (path : List String) : Prop :=
  ∃ front u, front <+: path ∧ front ≠ path ∧ (l.content s).at? front = some u ∧ u.mapping? = none

/-- Layers after a value was stored in one of them. Below a knot, what is unchanged looks the same
to every depth; in a tree it is the very same. -/
structure Updated (l l' : Layers) (s : Source) (path : List String) (v : Value) : Prop where
  holds : (l' s).bind (at? path) = some v
  others : ∀ t ≠ s, l' t = l t
  beside : ∀ other, Beside other path →
    Option.Rel LooksLike ((l s).bind (at? other)) ((l' s).bind (at? other))
  beside_tree : (l.content s).ends = true → ∀ other, Beside other path →
    (l' s).bind (at? other) = (l s).bind (at? other)

theorem at?_content {path : List String} (hpath : path ≠ []) :
    (l.content s).at? path = (l s).bind (at? path) := by
  obtain ⟨k, ks, rfl⟩ := List.exists_cons_of_ne_nil hpath
  unfold content
  cases l s <;> rfl

theorem blocked_iff : l.Blocked s path ↔ Value.found path (l.content s) = .blocked :=
  found_eq_blocked_iff.symm

theorem set_self (l : Layers) (s : Source) (v : Value) : l.set s v s = some v := if_pos rfl

theorem set_of_ne {t : Source} (ht : t ≠ s) (v : Value) : l.set s v t = l t := if_neg ht

theorem content_set_self (l : Layers) (s : Source) (v : Value) : (l.set s v).content s = v := by
  rw [content, set_self, Option.getD_some]

theorem updated_set {w : Value} (hat : w.at? path = some v)
    (hbeside : ∀ other, Beside other path →
      Option.Rel LooksLike ((l.content s).at? other) (w.at? other))
    (htree : (l.content s).ends = true → ∀ other, Beside other path →
      w.at? other = (l.content s).at? other) :
    Updated l (l.set s w) s path v := by
  have hne (other : List String) (h : Beside other path) : other ≠ [] := by
    rintro rfl
    exact not_beside_nil path h
  refine ⟨?_, fun t ht => set_of_ne ht w, fun other h => ?_, fun hends other h => ?_⟩
  · rw [set_self]
    exact hat
  · rw [set_self, ← at?_content (hne other h)]
    exact hbeside other h
  · rw [set_self, ← at?_content (hne other h)]
    exact htree hends other h

theorem not_mem_above {below above : List Source} (h : Source.all = below ++ s :: above) :
    s ∉ above := by
  have hnodup : Source.all.Nodup := by decide
  rw [h] at hnodup
  exact (List.nodup_cons.1 (List.nodup_append.1 hnodup).2.1).1

theorem get?_eq {key : String} {below above : List Source}
    (h : Source.all = below ++ s :: above) :
    l.get? key =
      (above.reverse.findSome? fun t => l.held? t (keyPath key)).or
        ((l.held? s (keyPath key)).or
          (below.reverse.findSome? fun t => l.held? t (keyPath key))) := by
  rw [get?, h, List.reverse_append, List.reverse_cons, List.append_assoc, List.findSome?_append,
    List.singleton_append, List.findSome?_cons]
  cases l.held? s (keyPath key) <;> rfl

theorem Updated.held?_self (h : Updated l l' s path v) (hv : v.isNull = false) :
    l'.held? s path = some v := by
  rw [held?, h.holds, Option.filter_some, hv]
  rfl

theorem findSome?_held?_congr {ss : List Source} (h : ∀ t ∈ ss, l' t = l t) :
    ss.findSome? (fun t => l'.held? t path) = ss.findSome? fun t => l.held? t path := by
  induction ss with
  | nil => rfl
  | cons t ss ih =>
    obtain ⟨ht, hss⟩ := List.forall_mem_cons.1 h
    rw [List.findSome?_cons, List.findSome?_cons, held?, held?, ht, ih hss]

theorem Updated.get {key : String} (h : Updated l l' s (keyPath key) v) (hv : v.isNull = false)
    {below above : List Source} (hall : Source.all = below ++ s :: above) (d : Value) :
    ((∀ t ∈ above, l.held? t (keyPath key) = none) → l'.get key d = v) ∧
    ((∃ t ∈ above, l.held? t (keyPath key) ≠ none) → l'.get key d = l.get key d) := by
  have habove : above.reverse.findSome? (fun t => l'.held? t (keyPath key)) =
      above.reverse.findSome? fun t => l.held? t (keyPath key) :=
    findSome?_held?_congr fun t ht =>
      h.others t fun hts => not_mem_above hall (hts ▸ List.mem_reverse.1 ht)
  rw [Layers.get, Layers.get, get?_eq hall, get?_eq hall, habove, h.held?_self hv]
  constructor
  · intro hnone
    rw [List.findSome?_eq_none_iff.2 fun t ht => hnone t (List.mem_reverse.1 ht)]
    rfl
  · rintro ⟨t, ht, hheld⟩
    cases hfind : above.reverse.findSome? fun t => l.held? t (keyPath key) with
    | none => exact absurd (List.findSome?_eq_none_iff.1 hfind t (List.mem_reverse.2 ht)) hheld
    | some x => rfl

end Layers

end Settings

namespace Workspace
open Settings Value

variable {h : Host} {w : Workspace} {key : String} {v : Value} {s : Source}

theorem set_error {f : PathFault}
    (hs : (w.settings.layers.content s).setAt (keyPath key) v = .error f) :
    w.set h key v s = (w, .error (.path f)) := by
  have hput : w.settings.layers.put key v s = .error f := by
    unfold Layers.put
    exact bind_eq_error.2 (.inl hs)
  rw [set, Settings.put, hput]
  rfl

theorem set_ok {u : Value} (hs : (w.settings.layers.content s).setAt (keyPath key) v = .ok u) :
    w.set h key v s =
      notify h { w with settings := ⟨w.settings.layers.set s u, w.settings.files⟩ } := by
  have hput : w.settings.layers.put key v s = .ok (w.settings.layers.set s u) := by
    unfold Layers.put
    exact bind_eq_ok.2 ⟨u, hs, rfl⟩
  rw [set, Settings.put, hput]
  rfl

theorem notify_ok_iff (hw : w.watchers = []) :
    (w.notify h).2 = .ok () ↔ ∃ merged, w.settings.layers.all = .ok merged := by
  unfold notify
  rw [hw]
  cases w.settings.layers.all with
  | error f => exact iff_of_false nofun nofun
  | ok merged => exact iff_of_true rfl ⟨merged, rfl⟩

/-- A value is stored under a key unless something that is no mapping is in the way, and then all
stays as it was, also where the mappings on the way are made one by one. Once it is stored, the layer
holds it there, nothing beside the key and no other layer has changed, and the key reads as the
value or, where a higher layer holds something under it, as before. This is so for all settings in
which no mapping on the way is held in another place. -/
theorem set_lawful (hmade : w.settings.Made) (hnull : v.isNull = false) (hv : v.mentioned = [])
    (howned : (w.settings.layers.content s).Owned (keyPath key)) :
    (w.settings.layers.Blocked s (keyPath key) →
      (∃ f, w.set h key v s = (w, .error (.path f))) ∧
      ∃ f, stepwise v [] (keyPath key) (w.settings.layers.content s) =
        (w.settings.layers.content s, .error f)) ∧
    (¬ w.settings.layers.Blocked s (keyPath key) →
      ∀ w' result, w.set h key v s = (w', result) →
        Layers.Updated w.settings.layers w'.settings.layers s (keyPath key) v ∧
        (∀ below above, Source.all = below ++ s :: above → ∀ d,
          ((∀ t ∈ above, w.settings.layers.held? t (keyPath key) = none) →
            w'.settings.get key d = v) ∧
          ((∃ t ∈ above, w.settings.layers.held? t (keyPath key) ≠ none) →
            w'.settings.get key d = w.settings.get key d)) ∧
        stepwise v [] (keyPath key) (w.settings.layers.content s) =
          (w'.settings.layers.content s, .ok ()) ∧
        w'.settings.files = w.settings.files ∧
        (w.watchers = [] →
          (result = .ok () ↔ ∃ merged, w'.settings.layers.all = .ok merged))) := by
  have hsound : (w.settings.layers.content s).Sound := sound_lasting.getD hmade.sound s
  have hlawful := hsound.lawful howned hv
  have hsteps := stepwise_eq hsound v (keyPath_ne_nil key)
  rw [Layers.blocked_iff]
  refine ⟨fun hb => ?_, fun hb w' result hset => ?_⟩
  · obtain ⟨f, hf⟩ := hlawful.exists_error hb
    rw [hf] at hsteps
    exact ⟨⟨f, set_error hf⟩, hsteps⟩
  · obtain ⟨u, hu, hat, hbeside⟩ := hlawful.exists_ok hb
    rw [hu] at hsteps
    rw [set_ok hu] at hset
    -- the watchers that are told leave the settings alone
    have hsettings : w'.settings = ⟨w.settings.layers.set s u, w.settings.files⟩ := by
      have hframe := (notify_frame (h := h)
        { w with settings := ⟨w.settings.layers.set s u, w.settings.files⟩ }).1
      rwa [hset] at hframe
    have hupdated := Layers.updated_set hat hbeside (at?_eq_of_ends · hb hu)
    rw [hsettings]
    refine ⟨hupdated, fun below above hall d => hupdated.get hnull hall d, ?_, rfl, fun hw => ?_⟩
    · rw [hsteps]
      dsimp only
      rw [Layers.content_set_self]
    · have hnotified := notify_ok_iff (h := h)
        (w := { w with settings := ⟨w.settings.layers.set s u, w.settings.files⟩ }) hw
      rwa [hset] at hnotified

def sharingFile : Disk :=
  diskOf [("a.yaml", "a: &x \x7bk: old\x7d\nb: *x\nr: &y \x7bself: *y\x7d\n")]

def textAt (w : Workspace) (key : String) : Option String := (w.settings.get key .null).text?

theorem set_shared : ∃ c w₁ w₂, Settings.start sharingFile "a.yaml" [] = .ok c ∧
    Beside (keyPath "fmdecorator.b.k") (keyPath "fmdecorator.a.k") ∧
    (unwatched c).set .idle "fmdecorator.a.k" (.text "new") .file = (w₁, .ok ()) ∧
    textAt (unwatched c) "fmdecorator.b.k" = some "old" ∧
    textAt w₁ "fmdecorator.b.k" = some "new" ∧
    (unwatched c).set .idle "fmdecorator.r.self.self" (.text "new") .file = (w₂, .ok ()) ∧
    w₂.settings.get "fmdecorator.r.self.self" .null ≠ .text "new" := by
  have hrun : ((Settings.start sharingFile "a.yaml" []).toOption.map fun c =>
      let r₁ := (unwatched c).set .idle "fmdecorator.a.k" (.text "new") .file
      let r₂ := (unwatched c).set .idle "fmdecorator.r.self.self" (.text "new") .file
      ((r₁.2.isOk, textAt (unwatched c) "fmdecorator.b.k", textAt r₁.1 "fmdecorator.b.k"),
        (r₂.2.isOk, textAt r₂.1 "fmdecorator.r.self.self"))) =
      some ((true, some "old", some "new"), (true, none)) := by decide +kernel
  cases hc : Settings.start sharingFile "a.yaml" [] with
  | error f =>
    rw [hc] at hrun
    cases hrun
  | ok c =>
    simp only [hc, Except.toOption, Option.map_some, Option.some.injEq, Prod.mk.injEq] at hrun
    obtain ⟨⟨hok₁, hold, hnew⟩, hok₂, hlost⟩ := hrun
    refine ⟨c, _, _, rfl, by decide +kernel, Prod.ext rfl (eq_ok_of_isOk hok₁), hold, hnew,
      Prod.ext rfl (eq_ok_of_isOk hok₂), fun hget => ?_⟩
    rw [textAt, hget] at hlost
    cases hlost

end Workspace

end NoteDecor
