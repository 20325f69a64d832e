import NoteDecor.Proofs.Settings.KeyedOnce
import NoteDecor.Proofs.Value.Merging
import NoteDecor.Rule.Settings

/-! The rules are looked up in two ways: under one key path in layer after layer, where what counts
as nothing is passed over, and in the merged layers, where it is not. The two meet in what each layer
says of the rules, the highest first. -/

namespace NoteDecor.Settings
open Value

namespace Layers

def own? (l : Layers) (s : Source) : Option Value :=
  ((l s).bind mapping?).bind fun es => Entries.field? es root

def said? (l : Layers) (s : Source) : Option Value :=
  match l.own? s with
  | none => none
  | some p =>
    match p.mapping? with
    | some fs => Entries.field? fs "rules"
    | none => some null

def Masked (l : Layers) : Prop := Source.all.reverse.findSome? l.said? = some null

def overlooked (l : Layers) : Value :=
  match Source.all.reverse.findSome? l.own? with
  | none => null
  | some p => if p.mapping?.isSome then null else (((p.entries?).getD []).field? "rules").getD null

end Layers

def outline (v : Value) : Value := if v.mapping?.isSome then map [] else v

theorem listOfValue_mapping {v : Value} {es : Entries} (h : v.mapping? = some es) :
    Rule.listOfValue v = .error .notList := by
  have hi : v.items? = none := by
    unfold items?
    rw [opened_of_mapping? h]
  unfold Rule.listOfValue
  split
  · cases h
  · rw [hi]

theorem listOfValue_outline (v : Value) : Rule.listOfValue (outline v) = Rule.listOfValue v := by
  unfold outline
  split
  · next hv =>
      obtain ⟨es, hes⟩ := Option.isSome_iff_exists.1 hv
      rw [listOfValue_mapping hes]
      rfl
  · rfl

theorem outline_placed {old : Option Value} {v placed : Value} (h : Placed old v placed) :
    outline placed = outline v := by
  unfold Placed at h
  split at h
  · next base es hold hv =>
      obtain ⟨fuel, m, -, rfl⟩ := h
      unfold outline
      rw [hv]
      rfl
  · rw [h]

inductive Section where
  | absent
  | members (rules : Option Value)
  | bare (v : Value)

namespace Section

def of : Option Value → Section
  | none => absent
  | some p =>
    match p.mapping? with
    | some fs => members ((Entries.field? fs "rules").map outline)
    | none => bare p

def topped : (below above : Section) → Section
  | below, absent => below
  | members r, members none => members r
  | _, above => above

theorem of_mapping {p : Value} {fs : Entries} (h : p.mapping? = some fs) :
    of (some p) = members ((Entries.field? fs "rules").map outline) := by
  rw [of, h]

theorem of_bare {p : Value} (h : p.mapping? = none) : of (some p) = bare p := by
  rw [of, h]

theorem topped_bare (below : Section) (p : Value) : below.topped (bare p) = bare p := by
  cases below <;> rfl

theorem topped_absent (below : Section) : below.topped absent = below := by
  cases below <;> rfl

theorem topped_of_bare {old : Option Value} (h : old.bind mapping? = none) (r : Option Value) :
    (of old).topped (members r) = members r := by
  cases old with
  | none => cases r <;> rfl
  | some p =>
    rw [of_bare h]
    cases r <;> rfl

theorem of_overlaid {old new merged : Option Value} (h : Overlaid old new merged)
    (hn : ∀ v, new = some v → v.keyedOnce = true) : of merged = (of old).topped (of new) := by
  cases new with
  | none =>
    rw [show merged = old from h]
    exact (topped_absent _).symm
  | some v =>
    obtain ⟨placed, rfl, hj⟩ := h
    cases hv : v.mapping? with
    | none => rw [hj.eq_of_bare hv, of_bare hv, topped_bare]
    | some es =>
      rw [of_mapping hv]
      cases hold : old.bind mapping? with
      | none => rw [hj.eq_of_bare_below hold, of_mapping hv, topped_of_bare hold]
      | some base =>
        -- two mappings: their rules are merged as any other key is
        obtain ⟨fuel, m, hm, rfl⟩ := hj.of_mappings hold hv
        obtain ⟨p, rfl, hp⟩ := Option.bind_eq_some_iff.1 hold
        have hes := keyedOnce_map.1 (keyedOnce_mapping? (hn v rfl) hv)
        have hrules := field?_mergeEntries hm hes.1 "rules"
        rw [of_mapping hp, of_mapping (rfl : (map m).mapping? = some m)]
        cases hf : Entries.field? es "rules" with
        | none =>
          rw [hf] at hrules
          rw [show Entries.field? m "rules" = Entries.field? base "rules" from hrules]
          rfl
        | some w =>
          rw [hf] at hrules
          obtain ⟨r, hr, hjr⟩ := hrules
          rw [hr, Option.map_some, Option.map_some, outline_placed hjr]
          rfl

def stacked (l : Layers) (ss : List Source) : Section :=
  ss.foldr (fun s below => below.topped (of (l.own? s))) absent

theorem stacked_cons (l : Layers) (s : Source) (below : List Source) :
    stacked l (s :: below) = (stacked l below).topped (of (l.own? s)) := rfl

def Agrees (l : Layers) (ss : List Source) : Section → Prop
  | absent => ss.findSome? l.own? = none ∧ ss.findSome? l.said? = none
  | members r => (∃ p fs, ss.findSome? l.own? = some p ∧ p.mapping? = some fs) ∧
      r.getD null = outline ((ss.findSome? l.said?).getD null)
  | bare p => ss.findSome? l.own? = some p ∧ p.mapping? = none ∧
      ss.findSome? l.said? = some null

theorem stacked_agrees (l : Layers) (ss : List Source) : Agrees l ss (stacked l ss) := by
  induction ss with
  | nil => exact ⟨rfl, rfl⟩
  | cons s below ih =>
    rw [stacked_cons]
    cases hown : l.own? s with
    | none =>
      have hsaid : l.said? s = none := by rw [Layers.said?, hown]
      rw [of, topped_absent]
      unfold Agrees at ih ⊢
      simpa only [List.findSome?_cons, hown, hsaid] using ih
    | some p =>
      cases hp : p.mapping? with
      | none =>
        have hsaid : l.said? s = some null := by simp only [Layers.said?, hown, hp]
        rw [of_bare hp, topped_bare]
        refine ⟨?_, hp, ?_⟩
        · rw [List.findSome?_cons, hown]
        · rw [List.findSome?_cons, hsaid]
      | some fs =>
        have hsaid : l.said? s = Entries.field? fs "rules" := by
          simp only [Layers.said?, hown, hp]
        have htop : (s :: below).findSome? l.own? = some p := by rw [List.findSome?_cons, hown]
        rw [of_mapping hp]
        cases hf : Entries.field? fs "rules" with
        | some v =>
          have htopped : (stacked l below).topped (members (some (outline v))) =
              members (some (outline v)) := by cases stacked l below <;> rfl
          rw [Option.map_some, htopped]
          refine ⟨⟨p, fs, htop, hp⟩, ?_⟩
          rw [List.findSome?_cons, hsaid, hf]
          rfl
        | none =>
          -- the layer says nothing, but hides what has no members below it
          have hrest : (s :: below).findSome? l.said? = below.findSome? l.said? := by
            rw [List.findSome?_cons, hsaid, hf]
          rw [Option.map_none]
          cases hb : stacked l below with
          | absent =>
            rw [hb] at ih
            refine ⟨⟨p, fs, htop, hp⟩, ?_⟩
            rw [hrest, ih.2]
            rfl
          | members r =>
            rw [hb] at ih
            refine ⟨⟨p, fs, htop, hp⟩, ?_⟩
            rw [hrest]
            exact ih.2
          | bare q =>
            rw [hb] at ih
            refine ⟨⟨p, fs, htop, hp⟩, ?_⟩
            rw [hrest, ih.2.2]
            rfl

end Section

namespace Layers

theorem own?_keyedOnce {l : Layers} (h : l.KeyedOnce) {s : Source} {v : Value}
    (hv : l.own? s = some v) : v.keyedOnce = true := by
  obtain ⟨es, hes, hf⟩ := Option.bind_eq_some_iff.1 hv
  obtain ⟨w, hw, hm⟩ := Option.bind_eq_some_iff.1 hes
  obtain ⟨e, he, rfl⟩ := Entries.mem_of_field? hf
  exact (keyedOnce_map.1 (keyedOnce_mapping? (h s w hw) hm)).2 e he

theorem mergeLayer_overlaid {l : Layers} (h : l.KeyedOnce) {s : Source} {base merged : Entries}
    (hm : mergeLayer base (l s) = .ok merged) :
    Overlaid (Entries.field? base root) (l.own? s) (Entries.field? merged root) := by
  unfold own?
  cases hs : l s with
  | none =>
    rw [hs] at hm
    cases hm
    rfl
  | some v =>
    rw [hs, mergeLayer, merge] at hm
    cases hv : v.mapping? with
    | none =>
      rw [hv] at hm
      cases hm
    | some es =>
      rw [hv] at hm
      rw [Option.bind_some, hv]
      exact field?_mergeEntries hm (keyedOnce_map.1 (keyedOnce_mapping? (h s v hs) hv)).1 root

theorem section_merged {l : Layers} (h : l.KeyedOnce) (ss : List Source) {base merged : Entries}
    (hm : ss.foldlM (fun base s => mergeLayer base (l s)) base = .ok merged) :
    Section.of (Entries.field? merged root) =
      ss.foldl (fun below s => below.topped (Section.of (l.own? s)))
        (Section.of (Entries.field? base root)) := by
  induction ss generalizing base with
  | nil =>
    cases hm
    rfl
  | cons s r ih =>
    rw [List.foldlM_cons] at hm
    obtain ⟨base', hbase, hr⟩ := bind_eq_ok.1 hm
    have hs := Section.of_overlaid (mergeLayer_overlaid h hbase) fun v hv => own?_keyedOnce h hv
    rw [ih hr, hs, List.foldl_cons]

theorem section_all {l : Layers} (h : l.KeyedOnce) {merged : Entries} (hm : l.all = .ok merged) :
    Section.of (Entries.field? merged root) = Section.stacked l Source.all.reverse := by
  rw [section_merged h Source.all hm, Section.stacked, List.foldr_reverse]
  rfl

theorem held?_rules (l : Layers) (s : Source) :
    l.held? s (keyPath "fmdecorator.rules") = (l.said? s).filter fun v => !v.isNull := by
  have hpath : keyPath "fmdecorator.rules" = [root, "rules"] := by decide +kernel
  rw [held?, hpath, said?, own?]
  cases l s with
  | none => rfl
  | some v =>
    simp only [Option.bind_some, at?]
    cases v.mapping? with
    | none => rfl
    | some es =>
      simp only [Option.bind_some, Option.bind_eq_bind]
      cases Entries.field? es root with
      | none => rfl
      | some p =>
        simp only [Option.bind_some]
        cases p.mapping? with
        | none => rfl
        | some fs => cases hf : Entries.field? fs "rules" <;> simp [hf]

theorem findSome?_filter {α β : Type} {f : α → Option β} {p : β → Bool} {xs : List α}
    (h : ∀ v, xs.findSome? f = some v → p v = true) :
    xs.findSome? (fun x => (f x).filter p) = xs.findSome? f := by
  induction xs with
  | nil => rfl
  | cons x xs ih =>
    rw [List.findSome?_cons, List.findSome?_cons]
    rw [List.findSome?_cons] at h
    cases hx : f x with
    | none =>
      rw [hx] at h
      exact ih h
    | some v =>
      rw [hx] at h
      rw [Option.filter_some, if_pos (h v rfl)]

theorem get?_rules {l : Layers} (h : ¬ l.Masked) :
    l.get? "fmdecorator.rules" = Source.all.reverse.findSome? l.said? := by
  unfold get?
  simp only [held?_rules]
  refine findSome?_filter fun v hv => ?_
  cases v with
  | null => exact (h hv).elim
  | _ => rfl

end Layers

end NoteDecor.Settings
