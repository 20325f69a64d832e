import NoteDecor.Outcome.Describe
import NoteDecor.Proofs.Steps

/-! An outcome that is read from a mapping has class names and badges of the right kinds. It can be
written down, and what is written is read as the same outcome. A mapping is refused exactly if it
does not have the format. -/

namespace NoteDecor

namespace Value

def given {α : Type} (f : α → Value) : Option α → Value
  | none => null
  | some a => f a

inductive FormedBadge : Value → Prop
  | intro (className text : Option String) (style : Option Entries) :
      FormedBadge (badge (given .text className) (given .text text) (given map style))

def isBadge : Value → Bool
  | badge .. => true
  | _ => false

end Value

namespace Outcome
open Value

/-- Class names that are texts, and elements that are formed badges if there are elements. -/
structure Formed (o : Outcome) : Prop where
  classNames : ∃ names, o.classNames = texts names
  elements : o.elements = null ∨ ∃ xs, o.elements = list xs ∧ ∀ x ∈ xs, FormedBadge x

structure ReadableBadge (es : Entries) : Prop where
  className : ∃ c, fieldOr es "className" "class_name" = given text c
  text : ((es.field? "text").getD null).isWritable = true
  style : (es.field? "style").getD null = null ∨
    ∃ style, ((es.field? "style").getD null).entries? = some style

/-- What can be read as an outcome. -/
structure Readable (es : Entries) : Prop where
  classNames : fieldOr es "classNames" "class_names" = null ∨
    ∃ names : List String, (fieldOr es "classNames" "class_names").items? = some (names.map text)
  elements : (es.field? "elements").getD null = null ∨
    ∃ xs, ((es.field? "elements").getD null).items? = some xs ∧
      ∀ x ∈ xs, ∃ fs, x.entries? = some fs ∧ ReadableBadge fs

section Badges

variable {es : Entries}

theorem readBadgeClass_ok_iff {b : Value} :
    readBadgeClass es = .ok b ↔
      fieldOr es "className" "class_name" = b ∧ ∃ c, b = given text c := by
  unfold readBadgeClass
  split
  · next hf =>
      rw [hf]
      constructor
      · rintro h
        cases h
        exact ⟨rfl, none, rfl⟩
      · rintro ⟨rfl, -⟩
        rfl
  · next s hf =>
      rw [hf]
      constructor
      · rintro h
        cases h
        exact ⟨rfl, some s, rfl⟩
      · rintro ⟨rfl, -⟩
        rfl
  · next hnull htext =>
      refine iff_of_false (by nofun) ?_
      rintro ⟨hf, _ | s, rfl⟩
      · exact hnull hf
      · exact htext s hf

theorem readBadgeText_given {b : Value} (h : readBadgeText es = .ok b) :
    ∃ t, b = given text t := by
  unfold readBadgeText at h
  split at h
  · cases h
    exact ⟨none, rfl⟩
  · split at h
    · cases h
      exact ⟨some _, rfl⟩
    · cases h

theorem readBadgeText_ok_iff :
    (∃ b, readBadgeText es = .ok b) ↔ ((es.field? "text").getD null).isWritable = true := by
  unfold readBadgeText
  split
  · next hf =>
      rw [hf]
      exact iff_of_true ⟨null, rfl⟩ rfl
  · split
    · next hw => exact iff_of_true ⟨_, rfl⟩ hw
    · next hw => exact iff_of_false (by nofun) hw

theorem readBadgeStyle_given {b : Value} (h : readBadgeStyle es = .ok b) :
    ∃ s, b = given map s := by
  unfold readBadgeStyle at h
  split at h
  · cases h
    exact ⟨none, rfl⟩
  · split at h
    · cases h
      exact ⟨some _, rfl⟩
    · cases h

theorem readBadgeStyle_ok_iff :
    (∃ b, readBadgeStyle es = .ok b) ↔ (es.field? "style").getD null = null ∨
      ∃ style, ((es.field? "style").getD null).entries? = some style := by
  unfold readBadgeStyle
  split
  · next hf => exact iff_of_true ⟨null, rfl⟩ (.inl hf)
  · next hnull =>
      split
      · next style hs => exact iff_of_true ⟨_, rfl⟩ (.inr ⟨style, hs⟩)
      · next hs =>
          refine iff_of_false (by nofun) ?_
          rintro (hf | ⟨style, hf⟩)
          · exact hnull hf
          · rw [hs] at hf
            cases hf

theorem readBadge_eq_ok {x b : Value} (hx : x.isBadge = false) :
    readBadge x = .ok b ↔ ∃ fs c t s, x.entries? = some fs ∧ readBadgeClass fs = .ok c ∧
      readBadgeText fs = .ok t ∧ readBadgeStyle fs = .ok s ∧ badge c t s = b := by
  unfold readBadge
  split
  · cases hx
  · cases x.entries? with
    | none => simp
    | some fs => simp [bind_eq_ok, pure, Except.pure]

theorem formedBadge_of_readBadge {x b : Value} (hx : x.isBadge = false)
    (h : readBadge x = .ok b) : FormedBadge b := by
  obtain ⟨fs, c, t, s, -, hc, ht, hs, rfl⟩ := (readBadge_eq_ok hx).1 h
  obtain ⟨-, c, rfl⟩ := readBadgeClass_ok_iff.1 hc
  obtain ⟨t, rfl⟩ := readBadgeText_given ht
  obtain ⟨s, rfl⟩ := readBadgeStyle_given hs
  exact .intro c t s

theorem readBadge_ok_iff {x : Value} (hx : x.isBadge = false) :
    (∃ b, readBadge x = .ok b) ↔ ∃ fs, x.entries? = some fs ∧ ReadableBadge fs := by
  simp only [readBadge_eq_ok hx]
  constructor
  · rintro ⟨b, fs, c, t, s, hfs, hc, ht, hs, -⟩
    obtain ⟨hf, hgiven⟩ := readBadgeClass_ok_iff.1 hc
    exact ⟨fs, hfs, hf ▸ hgiven, readBadgeText_ok_iff.1 ⟨t, ht⟩, readBadgeStyle_ok_iff.1 ⟨s, hs⟩⟩
  · rintro ⟨fs, hfs, hclass, htext, hstyle⟩
    obtain ⟨t, ht⟩ := readBadgeText_ok_iff.2 htext
    obtain ⟨s, hs⟩ := readBadgeStyle_ok_iff.2 hstyle
    exact ⟨_, fs, _, t, s, hfs, readBadgeClass_ok_iff.2 ⟨rfl, hclass⟩, ht, hs, rfl⟩

theorem readBadge_describe {b : Value} (hb : FormedBadge b) :
    ∃ w, b.describe = .ok w ∧ readBadge w = .ok b := by
  obtain ⟨c, t, s⟩ := hb
  refine ⟨record ((c.map fun c => ("className", text c)).toList ++
    (t.map fun t => ("text", text t)).toList ++
    (s.map fun s => ("style", map s)).toList), ?_, ?_⟩
  · cases c <;> cases t <;> cases s <;> rfl
  · cases c <;> cases t <;> cases s <;> rfl

theorem readBadge_describeAll {xs : List Value} (h : ∀ x ∈ xs, FormedBadge x) :
    ∃ ws, describeAll xs = .ok ws ∧ ws.mapM readBadge = .ok xs := by
  induction xs with
  | nil => exact ⟨[], rfl, rfl⟩
  | cons x xs ih =>
    rw [List.forall_mem_cons] at h
    obtain ⟨w, hw, hx⟩ := readBadge_describe h.1
    obtain ⟨ws, hws, hxs⟩ := ih h.2
    refine ⟨w :: ws, ?_, mapM_cons_eq_ok.2 ⟨x, xs, hx, hxs, rfl⟩⟩
    rw [describeAll, hw, hws]
    rfl

end Badges

section Outcomes

variable {es : Entries}

theorem all_text_iff {vs : List Value} :
    (vs.all fun w => w.text?.isSome) = true ↔ ∃ names : List String, vs = names.map text := by
  induction vs with
  | nil => exact iff_of_true rfl ⟨[], rfl⟩
  | cons v vs ih =>
    rw [List.all_cons, Bool.and_eq_true, ih]
    constructor
    · rintro ⟨hv, names, rfl⟩
      cases v with
      | text s => exact ⟨s :: names, rfl⟩
      | _ => cases hv
    · rintro ⟨names, hn⟩
      cases names with
      | nil => cases hn
      | cons s names =>
        cases hn
        exact ⟨rfl, names, rfl⟩

theorem readClassNames_texts {v : Value} (h : readClassNames es = .ok v) :
    ∃ names, v = texts names := by
  unfold readClassNames at h
  split at h
  · cases h
    exact ⟨[], rfl⟩
  · split at h
    · cases h
    · split at h
      · next hall =>
          obtain ⟨names, rfl⟩ := all_text_iff.1 hall
          cases h
          exact ⟨names, rfl⟩
      · cases h

theorem readClassNames_ok_iff :
    (∃ v, readClassNames es = .ok v) ↔ fieldOr es "classNames" "class_names" = null ∨
      ∃ names : List String,
        (fieldOr es "classNames" "class_names").items? = some (names.map text) := by
  unfold readClassNames
  split
  · next hf => exact iff_of_true ⟨_, rfl⟩ (.inl hf)
  · next hnull =>
      rw [or_iff_right hnull]
      split
      · next hi => exact iff_of_false (by nofun) (by simp [hi])
      · next vs hi =>
          rw [hi]
          split
          · next hall =>
              obtain ⟨names, rfl⟩ := all_text_iff.1 hall
              exact iff_of_true ⟨_, rfl⟩ ⟨names, rfl⟩
          · next hall =>
              refine iff_of_false (by nofun) ?_
              rintro ⟨names, hn⟩
              cases hn
              exact hall (all_text_iff.2 ⟨names, rfl⟩)

/-- None of the elements that entries name is a badge already. -/
def Unbuilt (es : Entries) : Prop :=
  ∀ xs, ((es.field? "elements").getD null).items? = some xs → ∀ x ∈ xs, x.isBadge = false

theorem readElements_formed (hu : Unbuilt es) {v : Value} (h : readElements es = .ok v) :
    v = null ∨ ∃ xs, v = list xs ∧ ∀ x ∈ xs, FormedBadge x := by
  unfold readElements at h
  split at h
  · cases h
    exact .inl rfl
  · split at h
    · cases h
    · next vs hi =>
        obtain ⟨xs, hxs, rfl⟩ := map_eq_ok.1 h
        refine .inr ⟨xs, rfl, fun x hx => ?_⟩
        obtain ⟨w, hw, hread⟩ := mapM_mem_right hxs hx
        exact formedBadge_of_readBadge (hu vs hi w hw) hread

theorem readElements_ok_iff (hu : Unbuilt es) :
    (∃ v, readElements es = .ok v) ↔ (es.field? "elements").getD null = null ∨
      ∃ xs, ((es.field? "elements").getD null).items? = some xs ∧
        ∀ x ∈ xs, ∃ fs, x.entries? = some fs ∧ ReadableBadge fs := by
  unfold readElements
  split
  · next hf => exact iff_of_true ⟨_, rfl⟩ (.inl hf)
  · next hnull =>
      rw [or_iff_right hnull]
      split
      · next hi => exact iff_of_false (by nofun) (by simp [hi])
      · next vs hi =>
          simp only [hi, Option.some.injEq, exists_eq_left', map_eq_ok]
          constructor
          · rintro ⟨v, xs, hxs, -⟩ x hx
            obtain ⟨b, -, hb⟩ := mapM_mem_left hxs hx
            exact (readBadge_ok_iff (hu vs hi x hx)).1 ⟨b, hb⟩
          · intro hall
            obtain ⟨xs, hxs⟩ := exists_mapM_eq_ok fun x hx =>
              (readBadge_ok_iff (hu vs hi x hx)).2 (hall x hx)
            exact ⟨_, xs, hxs, rfl⟩

theorem ofValue_eq_ok_of_entries {v : Value} {o : Option Outcome} (hv : v.entries? = some es) :
    ofValue v = .ok o ↔ ∃ names elements, readClassNames es = .ok names ∧
      readElements es = .ok elements ∧ some ⟨names, elements⟩ = o := by
  unfold ofValue
  split
  · cases hv
  · simp [hv, bind_eq_ok, pure, Except.pure]

theorem readClassNames_written (names : List String) (rest : List (String × Value)) :
    readClassNames (Entries.fields (("classNames", texts names) :: rest)) = .ok (texts names) := by
  have hall : ((names.map text).all fun w => w.text?.isSome) = true := all_text_iff.2 ⟨names, rfl⟩
  change (if ((names.map text).all fun w => w.text?.isSome) = true then
    .ok (texts names) else .error .className : Except Fault Value) = _
  rw [if_pos hall]

theorem Formed.reread {o : Outcome} (h : o.Formed) :
    ∃ w, o.toValue = .ok w ∧ ofValue w = .ok (some o) := by
  obtain ⟨classNames, elements⟩ := o
  obtain ⟨⟨names, rfl⟩, rfl | ⟨xs, rfl, hxs⟩⟩ := h
  · exact ⟨record [("classNames", texts names)], rfl,
      (ofValue_eq_ok_of_entries rfl).2 ⟨_, _, readClassNames_written names [], rfl, rfl⟩⟩
  · obtain ⟨ws, hws, hread⟩ := readBadge_describeAll hxs
    have helements : readElements (Entries.fields [("classNames", texts names),
        ("elements", list ws)]) = .ok (list xs) := by
      change (ws.mapM readBadge).map list = _
      rw [hread]
      rfl
    refine ⟨record [("classNames", texts names), ("elements", list ws)], ?_,
      (ofValue_eq_ok_of_entries rfl).2 ⟨_, _, readClassNames_written names _, helements, rfl⟩⟩
    change (do return record [("classNames", texts names),
      ("elements", list (← describeAll xs))] : Except Misuse Value) = _
    rw [hws]
    rfl

/-- Of the mappings with no badge among their elements that is built already, exactly those of the
format are read as an outcome, and all others are refused. What is read is formed, can be written
down, and is read again from what is written. -/
theorem ofValue_of_unbuilt {v : Value} (hv : v.entries? = some es) (hu : Unbuilt es) :
    (∀ r, ofValue v = .ok r → ∃ o, r = some o ∧ o.Formed ∧
      ∃ w, o.toValue = .ok w ∧ ofValue w = .ok (some o)) ∧
    (Readable es → ∃ o, ofValue v = .ok (some o)) ∧
    (¬ Readable es → ∃ f, ofValue v = .error f) := by
  have hread {r : Option Outcome} (hr : ofValue v = .ok r) : ∃ o, r = some o ∧ o.Formed := by
    obtain ⟨names, elements, hn, he, rfl⟩ := (ofValue_eq_ok_of_entries hv).1 hr
    exact ⟨_, rfl, readClassNames_texts hn, readElements_formed hu he⟩
  refine ⟨fun r hr => ?_, fun h => ?_, fun h => ?_⟩
  · obtain ⟨o, rfl, ho⟩ := hread hr
    exact ⟨o, rfl, ho, ho.reread⟩
  · obtain ⟨names, hn⟩ := readClassNames_ok_iff.2 h.classNames
    obtain ⟨elements, he⟩ := (readElements_ok_iff hu).2 h.elements
    exact ⟨_, (ofValue_eq_ok_of_entries hv).2 ⟨names, elements, hn, he, rfl⟩⟩
  · cases hr : ofValue v with
    | error f => exact ⟨f, rfl⟩
    | ok r =>
      obtain ⟨names, elements, hn, he, -⟩ := (ofValue_eq_ok_of_entries hv).1 hr
      have hformat : Readable es :=
        ⟨readClassNames_ok_iff.1 ⟨names, hn⟩, (readElements_ok_iff hu).1 ⟨elements, he⟩⟩
      exact absurd hformat h

def loosely : Value := .record [("class_names", .tuple [.text "is-work"]),
  ("elements", .tuple [.record [("class_name", .text "badge"), ("text", .bool true)],
    .sealed (Entries.fields [("style", .sealed (Entries.fields [("marginTop", .int 1)]))])])]

def looselyRead : Outcome := ⟨.list [.text "is-work"], .list [
  .badge (.text "badge") (.text "True") .null,
  .badge .null .null (.map (Entries.fields [("marginTop", .int 1)]))]⟩

theorem ofValue_of_unbuilt_loosely : ofValue loosely = .ok (some looselyRead) ∧
    ∃ w, looselyRead.toValue = .ok w ∧ ofValue w = .ok (some looselyRead) := by
  have hread : ofValue loosely = .ok (some looselyRead) := by rfl
  have hu : Unbuilt ((loosely.entries?).getD []) := by
    intro xs hxs
    cases hxs
    decide
  obtain ⟨hagain, -⟩ := ofValue_of_unbuilt (v := loosely) rfl hu
  obtain ⟨o, ho, -, hw⟩ := hagain _ hread
  cases ho
  exact ⟨hread, hw⟩

end Outcomes

end Outcome

end NoteDecor
