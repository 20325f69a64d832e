import Mathlib
import NoteDecor.Outcome.Describe
import NoteDecor.Proofs.Value.Fields
import NoteDecor.Proofs.Value.Tidy

/-! The style of a badge as a style sheet spells it. Several names may become one: it stands where
the first of them stood, with the text of the value that came last. What is spelled so already stays
as it is. -/

namespace NoteDecor.Value

theorem toList_hyphenated (key : String) : (hyphenated key).toList =
    key.toList.flatMap fun c => if c.isUpper then ['-', c.toLower] else [c] := by
  rw [hyphenated, String.toList_ofList]

theorem isUpper_hyphenated (key : String) : ∀ c ∈ (hyphenated key).toList, c.isUpper = false := by
  intro c hc
  rw [toList_hyphenated] at hc
  obtain ⟨d, -, hd⟩ := List.mem_flatMap.1 hc
  cases hupper : d.isUpper with
  | false =>
    rw [hupper] at hd
    rw [List.mem_singleton.1 hd, hupper]
  | true =>
    rw [hupper] at hd
    rcases List.mem_pair.1 hd with rfl | rfl
    · rfl
    · exact Char.isUpper_toLower_eq_false d

theorem hyphenated_of_no_upper {key : String} (h : ∀ c ∈ key.toList, c.isUpper = false) :
    hyphenated key = key := by
  have hsame : key.toList.flatMap (fun c => if c.isUpper then ['-', c.toLower] else [c]) =
      key.toList.flatMap fun c => [c] := by
    refine List.flatMap_congr fun c hc => ?_
    rw [h c hc]
    rfl
  rw [hyphenated, hsame, List.flatMap_singleton', String.ofList_toList]

/-- Texts under names, as a mapping holds them. -/
def properties (ps : List (String × String)) : Entries :=
  Entries.fields (ps.map fun p => (p.1, text p.2))

def spelled (fs : List (String × Value)) : List (String × String) :=
  fs.map fun f => (hyphenated f.1, f.2.display)

variable {fs : List (String × Value)}

theorem setField_properties (k s : String) (ps : List (String × String)) :
    Entries.setField k (text s) (properties ps) = properties (assign k s ps) := by
  rw [properties, Entries.setField_fields, ← map_assign text, properties]

theorem putProperties_writable (h : ∀ f ∈ fs, f.2.isWritable = true)
    (ps : List (String × String)) : putProperties (properties ps) (Entries.fields fs) =
      .ok (properties ((spelled fs).foldl (fun es p => assign p.1 p.2 es) ps)) := by
  induction fs generalizing ps with
  | nil => rfl
  | cons f fs ih =>
    rw [List.forall_mem_cons] at h
    have hfields : Entries.fields (f :: fs) = (text f.1, f.2) :: Entries.fields fs := rfl
    rw [hfields, putProperties, if_pos h.1, setField_properties, ih h.2]
    rfl

theorem putProperties_unwritable {f : String × Value} (hf : f ∈ fs) (h : f.2.isWritable = false)
    (acc : Entries) : putProperties acc (Entries.fields fs) = .error .unwritable := by
  induction fs generalizing acc with
  | nil => cases hf
  | cons g fs ih =>
    have hfields : Entries.fields (g :: fs) = (text g.1, g.2) :: Entries.fields fs := rfl
    rw [hfields, putProperties]
    split
    · next hg =>
      rcases List.mem_cons.1 hf with rfl | hf
      · rw [h] at hg
        cases hg
      · exact ih hf _
    · rfl

theorem cssProperties_of_entries {style : Value} {es : Entries} (h : style.entries? = some es)
    (className label : Value) :
    cssProperties (badge className label style) = putProperties [] es := by
  -- what counts as set is asked of the same entries
  have htrue : style.isTrue = !es.isEmpty := by
    unfold entries? at h
    unfold isTrue
    cases hopened : style.opened with
    | map fs | «sealed» fs =>
      rw [hopened] at h
      cases h
      rfl
    | _ =>
      rw [hopened] at h
      cases h
  unfold cssProperties
  simp only [htrue, h]
  cases es <;> rfl

/-- A style with its names converted: the names in the order in which they come first, and each
with the text of the last value that has it. -/
structure Respelled (fs : List (String × Value)) (ps : List (String × String)) : Prop where
  names : ps.map Prod.fst = (fs.map fun f => hyphenated f.1).eraseDups
  last : ∀ before k v after, fs = before ++ (k, v) :: after →
    (∀ f ∈ after, hyphenated f.1 ≠ hyphenated k) → (hyphenated k, v.display) ∈ ps

theorem respelled_foldl_assign (fs : List (String × Value)) :
    Respelled fs ((spelled fs).foldl (fun es p => assign p.1 p.2 es) []) where
  names := by
    rw [keys_foldl_assign, spelled, List.map_map]
    rfl
  last := by
    rintro before k v after rfl hlast
    -- nothing behind the entry has its name, so the entry is what is found first from the end
    have hafter : valueAt? (hyphenated k) (spelled after).reverse = none := by
      rw [← Option.not_isSome_iff_eq_none, valueAt?_isSome]
      simpa [spelled] using hlast
    have hsplit : (spelled (before ++ (k, v) :: after)).reverse =
        (spelled after).reverse ++ (hyphenated k, v.display) :: (spelled before).reverse := by
      simp only [spelled, List.map_append, List.map_cons, List.reverse_append, List.reverse_cons,
        List.append_assoc, List.singleton_append]
    refine mem_of_valueAt? ?_
    rw [valueAt?_foldl_assign, hsplit, valueAt?_append, hafter, valueAt?_cons, if_pos rfl,
      Option.none_or]

theorem Respelled.isUpper {ps : List (String × String)} (h : Respelled fs ps) :
    ∀ p ∈ ps, ∀ c ∈ p.1.toList, c.isUpper = false := by
  intro p hp
  have hname : p.1 ∈ (fs.map fun f => hyphenated f.1).eraseDups := h.names ▸ List.mem_map_of_mem hp
  obtain ⟨f, -, hf⟩ := List.mem_map.1 (List.mem_eraseDups.1 hname)
  exact hf ▸ isUpper_hyphenated f.1

theorem Respelled.nodup {ps : List (String × String)} (h : Respelled fs ps) :
    (ps.map Prod.fst).Nodup := h.names ▸ nodup_eraseDups _

theorem Respelled.spelled_eq {ps : List (String × String)} (h : Respelled fs ps) :
    spelled (ps.map fun p => (p.1, text p.2)) = ps := by
  rw [spelled, List.map_map]
  refine (List.map_congr_left fun p hp => ?_).trans (List.map_id ps)
  rw [Function.comp_apply, hyphenated_of_no_upper (h.isUpper p hp)]
  rfl

theorem Respelled.again {ps : List (String × String)} (h : Respelled fs ps)
    (className label : Value) :
    cssProperties (badge className label (map (properties ps))) = .ok (properties ps) := by
  have hwritable : ∀ f ∈ ps.map (fun p => (p.1, text p.2)), f.2.isWritable = true := by
    rw [List.forall_mem_map]
    exact fun p _ => isWritable_text p.2
  have hkept : ps.foldl (fun es p => assign p.1 p.2 es) [] = ps := foldl_assign_of_nodup h.nodup
  have hput := putProperties_writable hwritable []
  rw [h.spelled_eq, hkept] at hput
  rw [cssProperties_of_entries rfl]
  exact hput

/-- If every value of a style has a text, its properties are the style respelled: no name holds a
capital letter of the alphabet, each name stands where an entry first comes to it, and has the text
of the last value that comes to it. A style that is such properties already stays exactly as it is.
A value without a text, which is a number too long to be written, leaves no properties. -/
theorem cssProperties_respells {style : Value} (hstyle : style.entries? = some (Entries.fields fs))
    (className label : Value) :
    ((∀ f ∈ fs, f.2.isWritable = true) → ∃ ps,
      cssProperties (badge className label style) = .ok (properties ps) ∧ Respelled fs ps ∧
      (∀ p ∈ ps, ∀ c ∈ p.1.toList, c.isUpper = false) ∧
      ∀ className' label',
        cssProperties (badge className' label' (map (properties ps))) = .ok (properties ps)) ∧
    ((∃ f ∈ fs, f.2.isWritable = false) →
      cssProperties (badge className label style) = .error .unwritable) := by
  rw [cssProperties_of_entries hstyle]
  constructor
  · intro hwritable
    have hspelled := respelled_foldl_assign fs
    exact ⟨_, putProperties_writable hwritable [], hspelled, hspelled.isUpper, hspelled.again⟩
  · rintro ⟨f, hf, hunwritable⟩
    exact putProperties_unwritable hf hunwritable []

theorem cssProperties_overlong :
    cssProperties (badge null null (map (Entries.fields [("width", int (10 ^ 5000))]))) =
      .error .unwritable := by
  have hnone (n : Int) (hn : (int n).isWritable = false) :
      cssProperties (badge null null (map (Entries.fields [("width", int n)]))) =
        .error .unwritable := by
    have hstyle : (map (Entries.fields [("width", int n)])).entries? =
        some (Entries.fields [("width", int n)]) := rfl
    rw [cssProperties_of_entries hstyle]
    have hmem : ("width", int n) ∈ [("width", int n)] := List.mem_singleton_self _
    exact putProperties_unwritable hmem hn []
  exact hnone _ (by decide +kernel)

def clashing : List (String × Value) :=
  [("fontSize", text "1em"), ("color", text "red"), ("font-size", bool true), ("MozX", null)]

theorem cssProperties_respells_clashing :
    cssProperties (badge null null (map (Entries.fields clashing))) = .ok (properties
      [("font-size", "True"), ("color", "red"), ("-moz-x", "None")]) ∧
    cssProperties (badge null null (map (properties
      [("font-size", "True"), ("color", "red"), ("-moz-x", "None")]))) = .ok (properties
      [("font-size", "True"), ("color", "red"), ("-moz-x", "None")]) := by
  have hwritable : ∀ f ∈ clashing, f.2.isWritable = true := by decide
  have hrun : cssProperties (badge null null (map (Entries.fields clashing))) = .ok (properties
      [("font-size", "True"), ("color", "red"), ("-moz-x", "None")]) := by rfl
  have hstyle : (map (Entries.fields clashing)).entries? = some (Entries.fields clashing) := rfl
  obtain ⟨hproperties, -⟩ := cssProperties_respells hstyle null null
  obtain ⟨ps, hps, -, -, hagain⟩ := hproperties hwritable
  have hsame : properties ps = properties
      [("font-size", "True"), ("color", "red"), ("-moz-x", "None")] :=
    Except.ok.inj (hps.symm.trans hrun)
  exact ⟨hrun, hsame ▸ hagain null null⟩

end NoteDecor.Value
