import NoteDecor.Proofs.Value.Merging
import NoteDecor.Value.Text

/-! What is read of the fields of a record: lists and mappings that give way to a default while they
are empty, and texts. -/

namespace NoteDecor

namespace Value

theorem list_orElse (xs : List Value) : (list xs).orElse (list []) = list xs := by
  cases xs <;> rfl

theorem map_orElse (es : Entries) : (map es).orElse (map []) = map es := by
  cases es <;> rfl

theorem mapM_text?_eq_some {vs : List Value} {ss : List String} :
    vs.mapM Value.text? = some ss ↔ vs = ss.map text := by
  induction vs generalizing ss with
  | nil =>
    cases ss <;> simp
  | cons v vs ih =>
    rw [List.mapM_cons]
    cases v with
    | text s =>
      cases ss with
      | nil => simp [Value.text?, Option.bind_eq_some_iff]
      | cons t ss =>
        simp only [Value.text?, Option.bind_eq_bind, Option.bind_some, Option.bind_eq_some_iff, ih,
          Option.pure_def, Option.some.injEq, List.map_cons, List.cons.injEq, text.injEq]
        constructor
        · rintro ⟨rest, hvs, rfl, rfl⟩
          exact ⟨rfl, hvs⟩
        · rintro ⟨rfl, hvs⟩
          exact ⟨ss, hvs, rfl, rfl⟩
    | _ => cases ss <;> simp [Value.text?]

theorem isWritable_text (s : String) : (text s).isWritable = true := rfl

theorem all_isWritable_text (ss : List String) : (ss.map text).all isWritable = true := by
  simp only [List.all_map, List.all_eq_true, Function.comp_apply, isWritable_text, implies_true]

theorem map_display_text (ss : List String) : (ss.map text).map display = ss := by
  rw [List.map_map]
  exact List.map_id ss

end Value

end NoteDecor
