import NoteDecor.Log.Record
import NoteDecor.Proofs.Assignment

/-! What contexts come to one after another: every key once, where it comes first, with the value
that comes last. -/

namespace NoteDecor.Log.Context

theorem set_eq_assign (key : String) (v : Value) (c : Context) : set key v c = assign key v c := by
  induction c with
  | nil => rfl
  | cons e r ih => rw [set, assign, ih]

def collected (es : Context) : Context :=
  (es.map Prod.fst).eraseDups.map fun k => (k, (valueAt? k es.reverse).getD .null)

theorem foldl_set_eq_assign (es : Context) :
    es.foldl (fun acc e => set e.1 e.2 acc) [] =
      es.foldl (fun acc e => assign e.1 e.2 acc) [] := by
  simp only [set_eq_assign]

theorem foldl_set (es : Context) :
    es.foldl (fun acc e => set e.1 e.2 acc) [] = collected es := by
  rw [foldl_set_eq_assign, collected, ← keys_foldl_assign es]
  simp only [← valueAt?_foldl_assign]
  exact (map_valueAt? (nodup_keys_foldl_assign es) .null).symm

theorem valueAt?_collected (k : String) (es : Context) :
    valueAt? k (collected es) = valueAt? k es.reverse := by
  rw [← foldl_set, foldl_set_eq_assign, valueAt?_foldl_assign]

theorem merge_extend (opened : List Context) (own : Context) :
    (merge opened).extend own = collected (opened.flatten ++ own) := by
  rw [← foldl_set, List.foldl_append, List.foldl_flatten]
  rfl

end NoteDecor.Log.Context
