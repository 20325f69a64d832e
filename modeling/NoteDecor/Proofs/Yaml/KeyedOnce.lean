import NoteDecor.Proofs.Yaml.Building

/-! Documents are read into mappings that hold each text once among their keys. -/

namespace NoteDecor.Yaml
open Value

theorem keyedOnce_kinds :
    Kinds (fun _ v => v.keyedOnce = true) (fun _ v => v.keyedOnce = true) where
  value_mono := fun _ hv => hv
  content_mono := fun _ hv => hv
  cell := fun _ => rfl
  scalar := fun _ hv => scalarValue_cases (Q := fun v => v.keyedOnce = true) hv rfl (fun _ => rfl)
    (fun _ => rfl) (fun _ => rfl) (fun _ => rfl) (fun _ => rfl) (fun _ => rfl) fun _ => rfl
  null := fun _ => rfl
  list := fun _ => rfl
  pair := fun _ _ => rfl
  set := fun _ _ => rfl
  map := fun hnames hvalues => keyedOnce_map.2 ⟨hnames, hvalues⟩

namespace Build

theorem tree_keyedOnce {cells : Array Value} (h : ∀ v ∈ cells.toList, v.keyedOnce = true)
    (fuel n : Nat) : (tree cells fuel n).keyedOnce = true := by
  induction fuel generalizing n with
  | zero => rfl
  | succ fuel ih =>
    refine keyedOnce_fillCells ih ?_
    rw [Array.getD_eq_getD_getElem?, ← Array.getElem?_toList, ← List.getD_eq_getElem?_getD]
    exact keyedOnce_getD h n

theorem finished_keyedOnce {b : Build} (hb : ∀ v ∈ b.cells.toList, v.keyedOnce = true) {v : Value}
    (hv : v.keyedOnce = true) : (b.finished v).keyedOnce = true := by
  unfold finished
  split
  · split
    · exact keyedOnce_knot.2 hb
    · exact tree_keyedOnce hb _ _
  · exact hv

end Build

theorem load_keyedOnce {s : List Char} {v : Value} (h : load s = .ok v) : v.keyedOnce = true := by
  obtain ⟨doc, -, hdoc⟩ := bind_eq_ok.1 h
  split at hdoc
  · cases hdoc
    rfl
  · obtain ⟨w, b, rfl, hb, hw⟩ := Build.ofGraph_finished keyedOnce_kinds hdoc
    exact Build.finished_keyedOnce hb.2 hw

end NoteDecor.Yaml
