import NoteDecor.Proofs.Value.Sound
import NoteDecor.Proofs.Yaml.Building

/-! Documents are read into trees, or into one knot with its containers in cells of their own. -/

namespace NoteDecor.Yaml
open Value

theorem sound_kinds : Kinds IsPart IsContent where
  value_mono := IsPart.mono
  content_mono := IsContent.mono
  cell := fun hm => .inl ⟨_, hm, rfl⟩
  scalar := fun _ hv => .inr (scalarValue_cases (Q := IsTree) hv ⟨rfl, rfl⟩ (fun _ => ⟨rfl, rfl⟩)
    (fun _ => ⟨rfl, rfl⟩) (fun _ => ⟨rfl, rfl⟩) (fun _ => ⟨rfl, rfl⟩) (fun _ => ⟨rfl, rfl⟩)
    (fun _ => ⟨rfl, rfl⟩) fun _ => ⟨rfl, rfl⟩)
  null := fun _ => ⟨rfl, rfl⟩
  list := fun hxs => hxs
  pair := fun hk hv => List.forall_mem_cons.2 ⟨hk, List.forall_mem_singleton.2 hv⟩
  set := fun _ _ => ⟨rfl, rfl⟩
  map := fun _ hes => hes

namespace Build

theorem tree_isTree {cells : Array Value} (h : AreContents cells.toList) (fuel n : Nat) :
    (tree cells fuel n).IsTree := by
  induction fuel generalizing n with
  | zero => exact ⟨rfl, rfl⟩
  | succ fuel ih =>
    have hcontent := h.getD n
    rw [List.getD_eq_getElem?_getD, Array.getElem?_toList, ← Array.getD_eq_getD_getElem?] at hcontent
    exact hcontent.isTree_fillCells ih

theorem finished_sound {b : Build} (hb : AreContents b.cells.toList) {v : Value}
    (hv : v.IsPart b.cells.size) : (b.finished v).Sound := by
  rcases hv with ⟨m, -, rfl⟩ | htree
  · unfold finished
    dsimp only
    split
    · exact .knot hb
    · exact sound_of_ends (tree_isTree hb _ m).2
  · unfold finished
    split
    · cases htree.1
    · exact sound_of_ends htree.2

end Build

theorem load_sound {s : List Char} {v : Value} (h : load s = .ok v) : v.Sound := by
  obtain ⟨doc, -, hdoc⟩ := bind_eq_ok.1 h
  split at hdoc
  · cases hdoc
    exact sound_of_ends rfl
  · obtain ⟨w, b, rfl, hb, hw⟩ := Build.ofGraph_finished sound_kinds hdoc
    exact Build.finished_sound hb.2 hw

end NoteDecor.Yaml
