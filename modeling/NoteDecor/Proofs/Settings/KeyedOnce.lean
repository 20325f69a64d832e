import NoteDecor.Proofs.Settings.Keeping
import NoteDecor.Proofs.Yaml.KeyedOnce

/-! Settings hold each text once among the keys of a mapping, from the start on and after whatever is
stored in them or loaded into them. -/

namespace NoteDecor.Settings
open Value

/-- A mapping holds a key once, which a list of entries need not. -/
def Layers.KeyedOnce (l : Layers) : Prop := ∀ s v, l s = some v → v.keyedOnce = true

theorem underRoot_keyedOnce {v : Value} (hv : v.keyedOnce = true) (es : Entries) :
    (underRoot es v).keyedOnce = true := by
  unfold underRoot
  split
  · exact hv
  · split
    · next cells n =>
        refine keyedOnce_knot.2 fun x hx => ?_
        rcases List.mem_append.1 hx with hx | hx
        · exact keyedOnce_knot.1 hv x hx
        · rw [List.mem_singleton.1 hx]
          exact keyedOnce_record.2 ⟨List.pairwise_singleton .., by simp [keyedOnce]⟩
    · exact keyedOnce_record.2 ⟨List.pairwise_singleton .., by simpa using hv⟩

theorem Environment.value_keyedOnce (text : String) :
    (Environment.value text).keyedOnce = true := by
  unfold Environment.value
  dsimp only
  split
  · rfl
  · split
    · rfl
    · split <;> rfl

theorem keyedOnce_lasting :
    Lasting (fun v => v.keyedOnce = true) (fun v => v.keyedOnce = true) where
  setAt := fun hv hnew hs => keyedOnce_setAt hnew _ _ hv hs
  load := Yaml.load_keyedOnce
  nothing := rfl
  underRoot := fun _ hv => underRoot_keyedOnce hv _
  record := fun hv => keyedOnce_record.2 ⟨List.pairwise_singleton .., by simpa using hv⟩
  defaults := by decide
  ofVariable := Environment.value_keyedOnce

namespace Layers.KeyedOnce

variable {l l' : Layers} {v : Value}

theorem set (h : l.KeyedOnce) (hv : v.keyedOnce = true) (s : Source) :
    (l.set s v).KeyedOnce :=
  Layers.All.set (P := fun v => v.keyedOnce = true) h hv s

theorem put (h : l.KeyedOnce) (hv : v.keyedOnce = true) {key : String} {s : Source}
    (hp : l.put key v s = .ok l') : l'.KeyedOnce :=
  keyedOnce_lasting.put h hv hp

end Layers.KeyedOnce

theorem reloadEach_keyedOnce (d : Disk) (files : List (Disk.Place × Source)) {c : Settings}
    (hc : c.layers.KeyedOnce) : (reloadEach d files c).1.layers.KeyedOnce :=
  keyedOnce_lasting.reloadEach d files hc

theorem Layers.start_keyedOnce : Layers.start.KeyedOnce := keyedOnce_lasting.layersStart

theorem start_keyedOnce {d : Disk} {file : String} {vars : List (String × String)} {c : Settings}
    (h : start d file vars = .ok c) : c.layers.KeyedOnce := keyedOnce_lasting.start h

end NoteDecor.Settings
