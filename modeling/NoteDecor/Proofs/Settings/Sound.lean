import NoteDecor.Proofs.Settings.Keeping
import NoteDecor.Proofs.Yaml.Sound

/-! Layers hold trees of mappings that may end in knots, however the settings came about. -/

namespace NoteDecor.Settings
open Value

def Layers.Sound (l : Layers) : Prop := l.All Value.Sound

theorem record_sound {k : String} {v : Value} (hv : v.Sound) : (Value.record [(k, v)]).Sound :=
  .map (List.forall_mem_singleton.2 hv)

theorem underRoot_sound {v : Value} {es : Entries} (hes : v.entries? = some es) (hv : v.Sound) :
    (underRoot es v).Sound := by
  unfold underRoot
  split
  · exact hv
  · split
    · next cells n =>
      have hn : n < cells.length := by
        by_contra hle
        rw [entries?, opened, getD_of_length_le (Nat.le_of_not_lt hle)] at hes
        cases hes
      refine .knot (.append (fun x hx => (hv.areContents x hx).mono (Nat.le_succ _)) ?_)
      exact List.forall_mem_singleton.2 (.inl ⟨n, Nat.lt_succ_of_lt hn, rfl⟩)
    · exact record_sound hv

theorem Environment.value_isTree (text : String) : (Environment.value text).IsTree := by
  unfold Environment.value
  dsimp only
  split
  · exact ⟨rfl, rfl⟩
  · split
    · exact ⟨rfl, rfl⟩
    · split <;> exact ⟨rfl, rfl⟩

theorem sound_lasting : Lasting Value.Sound IsTree where
  setAt := fun hv hnew hs => hv.setAt hnew hs
  load := Yaml.load_sound
  nothing := sound_of_ends rfl
  underRoot := underRoot_sound
  record := record_sound
  defaults := sound_of_ends rfl
  ofVariable := Environment.value_isTree

/-- Settings as they come about: started, loaded from files, and changed by storing trees and by
replacing whole layers. -/
inductive Made : Settings → Prop
  | start {d : Disk} {file : String} {vars : List (String × String)} {c : Settings} :
      start d file vars = .ok c → Made c
  | loadFile {c c' : Settings} {d : Disk} {shown : String} {s : Source} :
      Made c → c.loadFile d shown s = .ok c' → Made c'
  | reload {c : Settings} (d : Disk) : Made c → Made (c.reloadFiles d).1
  | put {c c' : Settings} {key : String} {v : Value} {s : Source} :
      Made c → v.IsTree → c.put key v s = .ok c' → Made c'
  | replace {c : Settings} {v : Value} (s : Source) :
      Made c → v.Sound → Made { c with layers := c.layers.set s v }

theorem Made.sound {c : Settings} (h : Made c) : c.layers.Sound := by
  induction h with
  | start h => exact sound_lasting.start h
  | loadFile _ h ih => exact sound_lasting.loadFile ih h
  | reload d _ ih => exact sound_lasting.reloadEach d _ ih
  | put _ hv h ih =>
    obtain ⟨l, hl, he⟩ := bind_eq_ok.1 h
    cases he
    exact sound_lasting.put ih hv hl
  | replace s _ hv ih => exact ih.set hv s

end NoteDecor.Settings
