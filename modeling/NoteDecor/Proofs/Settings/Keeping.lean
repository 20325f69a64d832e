import NoteDecor.Proofs.Settings.Reloading

/-! What is so of every value that settings start with or that files hold, and is kept when values
are stored, is so of the layers for good. -/

namespace NoteDecor.Settings
open Value

structure Lasting (P Q : Value → Prop) : Prop where
  setAt : ∀ {v new w path}, P v → Q new → v.setAt path new = .ok w → P w
  load : ∀ {s v}, Yaml.load s = .ok v → P v
  nothing : P (map [])
  underRoot : ∀ {v es}, v.entries? = some es → P v → P (underRoot es v)
  record : ∀ {v}, P v → P (.record [(root, v)])
  defaults : P Settings.defaults
  ofVariable : ∀ text, Q (Environment.value text)

def Layers.All (P : Value → Prop) (l : Layers) : Prop := ∀ s v, l s = some v → P v

section All

variable {P Q : Value → Prop} {l l' : Layers} {v : Value} {c c' : Settings} {d : Disk}

theorem Layers.All.set (h : l.All P) (hv : P v) (s : Source) : (l.set s v).All P := by
  intro t w hw
  unfold Layers.set at hw
  split at hw
  · cases hw
    exact hv
  · exact h t w hw

variable (hP : Lasting P Q)
include hP

theorem Lasting.getD (h : l.All P) (s : Source) : P ((l s).getD (map [])) := by
  cases hs : l s with
  | none => exact hP.nothing
  | some x => exact h s x hs

theorem Lasting.put (h : l.All P) (hv : Q v) {key : String} {s : Source}
    (hp : l.put key v s = .ok l') : l'.All P := by
  obtain ⟨w, hw, he⟩ := bind_eq_ok.1 hp
  cases he
  exact h.set (hP.setAt (hP.getD h s) hv hw) s

theorem Lasting.parse {late : List UInt8 → Option Text.Utf8.Fault} {shown : String}
    {content : List UInt8} (h : parse late shown content = .ok v) : P v := by
  obtain ⟨cs, -, hcs⟩ := bind_eq_ok.1 h
  split at hcs
  · cases hcs
  · cases hcs
  · next w hw =>
      have hfilled : P (if w.isNull then map [] else w) := by
        split
        · exact hP.nothing
        · exact hP.load hw
      dsimp only at hcs
      split at hcs
      · next es hes =>
        cases hcs
        exact hP.underRoot hes hfilled
      · cases hcs

theorem Lasting.readAt {place : Disk.Place} {shown : String}
    (h : readAt d place shown = .ok v) : P v := by
  obtain ⟨kind, -, hkind⟩ := bind_eq_ok.1 h
  cases kind with
  | none => cases hkind
  | some kind =>
    obtain ⟨content, -, hcontent⟩ := bind_eq_ok.1 hkind
    exact hP.parse hcontent

theorem Lasting.loadAt {place : Disk.Place} {shown : String} {s : Source} (hc : c.layers.All P)
    (h : c.loadAt d place shown s = .ok c') : c'.layers.All P := by
  obtain ⟨v, hv, rfl⟩ := loadAt_eq_ok.1 h
  exact hc.set (hP.readAt hv) s

theorem Lasting.loadFile {shown : String} {s : Source} (hc : c.layers.All P)
    (h : c.loadFile d shown s = .ok c') : c'.layers.All P := by
  obtain ⟨place, -, hplace⟩ := bind_eq_ok.1 h
  exact hP.loadAt hc hplace

theorem Lasting.reloadEach (d : Disk) (files : List (Disk.Place × Source)) (hc : c.layers.All P) :
    (reloadEach d files c).1.layers.All P := by
  induction files generalizing c with
  | nil => exact hc
  | cons e r ih =>
    unfold Settings.reloadEach
    cases hl : c.loadAt d e.1 (d.nameOf e.1) e.2 with
    | error f => exact hc
    | ok c' => exact ih (hP.loadAt hc hl)

theorem Lasting.collect {vars : List (String × String)} {v' : Value} (hv : P v)
    (h : Environment.collect vars v = .ok v') : P v' := by
  induction vars generalizing v with
  | nil =>
    cases h
    exact hv
  | cons x r ih =>
    unfold Environment.collect at h
    split at h
    · exact ih hv h
    · obtain ⟨w, hw, hr⟩ := bind_eq_ok.1 h
      exact ih (hP.setAt hv (hP.ofVariable _) hw) hr

theorem Lasting.layer? {vars : List (String × String)}
    (h : Environment.layer? vars = .ok (some v)) : P v := by
  obtain ⟨w, hw, hv⟩ := bind_eq_ok.1 h
  have hcollected := hP.collect hP.nothing hw
  split at hv
  · cases hv
    exact hP.record hcollected
  · cases hv

theorem Lasting.layersStart : Layers.start.All P := by
  intro s v hv
  unfold Layers.start at hv
  split at hv
  · cases hv
    exact hP.defaults
  · cases hv

theorem Lasting.start {file : String} {vars : List (String × String)}
    (h : start d file vars = .ok c) : c.layers.All P := by
  unfold Settings.start at h
  extract_lets fresh layered at h
  have hlayered : ∀ c₁, c₁.layers.All P → layered c₁ = .ok c → c.layers.All P := by
    intro c₁ hc₁ h₁
    obtain ⟨layer, hlayer, hc⟩ := bind_eq_ok.1 h₁
    cases layer with
    | none =>
      cases hc
      exact hc₁
    | some v =>
      cases hc
      exact hc₁.set (hP.layer? (mapError_eq_ok.1 hlayer)) .environment
  split at h
  · exact hlayered _ hP.layersStart h
  · obtain ⟨c₁, hc₁, h₁⟩ := bind_eq_ok.1 h
    exact hlayered c₁ (hP.loadFile hP.layersStart (mapError_eq_ok.1 hc₁)) h₁

end All

end NoteDecor.Settings
