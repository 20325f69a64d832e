import NoteDecor.CommandLine.Run
import NoteDecor.Proofs.Settings.Reloading
import NoteDecor.Proofs.Steps

/-! How the settings of a call come about. What can go wrong lies in the settings file and in the
environment; what the arguments say is always taken over. -/

namespace NoteDecor.CommandLine
open Settings Value

def Named (w : Surroundings) (o : Options) (name : String)
    (found : Except Disk.Fault (Option Disk.Kind)) : Prop :=
  o.config.join = some name ∧ name ≠ "" ∧
    Disk.presence (w.disk.look (Path.ofString name).text) = found

def NoFile (found : Option Disk.Kind) : Prop := ∀ content, found ≠ some (.file content)

def nameFound (name : String) : Except Disk.Fault (Option Disk.Kind) → Except Failure String
  | .error g => .error (.escaped (.system (Vault.ofDiskFault (Path.ofString name).text g)))
  | .ok (some (.file _)) => .ok name
  | .ok _ => .error (.told ("Configuration file does not exist: " ++ name))

theorem findConfig_named {w : Surroundings} {o : Options} {name : String}
    {found : Except Disk.Fault (Option Disk.Kind)} (h : Named w o name found) :
    findConfig w.disk o.config.join = nameFound name found := by
  obtain ⟨hgiven, hname, hfound⟩ := h
  unfold findConfig
  rw [hgiven, Option.getD_some]
  dsimp only
  rw [if_neg hname, hfound]
  cases found with
  | error g => rfl
  | ok found =>
    cases found with
    | none => rfl
    | some kind => cases kind <;> rfl

theorem overrides_ok {c : Settings} (hfree : c.layers .arguments = none)
    (vault level file : Option String) :
    ∃ c', (do
      let c ← override c "fmdecorator.vault" vault
      let c ← override c "fmdecorator.logging.level" level
      override c "fmdecorator.logging.file" file) = .ok c' := by
  have hv : keyPath "fmdecorator.vault" = ["fmdecorator", "vault"] := by decide +kernel
  have hl : keyPath "fmdecorator.logging.level" = ["fmdecorator", "logging", "level"] := by
    decide +kernel
  have hf : keyPath "fmdecorator.logging.file" = ["fmdecorator", "logging", "file"] := by
    decide +kernel
  unfold override
  cases vault.filter (· != "") <;> cases level.filter (· != "") <;> cases file.filter (· != "") <;>
    simp [Settings.put, Layers.put, Layers.set, hfree, hv, hl, hf, setAt, Entries.setField,
      Entries.field?, isKey, bind, Except.bind, pure, Except.pure, mapError_ok]

theorem start_arguments {d : Disk} {file : String} {vars : List (String × String)} {c : Settings}
    (h : Settings.start d file vars = .ok c) : c.layers .arguments = none := by
  unfold Settings.start at h
  extract_lets fresh layered at h
  have hlayered {c₁ : Settings} (hfree : c₁.layers .arguments = none) (h : layered c₁ = .ok c) :
      c.layers .arguments = none := by
    obtain ⟨layer, -, h⟩ := bind_eq_ok.1 h
    cases layer <;> cases h <;> exact hfree
  -- The file goes into a layer of its own, below that of the arguments.
  split at h
  · exact hlayered rfl h
  · obtain ⟨c₁, hc₁, h⟩ := bind_eq_ok.1 h
    obtain ⟨place, -, hload⟩ := bind_eq_ok.1 (mapError_eq_ok.1 hc₁)
    obtain ⟨v, -, rfl⟩ := loadAt_eq_ok.1 hload
    exact hlayered rfl h

theorem configure_eq_error {w : Surroundings} {o : Options} {f : Failure} :
    configure w o = .error f ↔ findConfig w.disk o.config.join = .error f ∨
      ∃ name g, findConfig w.disk o.config.join = .ok name ∧
        Settings.start w.disk name w.environment = .error g ∧ ofStart g = f := by
  unfold configure
  rw [bind_eq_error]
  refine or_congr_right ?_
  constructor
  · rintro ⟨name, hname, h⟩
    rcases bind_eq_error.1 h with h | ⟨c, hc, h⟩
    · obtain ⟨g, hg, hf⟩ := mapError_eq_error.1 h
      exact ⟨name, g, hname, hg, hf⟩
    · obtain ⟨c', hc'⟩ := overrides_ok (start_arguments (mapError_eq_ok.1 hc)) o.vault.join
        (if o.debug then some "DEBUG" else none) o.logFile.join
      rw [hc'] at h
      cases h
  · rintro ⟨name, g, hname, hg, hf⟩
    refine ⟨name, hname, bind_eq_error.2 (.inl ?_)⟩
    exact mapError_eq_error.2 ⟨g, hg, hf⟩

end NoteDecor.CommandLine
