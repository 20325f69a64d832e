import NoteDecor.Proofs.CommandLine.Endings
import NoteDecor.Proofs.Settings.EnvironmentOrder
import NoteDecor.Proofs.Settings.EnvironmentValues
import NoteDecor.Proofs.Value.Differing
import NoteDecor.Proofs.Workspace.Storing

/-! Paths that may be given by an option or by an environment variable. The option stores its text
as it is, the variable what its text is read as, and a call only ever asks for what is in force. So
the two ways agree for all calls exactly if the text is not read as a truth value or a number. -/

namespace NoteDecor.CommandLine
open Settings Value Environment

def optionBinding (path : List String) (given : Option String) : List (List String × Value) :=
  ((given.filter (· != "")).map fun text => (path, .text text)).toList

def optionBindings (o : Options) : List (List String × Value) :=
  optionBinding [root, "vault"] o.vault.join ++
    (optionBinding [root, "logging", "level"] (if o.debug then some "DEBUG" else none) ++
      optionBinding [root, "logging", "file"] o.logFile.join)

theorem keyPath_vault : keyPath "fmdecorator.vault" = [root, "vault"] := by decide +kernel

theorem keyPath_level : keyPath "fmdecorator.logging.level" = [root, "logging", "level"] := by
  decide +kernel

theorem keyPath_file : keyPath "fmdecorator.logging.file" = [root, "logging", "file"] := by
  decide +kernel

theorem keyPath_rules : keyPath "fmdecorator.rules" = [root, "rules"] := by decide +kernel

def argumentsOf (c : Settings) : Value := (c.layers .arguments).getD (record [])

def SameElsewhere (c c' : Settings) : Prop := ∀ s, s ≠ .arguments → c'.layers s = c.layers s

theorem override_eq_ok {c c' : Settings} {key : String} {given : Option String}
    (h : override c key given = .ok c') :
    storeAll (optionBinding (keyPath key) given) (argumentsOf c) = .ok (argumentsOf c') ∧
    SameElsewhere c c' := by
  unfold override at h
  unfold optionBinding
  cases hgiven : given.filter (· != "") with
  | none =>
    rw [hgiven] at h
    cases h
    exact ⟨rfl, fun _ _ => rfl⟩
  | some text =>
    rw [hgiven] at h
    obtain ⟨l, hl, hc⟩ := bind_eq_ok.1 (mapError_eq_ok.1 h)
    cases hc
    obtain ⟨v, hv, hc⟩ := bind_eq_ok.1 hl
    cases hc
    have hstored : argumentsOf { c with layers := c.layers.set .arguments v } = v := rfl
    refine ⟨?_, fun s hs => if_neg hs⟩
    rw [hstored, ← hv]
    exact bind_pure _

theorem overrides_eq_ok {c c' : Settings} {o : Options}
    (h : (do
      let c ← override c "fmdecorator.vault" o.vault.join
      let c ← override c "fmdecorator.logging.level" (if o.debug then some "DEBUG" else none)
      override c "fmdecorator.logging.file" o.logFile.join) = .ok c') :
    storeAll (optionBindings o) (argumentsOf c) = .ok (argumentsOf c') ∧ SameElsewhere c c' := by
  obtain ⟨c₁, hc₁, h⟩ := bind_eq_ok.1 h
  obtain ⟨c₂, hc₂, hc₃⟩ := bind_eq_ok.1 h
  obtain ⟨hstored₁, hsame₁⟩ := override_eq_ok hc₁
  obtain ⟨hstored₂, hsame₂⟩ := override_eq_ok hc₂
  obtain ⟨hstored₃, hsame₃⟩ := override_eq_ok hc₃
  rw [keyPath_vault] at hstored₁
  rw [keyPath_level] at hstored₂
  rw [keyPath_file] at hstored₃
  refine ⟨?_, fun s hs => ?_⟩
  · rw [optionBindings, storeAll_append, hstored₁]
    change storeAll (_ ++ _) (argumentsOf c₁) = _
    rw [storeAll_append, hstored₂]
    exact hstored₃
  · rw [hsame₃ s hs, hsame₂ s hs, hsame₁ s hs]

def withVariables (c : Settings) (v : Value) : Settings :=
  if v.isTrue then { c with layers := c.layers.set .environment (.record [(root, v)]) } else c

def fileSettings (d : Disk) (file : String) : Except StartFault Settings :=
  if file = "" then .ok ⟨.start, []⟩
  else ((⟨.start, []⟩ : Settings).loadFile d file .file).mapError .file

theorem start_eq_bind (d : Disk) (file : String) (vars : List (String × String)) :
    Settings.start d file vars = (do
      let c ← fileSettings d file
      (storeAll (bindings vars) (record [])).mapError .environment |>.map (withVariables c)) := by
  have hcollect : collect vars (map []) = storeAll (bindings vars) (record []) := collect_eq ..
  cases hstored : storeAll (bindings vars) (record []) with
  | error f =>
    have hlayer : layer? vars = .error f :=
      bind_eq_error.2 (.inl (hcollect.trans hstored))
    unfold Settings.start fileSettings
    rw [hlayer]
    split <;> rfl
  | ok v =>
    change _ = do
      let c ← fileSettings d file
      .ok (withVariables c v)
    have hlayer : layer? vars = .ok (if v.isTrue then some (record [(root, v)]) else none) :=
      bind_eq_ok.2 ⟨v, hcollect.trans hstored, rfl⟩
    unfold Settings.start fileSettings withVariables
    rw [hlayer]
    by_cases hv : v.isTrue = true
    · simp only [if_pos hv]
      split <;> rfl
    · simp only [if_neg hv]
      split <;> rfl

def Untouched (c : Settings) : Prop :=
  c.layers .environment = none ∧ c.layers .arguments = none ∧ c.layers .runtime = none

theorem fileSettings_untouched {d : Disk} {file : String} {c : Settings}
    (h : fileSettings d file = .ok c) : Untouched c := by
  unfold fileSettings at h
  split at h
  · cases h
    exact ⟨rfl, rfl, rfl⟩
  · obtain ⟨place, -, hload⟩ := bind_eq_ok.1 (mapError_eq_ok.1 h)
    obtain ⟨v, -, rfl⟩ := loadAt_eq_ok.1 hload
    exact ⟨rfl, rfl, rfl⟩

theorem withVariables_of_ne {s : Source} (hs : s ≠ .environment) (c : Settings) (v : Value) :
    (withVariables c v).layers s = c.layers s := by
  unfold withVariables
  split
  · exact if_neg hs
  · rfl

theorem held?_environment {c : Settings} (hc : c.layers .environment = none)
    (fs : List (String × Value)) {q : List String} (hq : q ≠ []) :
    (withVariables c (record fs)).layers.held? .environment (root :: q) =
      ((record fs).at? q).filter fun v => !v.isNull := by
  unfold Layers.held? withVariables
  cases fs with
  | nil =>
    obtain ⟨k, ks, rfl⟩ := List.exists_cons_of_ne_nil hq
    rw [if_neg (by decide), hc]
    rfl
  | cons f fs => rfl

theorem held?_arguments (c : Settings) (q : List String) :
    c.layers.held? .arguments (root :: q) =
      ((argumentsOf c).at? (root :: q)).filter fun v => !v.isNull := by
  unfold Layers.held? argumentsOf
  rw [at?_getD_nothing (List.cons_ne_nil root q)]

theorem configure_eq_ok {w : Surroundings} {o : Options} {c' : Settings}
    (h : configure w o = .ok c') : ∃ name c, findConfig w.disk o.config.join = .ok name ∧
      Settings.start w.disk name w.environment = .ok c ∧
      storeAll (optionBindings o) (record []) = .ok (argumentsOf c') ∧ SameElsewhere c c' := by
  obtain ⟨name, hname, h⟩ := bind_eq_ok.1 h
  obtain ⟨c, hc, h⟩ := bind_eq_ok.1 h
  have hstart := mapError_eq_ok.1 hc
  obtain ⟨hstored, hsame⟩ := overrides_eq_ok h
  have hfree : argumentsOf c = record [] := by
    rw [argumentsOf, start_arguments hstart]
    rfl
  exact ⟨name, c, hname, hstart, hfree ▸ hstored, hsame⟩

theorem configure_of_start {w : Surroundings} {o : Options} {name : String} {c : Settings}
    (hname : findConfig w.disk o.config.join = .ok name)
    (hstart : Settings.start w.disk name w.environment = .ok c) :
    ∃ c', configure w o = .ok c' ∧
      storeAll (optionBindings o) (record []) = .ok (argumentsOf c') ∧ SameElsewhere c c' := by
  cases hc' : configure w o with
  | ok c' =>
    obtain ⟨name', c₁, hname', hstart', hrest⟩ := configure_eq_ok hc'
    cases hname.symm.trans hname'
    cases hstart.symm.trans hstart'
    exact ⟨c', rfl, hrest⟩
  | error f =>
    rcases configure_eq_error.1 hc' with h | ⟨name', g, hname', hg, -⟩
    · cases hname.symm.trans h
    · cases hname.symm.trans hname'
      cases hstart.symm.trans hg

section Taken

variable {c c' : Settings}

theorem levelOf_congr (h : c.get "fmdecorator.logging.level" (.text "INFO") =
    c'.get "fmdecorator.logging.level" (.text "INFO")) : levelOf c = levelOf c' := by
  unfold levelOf
  rw [h]

theorem openLog_congr (h : c.get "fmdecorator.logging.file" .null =
    c'.get "fmdecorator.logging.file" .null) (d : Disk) : openLog d c = openLog d c' := by
  unfold openLog
  rw [h]

theorem vaultOf_congr (h : c.get "fmdecorator.vault" (.text ".") =
    c'.get "fmdecorator.vault" (.text ".")) (d : Disk) :
    Workspace.vaultOf d c = Workspace.vaultOf d c' := by
  unfold Workspace.vaultOf
  rw [h]

theorem vaultOf_of_located {d : Disk} {text : String} {place : Path}
    (h : c.get "fmdecorator.vault" (.text ".") = .text text)
    (hplace : Vault.locate? d text = some place) : Workspace.vaultOf d c = .ok place := by
  unfold Workspace.vaultOf
  rw [h]
  dsimp only
  rw [hplace]

theorem vaultOf_of_homeless {d : Disk} {text : String}
    (h : c.get "fmdecorator.vault" (.text ".") = .text text) (hplace : Vault.locate? d text = none) :
    Workspace.vaultOf d c = .error .noHome := by
  unfold Workspace.vaultOf
  rw [h]
  dsimp only
  rw [hplace]

theorem configuredRules_congr (h : c.get "fmdecorator.rules" (.list []) =
    c'.get "fmdecorator.rules" (.list [])) :
    Workspace.configuredRules c = Workspace.configuredRules c' := by
  unfold Workspace.configuredRules
  rw [h]

theorem configuredRules_of_empty (h : c.get "fmdecorator.rules" (.list []) = .list []) :
    Workspace.configuredRules c = .ok [] := by
  unfold Workspace.configuredRules
  rw [h]
  rfl

end Taken

def askedKeys : List String :=
  ["fmdecorator.vault", "fmdecorator.rules", "fmdecorator.logging.level",
    "fmdecorator.logging.file"]

def AskedAlike (c c' : Settings) : Prop :=
  ∀ key ∈ askedKeys, ∀ default, c.get key default = c'.get key default

def ConfiguredAlike (x y : Except Failure Settings) : Prop :=
  (∃ f, x = .error f ∧ y = .error f) ∨ ∃ c c', x = .ok c ∧ y = .ok c' ∧ AskedAlike c c'

theorem startEngine_congr {c c' : Settings} (h : AskedAlike c c') (d : Disk) (level : Log.Level) :
    startEngine d c level = startEngine d c' level := by
  have hroot := vaultOf_congr (h "fmdecorator.vault" (by decide) _) d
  have hrules := configuredRules_congr (h "fmdecorator.rules" (by decide) _)
  unfold startEngine Workspace.start
  rw [hroot, hrules]
  cases Workspace.vaultOf d c' with
  | error f => rfl
  | ok root => cases Workspace.configuredRules c' <;> rfl

theorem runWith_congr {w w' : Surroundings} {a a' : Arguments} (hdisk : w'.disk = w.disk)
    (hfunction : w'.function = w.function) (htakes : w'.takes = w.takes)
    (hcommand : a'.command = a.command)
    (h : ConfiguredAlike (configure w a.options) (configure w' a'.options)) :
    runWith w a = runWith w' a' := by
  rcases h with ⟨f, hf, hf'⟩ | ⟨c, c', hc, hc', hasked⟩
  · rw [runWith_of_configure hf, runWith_of_configure hf', hdisk]
  · have hlevel := levelOf_congr (hasked "fmdecorator.logging.level" (by decide) _)
    have hlog : openLog w.disk c = openLog w'.disk c' := by
      rw [hdisk]
      exact openLog_congr (hasked "fmdecorator.logging.file" (by decide) _) w.disk
    have hperform (log : Log.Files) (level : Log.Level) :
        perform w log c level a.command = perform w' log c' level a'.command := by
      unfold perform
      rw [startEngine_congr hasked, hcommand, htakes]
      unfold hostAt
      rw [hfunction]
    cases hl : levelOf c' with
    | error f =>
      rw [runWith_of_level hc (hlevel.trans hl), runWith_of_level hc' hl, hdisk]
    | ok level =>
      cases ho : openLog w'.disk c' with
      | error f =>
        rw [runWith_of_log hc (hlevel.trans hl) (hlog.trans ho), runWith_of_log hc' hl ho, hdisk]
      | ok log =>
        have hprepared : Prepared w a.options c level log := ⟨hc, hlevel.trans hl, hlog.trans ho⟩
        have hprepared' : Prepared w' a'.options c' level log := ⟨hc', hl, ho⟩
        cases hp : perform w' log c' level a'.command with
        | error f =>
          rw [runWith_of_failure hprepared ((hperform log level).trans hp),
            runWith_of_failure hprepared' hp]
        | ok r =>
          rw [runWith_of_reply hprepared ((hperform log level).trans hp),
            runWith_of_reply hprepared' hp]

/-- A path among the settings that has both an option and a variable. -/
inductive PathSetting where
  | vault
  | logFile
  deriving DecidableEq, Repr

namespace PathSetting

def path : PathSetting → List String
  | vault => ["vault"]
  | logFile => ["logging", "file"]

def key : PathSetting → String
  | vault => "fmdecorator.vault"
  | logFile => "fmdecorator.logging.file"

def variableName : PathSetting → String
  | vault => "FMDECORATOR_VAULT"
  | logFile => "FMDECORATOR_LOGGING_FILE"

def given (o : Options) : PathSetting → Option (Option String)
  | vault => o.vault
  | logFile => o.logFile

def give (o : Options) (text : String) : PathSetting → Options
  | vault => { o with vault := some (some text) }
  | logFile => { o with logFile := some (some text) }

theorem keyPath_key (x : PathSetting) : keyPath x.key = root :: x.path := by
  cases x
  · exact keyPath_vault
  · exact keyPath_file

theorem path?_variableName (x : PathSetting) : path? x.variableName = some x.path := by
  cases x <;> decide +kernel

theorem path_ne_nil (x : PathSetting) : x.path ≠ [] := by
  cases x <;> decide

theorem asked_cases (x : PathSetting) {key : String} (h : key ∈ askedKeys) :
    key = x.key ∨ ∃ q, keyPath key = root :: q ∧ q ≠ [] ∧ Beside q x.path := by
  have hkeys : key = "fmdecorator.vault" ∨ key = "fmdecorator.rules" ∨
      key = "fmdecorator.logging.level" ∨ key = "fmdecorator.logging.file" := by
    simpa [askedKeys] using h
  rcases hkeys with rfl | rfl | rfl | rfl <;> cases x
  · exact .inl rfl
  · exact .inr ⟨_, keyPath_vault, by decide, by decide⟩
  · exact .inr ⟨_, keyPath_rules, by decide, by decide⟩
  · exact .inr ⟨_, keyPath_rules, by decide, by decide⟩
  · exact .inr ⟨_, keyPath_level, by decide, by decide⟩
  · exact .inr ⟨_, keyPath_level, by decide, by decide⟩
  · exact .inr ⟨_, keyPath_file, by decide, by decide⟩
  · exact .inl rfl

end PathSetting

theorem mem_optionBinding {path : List String} {given : Option String}
    {b : List String × Value} (h : b ∈ optionBinding path given) :
    b.1 = path ∧ ∃ t, b.2 = .text t := by
  unfold optionBinding at h
  cases hgiven : given.filter (· != "") with
  | none =>
    rw [hgiven] at h
    cases h
  | some t =>
    rw [hgiven] at h
    cases List.mem_singleton.1 h
    exact ⟨rfl, t, rfl⟩

theorem optionBinding_leaves (path : List String) (given : Option String) :
    Leaves (optionBinding path given) := by
  intro b hb
  obtain ⟨-, t, ht⟩ := mem_optionBinding hb
  rw [ht]
  exact ⟨rfl, .leaf rfl (by simp [same])⟩

theorem options_apart (x : PathSetting) {o : Options} {text : String} (htext : text ≠ "")
    (hgiven : x.given o = none) :
    StoredApart (.text text) (root :: x.path) (storeAll (optionBindings o) (record []))
      (storeAll (optionBindings (x.give o text)) (record [])) := by
  have hstored (path : List String) :
      optionBinding path (some text) = [(path, .text text)] := by
    simp [optionBinding, htext]
  cases x with
  | vault =>
    have hgiven : o.vault = none := hgiven
    have hafter : ∀ b ∈ optionBinding [root, "logging", "level"] (if o.debug then some "DEBUG"
        else none) ++ optionBinding [root, "logging", "file"] o.logFile.join,
        Beside b.1 [root, "vault"] := by
      intro b hb
      rcases List.mem_append.1 hb with hb | hb <;> rw [(mem_optionBinding hb).1] <;> decide
    have hnothing : ∀ b ∈ ([] : List (List String × Value)),
        ¬ (b.1 <+: [root, "vault"] ∧ b.1 ≠ [root, "vault"]) := by nofun
    have happart := storeAll_apart (a := .text text) (fun b hb => by cases hb) hnothing hafter
    unfold optionBindings PathSetting.give
    rw [hgiven, Option.join_some, hstored]
    exact happart
  | logFile =>
    have hgiven : o.logFile = none := hgiven
    have hleaves : Leaves (optionBinding [root, "vault"] o.vault.join ++
        optionBinding [root, "logging", "level"] (if o.debug then some "DEBUG" else none)) :=
      List.forall_mem_append.2 ⟨optionBinding_leaves _ _, optionBinding_leaves _ _⟩
    have hbefore : ∀ b ∈ optionBinding [root, "vault"] o.vault.join ++
        optionBinding [root, "logging", "level"] (if o.debug then some "DEBUG" else none),
        ¬ (b.1 <+: [root, "logging", "file"] ∧ b.1 ≠ [root, "logging", "file"]) := by
      intro b hb
      rcases List.mem_append.1 hb with hb | hb <;> rw [(mem_optionBinding hb).1] <;> decide
    have hnothing : ∀ b ∈ ([] : List (List String × Value)),
        Beside b.1 [root, "logging", "file"] := by nofun
    have happart := storeAll_apart (a := .text text) hleaves hbefore hnothing
    unfold optionBindings PathSetting.give
    rw [hgiven, Option.join_some, hstored, ← List.append_assoc, ← List.append_assoc]
    exact happart

theorem options_lack (x : PathSetting) {o : Options} {v : Value} (hgiven : x.given o = none)
    (h : storeAll (optionBindings o) (record []) = .ok v) : v.at? (root :: x.path) = none := by
  have hleaves : Leaves (optionBindings o) := List.forall_mem_append.2
    ⟨optionBinding_leaves _ _,
      List.forall_mem_append.2 ⟨optionBinding_leaves _ _, optionBinding_leaves _ _⟩⟩
  refine at?_storeAll_of_beside hleaves (List.cons_ne_nil _ _) (fun b hb => ?_) h
  cases x with
  | vault =>
    have hgiven : o.vault = none := hgiven
    rw [optionBindings, hgiven] at hb
    rcases List.mem_append.1 hb with hb | hb
    · cases hb
    · rcases List.mem_append.1 hb with hb | hb <;> rw [(mem_optionBinding hb).1] <;> decide
  | logFile =>
    have hgiven : o.logFile = none := hgiven
    rw [optionBindings, hgiven] at hb
    rcases List.mem_append.1 hb with hb | hb
    · rw [(mem_optionBinding hb).1]
      decide
    · rcases List.mem_append.1 hb with hb | hb
      · rw [(mem_optionBinding hb).1]
        decide
      · cases hb

section Calls

variable {d : Disk} {file : String} {before after : List (String × String)} {text : String}

theorem bindings_with (x : PathSetting) (before after : List (String × String)) (text : String) :
    bindings (before ++ (x.variableName, text) :: after) =
      bindings before ++ (x.path, value text) :: bindings after := by
  unfold bindings
  rw [List.filterMap_append, List.filterMap_cons, binding?, x.path?_variableName]
  rfl

theorem start_apart (x : PathSetting)
    (hbefore : ∀ b ∈ bindings before, ¬ (b.1 <+: x.path ∧ b.1 ≠ x.path))
    (hafter : ∀ b ∈ bindings after, Beside b.1 x.path) (d : Disk) (file : String) (text : String) :
    (∃ f, Settings.start d file (before ++ after) = .error f ∧
      Settings.start d file (before ++ (x.variableName, text) :: after) = .error f) ∨
    ∃ c fs gs, Untouched c ∧ DiffersBy (value text) x.path (record fs) (record gs) ∧
      Settings.start d file (before ++ after) = .ok (withVariables c (record fs)) ∧
      Settings.start d file (before ++ (x.variableName, text) :: after) =
        .ok (withVariables c (record gs)) := by
  have hstored := storeAll_apart (a := value text) bindings_leaves hbefore hafter
  rw [start_eq_bind, start_eq_bind, bindings_with]
  have happend : bindings (before ++ after) = bindings before ++ bindings after :=
    List.filterMap_append
  rw [happend]
  cases hc : fileSettings d file with
  | error f => exact .inl ⟨f, rfl, rfl⟩
  | ok c =>
    rcases hstored with ⟨f, hv, hw⟩ | ⟨v, w, hv, hw, hdiffers⟩
    · rw [hv, hw]
      exact .inl ⟨_, rfl, rfl⟩
    · obtain ⟨k, ks, hpath⟩ := List.exists_cons_of_ne_nil x.path_ne_nil
      have hrecords := hdiffers
      rw [hpath] at hrecords
      obtain ⟨fs, gs, -, rfl, rfl, -⟩ := hrecords
      rw [hv, hw]
      exact .inr ⟨c, fs, gs, fileSettings_untouched hc, hdiffers, rfl, rfl⟩

end Calls

structure Rivals (x : PathSetting) (text : String) (c c' : Settings) : Prop where
  elsewhere : ∀ key ∈ askedKeys, key ≠ x.key → ∀ default, c.get key default = c'.get key default
  byVariable : ∀ default, c.get x.key default = value text
  byOption : ∀ default, c'.get x.key default = .text text

theorem value_isNull (text : String) : (value text).isNull = false := by
  unfold value
  dsimp only
  split
  · rfl
  · split
    · rfl
    · split <;> rfl

theorem held?_congr {l l' : Layers} {s : Source} (h : l s = l' s) (path : List String) :
    l.held? s path = l'.held? s path := by
  unfold Layers.held?
  rw [h]

section Configured

variable {x : PathSetting} {text : String} {c c' b : Settings} {fs gs : List (String × Value)}

theorem Untouched.runtime_free {v : Value} (hb : Untouched b)
    (hsame : SameElsewhere (withVariables b v) c) (path : List String) :
    c.layers.held? .runtime path = none := by
  obtain ⟨-, -, hruntime⟩ := hb
  rw [held?_congr (hsame .runtime (by decide)),
    held?_congr (withVariables_of_ne (by decide) b v), Layers.held?, hruntime]
  rfl

theorem Untouched.environment_holds (hb : Untouched b)
    (hsame : SameElsewhere (withVariables b (record fs)) c) {q : List String} (hq : q ≠ []) :
    c.layers.held? .environment (root :: q) = ((record fs).at? q).filter fun v => !v.isNull := by
  rw [held?_congr (hsame .environment nofun), held?_environment hb.1 fs hq]

theorem get_of_beside (hb : Untouched b)
    (hvariables : DiffersBy (value text) x.path (record fs) (record gs))
    (hoptions : DiffersBy (.text text) (root :: x.path) (argumentsOf c) (argumentsOf c'))
    (hsame : SameElsewhere (withVariables b (record gs)) c)
    (hsame' : SameElsewhere (withVariables b (record fs)) c') {key : String} {q : List String}
    (hkey : keyPath key = root :: q) (hq : q ≠ []) (hbeside : Beside q x.path) (default : Value) :
    c.get key default = c'.get key default := by
  have hroot : Beside (root :: q) (root :: x.path) := beside_cons.2 fun _ => hbeside
  have hall (s : Source) : c.layers.held? s (root :: q) = c'.layers.held? s (root :: q) := by
    by_cases harguments : s = .arguments
    · rw [harguments, held?_arguments, held?_arguments, hoptions.at?_beside hroot]
    · by_cases henvironment : s = .environment
      · rw [henvironment, hb.environment_holds hsame hq, hb.environment_holds hsame' hq,
          hvariables.at?_beside hbeside]
      · refine held?_congr ?_ _
        rw [hsame s harguments, hsame' s harguments, withVariables_of_ne henvironment,
          withVariables_of_ne henvironment]
  unfold Settings.get Layers.get Layers.get?
  rw [hkey]
  simp only [hall]

theorem get_of_variable (hb : Untouched b)
    (hvariables : DiffersBy (value text) x.path (record fs) (record gs))
    (hlack : (argumentsOf c).at? (root :: x.path) = none)
    (hsame : SameElsewhere (withVariables b (record gs)) c) (default : Value) :
    c.get x.key default = value text := by
  have hfound : c.layers.get? x.key = some (value text) := by
    have hsources : Source.all =
        [.defaults, .file] ++ Source.environment :: [.arguments, .runtime] := rfl
    rw [Layers.get?_eq hsources, x.keyPath_key, hb.environment_holds hsame x.path_ne_nil,
      hvariables.at?_self, Option.filter_some, value_isNull]
    have habove : ([Source.arguments, .runtime].reverse.findSome? fun s =>
        c.layers.held? s (root :: x.path)) = none := by
      change [Source.runtime, .arguments].findSome? _ = none
      rw [List.findSome?_cons, hb.runtime_free hsame, List.findSome?_singleton, held?_arguments,
        hlack]
      rfl
    rw [habove]
    rfl
  unfold Settings.get Layers.get
  rw [hfound, Option.getD_some]

theorem get_of_option (hb : Untouched b)
    (hoptions : DiffersBy (.text text) (root :: x.path) (argumentsOf c) (argumentsOf c'))
    (hsame' : SameElsewhere (withVariables b (record fs)) c') (default : Value) :
    c'.get x.key default = .text text := by
  have hfound : c'.layers.get? x.key = some (.text text) := by
    have hsources : Source.all =
        [.defaults, .file, .environment] ++ Source.arguments :: [.runtime] := rfl
    rw [Layers.get?_eq hsources, x.keyPath_key, held?_arguments, hoptions.at?_self,
      List.reverse_singleton, List.findSome?_singleton, hb.runtime_free hsame']
    rfl
  unfold Settings.get Layers.get
  rw [hfound, Option.getD_some]

theorem rivals_of_layers (hb : Untouched b)
    (hvariables : DiffersBy (value text) x.path (record fs) (record gs))
    (hoptions : DiffersBy (.text text) (root :: x.path) (argumentsOf c) (argumentsOf c'))
    (hlack : (argumentsOf c).at? (root :: x.path) = none)
    (hsame : SameElsewhere (withVariables b (record gs)) c)
    (hsame' : SameElsewhere (withVariables b (record fs)) c') : Rivals x text c c' where
  elsewhere key hkey hne default := by
    rcases x.asked_cases hkey with heq | ⟨q, hq, hqne, hbeside⟩
    · exact absurd heq hne
    · exact get_of_beside hb hvariables hoptions hsame hsame' hq hqne hbeside default
  byVariable := get_of_variable hb hvariables hlack hsame
  byOption := get_of_option hb hoptions hsame'

end Configured

theorem configure_rivals (x : PathSetting) {before after : List (String × String)}
    (hbefore : ∀ b ∈ bindings before, ¬ (b.1 <+: x.path ∧ b.1 ≠ x.path))
    (hafter : ∀ b ∈ bindings after, Beside b.1 x.path) {o : Options} {text : String}
    (hgiven : x.given o = none) (htext : text ≠ "") (w : Surroundings) :
    (∃ f, configure { w with environment := before ++ (x.variableName, text) :: after } o =
        .error f ∧
      configure { w with environment := before ++ after } (x.give o text) = .error f) ∨
    ∃ c c', configure { w with environment := before ++ (x.variableName, text) :: after } o =
        .ok c ∧
      configure { w with environment := before ++ after } (x.give o text) = .ok c' ∧
      Rivals x text c c' := by
  have hconfig : (x.give o text).config = o.config := by cases x <;> rfl
  cases hname : findConfig w.disk o.config.join with
  | error f =>
    refine .inl ⟨f, configure_eq_error.2 (.inl hname), configure_eq_error.2 (.inl ?_)⟩
    rw [hconfig]
    exact hname
  | ok name =>
    have hname' : findConfig w.disk (x.give o text).config.join = .ok name := by
      rw [hconfig]
      exact hname
    -- up to the environment both ways fail alike; the options cannot fail any more
    rcases start_apart x hbefore hafter w.disk name text with
      ⟨f, hwithout, hwith⟩ | ⟨b, fs, gs, hb, hvariables, hwithout, hwith⟩
    · exact .inl ⟨ofStart f, configure_eq_error.2 (.inr ⟨name, f, hname, hwith, rfl⟩),
        configure_eq_error.2 (.inr ⟨name, f, hname', hwithout, rfl⟩)⟩
    · obtain ⟨c, hc, hstored, hsame⟩ := configure_of_start
        (w := { w with environment := before ++ (x.variableName, text) :: after }) hname hwith
      obtain ⟨c', hc', hstored', hsame'⟩ := configure_of_start
        (w := { w with environment := before ++ after }) hname' hwithout
      refine .inr ⟨c, c', hc, hc', ?_⟩
      rcases options_apart x htext hgiven with ⟨f, hf, -⟩ | ⟨v, v', hv, hv', hoptions⟩
      · cases hf.symm.trans hstored
      · cases hv.symm.trans hstored
        cases hv'.symm.trans hstored'
        exact rivals_of_layers hb hvariables hoptions (options_lack x hgiven hstored) hsame hsame'

def crowded (name : String) : Surroundings :=
  ⟨⟨"", ⟨"/", []⟩, [], [[name]], fun _ => none⟩, [], fun _ _ _ => .error (.told ⟨.exit, ""⟩),
    fun _ => true⟩

section Crowded

variable {text : String}

theorem ofString_of_single (hne : text ≠ "") (hslash : '/' ∉ text.toList)
    (hpoint : '.' ∉ text.toList) : Path.ofString text = ⟨"", [text]⟩ := by
  have hsplit (s : List Char) (h : '/' ∉ s) : Text.split '/' s = [s] := by
    induction s with
    | nil => rfl
    | cons c r ih =>
      rw [List.mem_cons, not_or] at h
      rw [Text.split, ih h.2]
      simp [Ne.symm h.1]
  have hroot : Path.rootOf text.toList = "" := by
    unfold Path.rootOf
    split
    · next h => exact absurd (by simp [h]) hslash
    · next h => exact absurd (by simp [h]) hslash
    · next h => exact absurd (by simp [h]) hslash
    · rfl
  have hdot : text ≠ "." := by
    rintro rfl
    exact hpoint (by decide)
  unfold Path.ofString Text.splitText
  rw [hroot, hsplit _ hslash]
  simp [hne, hdot]

theorem place_of_single (hne : text ≠ "") (hslash : '/' ∉ text.toList)
    (hpoint : '.' ∉ text.toList) (hnull : '\x00' ∉ text.toList) :
    (Disk.resolve (Path.ofString text)).beforeNull = .inside [text] := by
  have hdots : text ≠ ".." := by
    rintro rfl
    exact hpoint (by decide)
  rw [ofString_of_single hne hslash hpoint]
  simp [Disk.resolve, Path.isAbsolute, hdots, Disk.Place.down, Disk.Place.beforeNull,
    Disk.beforeNull, hnull]

theorem find_crowded (hpoint : '.' ∉ text.toList) :
    (crowded text).disk.find (.inside [text]) = .ok .folder ∨
    (crowded text).disk.find (.inside [text]) = .error .nameTooLong := by
  have hdots : text ≠ ".." ∧ text ≠ "." := by
    constructor <;> rintro rfl <;> exact hpoint (by decide)
  have hhere : (crowded text).disk.kind? (.inside []) = some .folder := rfl
  have hthere : (crowded text).disk.kind? (.inside [text]) = some .folder := by
    simp [crowded, Disk.kind?, Disk.content?, Disk.hasFolder]
  have hwalk : (crowded text).disk.walk (.inside []) [text] =
      if 255 < text.utf8ByteSize then .error .nameTooLong else .ok (.inside [text]) := by
    rw [Disk.walk, hhere]
    dsimp only
    rw [if_neg hdots.1, if_neg hdots.2]
    rfl
  unfold Disk.find
  dsimp only
  rw [hwalk]
  split
  · exact .inr rfl
  · left
    change (crowded text).disk.kindAt (.inside [text]) = _
    rw [Disk.kindAt, hthere]

theorem openLogFile_crowded (hne : text ≠ "") (hslash : '/' ∉ text.toList)
    (hpoint : '.' ∉ text.toList) (hnull : '\x00' ∉ text.toList) (shown : String → String) :
    ∃ g, openLogFile (crowded text).disk text shown = .error (.escaped (.system g)) := by
  have hwritable : ∃ f, (crowded text).disk.checkWritable (.inside [text]) = .error f := by
    unfold Disk.checkWritable
    rcases find_crowded hpoint with h | h <;> rw [h] <;> exact ⟨_, rfl⟩
  obtain ⟨f, hf⟩ := hwritable
  have hopenable : (crowded text).disk.checkOpenable (.inside [text]) = .error f := by
    have hslashed : (Disk.Place.inside [text]).isSlashed = false := by
      simp [Disk.Place.isSlashed, hne]
    unfold Disk.checkOpenable
    rw [hslashed]
    exact hf
  have hopen : ∃ e, (Log.Files.on (crowded text).disk).open? text logLimit logBackups =
      .error e := by
    unfold Log.Files.open?
    dsimp only
    rw [place_of_single hne hslash hpoint hnull]
    split
    · exact ⟨_, rfl⟩
    · rw [show (Log.Files.on (crowded text).disk).disk.checkOpenable (.inside [text]) = .error f
        from hopenable]
      exact ⟨_, rfl⟩
  obtain ⟨e, he⟩ := hopen
  unfold openLogFile
  rw [he]
  exact ⟨_, rfl⟩

end Crowded

def PathSetting.alone (v : Value) : PathSetting → Value
  | .vault => .record [("vault", v)]
  | .logFile => .record [("logging", .record [("file", v)])]

def aloneSettings (x : PathSetting) (v : Value) : Settings :=
  ⟨Layers.start.set .environment (.record [(root, x.alone v)]), []⟩

theorem configure_alone (x : PathSetting) (text : String) :
    configure { crowded text with environment := [(x.variableName, text)] } noOptions =
      .ok (aloneSettings x (value text)) := by
  have hbindings : bindings [(x.variableName, text)] = [(x.path, value text)] :=
    bindings_with x [] [] text
  have hstart : Settings.start (crowded text).disk "" [(x.variableName, text)] =
      .ok (aloneSettings x (value text)) := by
    rw [start_eq_bind, hbindings]
    cases x <;> rfl
  unfold configure
  change (do
    let c ← (Settings.start (crowded text).disk "" [(x.variableName, text)]).mapError ofStart
    _) = _
  rw [hstart]
  rfl

theorem aloneSettings_asked (x : PathSetting) (v : Value) :
    levelOf (aloneSettings x v) = .ok .info ∧
    (aloneSettings x v).get "fmdecorator.rules" (.list []) = .list [] ∧
    (x = .logFile → (aloneSettings x v).get "fmdecorator.vault" (.text ".") = .text ".") ∧
    (x = .vault → (aloneSettings x v).get "fmdecorator.logging.file" .null = .null) := by
  unfold levelOf Settings.get Layers.get Layers.get?
  rw [keyPath_level, keyPath_rules, keyPath_vault, keyPath_file]
  cases x
  · exact ⟨rfl, rfl, nofun, fun _ => rfl⟩
  · exact ⟨rfl, rfl, fun _ => rfl, nofun⟩

def PathSetting.flag : PathSetting → String
  | vault => "--vault"
  | logFile => "--log-file"

def PathSetting.switch : PathSetting → Switch
  | vault => .vault
  | logFile => .logFile

theorem ofArgument_given (x : PathSetting) (text : String) :
    Mark.ofArgument Switch.leading (x.flag ++ "=" ++ text) =
      .ok (.switch x.flag x.switch (some text.toList)) := by
  have hchars : (x.flag ++ "=" ++ text).toList = x.flag.toList ++ '=' :: text.toList := by
    simp [String.toList_append]
  have hcut : Mark.cut (x.flag ++ "=" ++ text).toList = (x.flag, some text.toList) := by
    rw [hchars]
    cases x <;> simp [Mark.cut, PathSetting.flag]
  have hunnamed : Switch.named? Switch.leading (x.flag ++ "=" ++ text) = none := by
    have hnames : ∀ s ∈ Switch.leading, ∀ name ∈ s.names, '=' ∉ name.toList := by decide
    unfold Switch.named?
    rw [List.find?_eq_none]
    intro s hs hname
    refine hnames s hs _ (List.contains_iff_mem.1 hname) ?_
    simp [hchars]
  have hfull : Mark.inFull? Switch.leading (x.flag ++ "=" ++ text) =
      some (.switch x.flag x.switch (some text.toList)) := by
    unfold Mark.inFull?
    rw [hunnamed, hcut]
    cases x <;> rfl
  unfold Mark.ofArgument Mark.ofOption
  rw [hfull, hchars]
  cases x <;> rfl

theorem read_given (x : PathSetting) {text : String} (hne : text ≠ "") (hdivider : text ≠ "--") :
    Arguments.read [x.flag ++ "=" ++ text, "check"] = .ok ⟨x.give noOptions text, .check⟩ := by
  have hargument : x.flag ++ "=" ++ text ≠ "--" := by
    intro h
    have hlength := congrArg (fun s => s.toList.length) h
    cases x <;> simp [PathSetting.flag, String.toList_append] at hlength
  have hmarks : Mark.all Switch.leading [x.flag ++ "=" ++ text, "check"] =
      .ok [(x.flag ++ "=" ++ text, .switch x.flag x.switch (some text.toList)),
        ("check", .plain)] := by
    rw [Mark.all, if_neg hargument, ofArgument_given]
    rfl
  have hcluster : Arguments.clusterOf Switch.leading x.flag x.switch (some text.toList) =
      .ok ⟨[], x.switch, some text⟩ := by
    obtain ⟨c, r, hchars⟩ := List.exists_cons_of_ne_nil fun h => hne (String.toList_eq_nil_iff.1 h)
    have htext : String.ofList (c :: r) = text := by rw [← hchars, String.ofList_toList]
    have htakes : x.switch.takesValue = true := by cases x <;> rfl
    rw [hchars, ← htext]
    unfold Arguments.clusterOf
    dsimp only
    unfold Arguments.cluster
    dsimp only
    rw [if_pos htakes]
  have happly : Arguments.applyAll noOptions ⟨[], x.switch, some text⟩ text =
      .ok (x.give noOptions text) := by
    have hvalue : Arguments.valueOf? text = some text := if_neg hdivider
    cases x <;> simp [Arguments.applyAll, Arguments.apply, PathSetting.switch, PathSetting.give,
      hvalue, pure, Except.pure, bind, Except.bind]
  have hcommand : Arguments.readLeading (x.give noOptions text) [("check", .plain)] =
      .ok (⟨x.give noOptions text, .check⟩, []) := rfl
  have hleading : Arguments.readLeading noOptions
      [(x.flag ++ "=" ++ text, .switch x.flag x.switch (some text.toList)), ("check", .plain)] =
      .ok (⟨x.give noOptions text, .check⟩, []) := by
    rw [Arguments.readLeading, hcluster]
    change (Arguments.applyAll noOptions ⟨[], x.switch, some text⟩ text >>= fun o =>
      Arguments.readLeading o [("check", .plain)]) = _
    rw [happly]
    exact hcommand
  unfold Arguments.read
  rw [hmarks]
  dsimp only [mapError_ok, bind, Except.bind]
  rw [hleading]
  rfl

theorem Begun.check_exit {w : Surroundings} {a : Arguments} {log : Log.Files} {h : Host}
    {e : Engine} (hb : Begun w a.options log h e) (hcommand : a.command = .check) :
    (∃ n, (runWith w a).exit = .code n) ∨ ∃ o, (runWith w a).exit = .escaped (.obstacle o) := by
  obtain ⟨ws, hws⟩ := Engine.preloadRules_reports hb.reports e
  rw [runWith_of_check hb hcommand, deliver_exit, check_result hws]
  by_cases hprint : Printable w.takes (findings e.rules ws)
  · rw [print_of_printable hprint]
    exact .inl ⟨_, rfl⟩
  · obtain ⟨c, hc⟩ := print_of_not_printable hprint
    rw [hc]
    exact .inr ⟨_, rfl⟩

section Parting

variable {text : String} {c' : Settings} {w w' : Surroundings}

theorem exit_ne_of_vault (hne : value text ≠ .text text) (hdisk : w'.disk = w.disk)
    (hc : configure w noOptions = .ok (aloneSettings .vault (value text)))
    (hc' : configure w' (PathSetting.vault.give noOptions text) = .ok c')
    (hrivals : Rivals .vault text (aloneSettings .vault (value text)) c') :
    (runWith w ⟨noOptions, .check⟩).exit ≠
      (runWith w' ⟨PathSetting.vault.give noOptions text, .check⟩).exit := by
  obtain ⟨hlevel, hrules, -, hfile⟩ := aloneSettings_asked .vault (value text)
  have hlog : openLog w.disk (aloneSettings .vault (value text)) = .ok (.on w.disk) := by
    unfold openLog
    rw [hfile rfl]
    rfl
  have hprepared : Prepared w noOptions (aloneSettings .vault (value text)) .info (.on w.disk) :=
    ⟨hc, hlevel, hlog⟩
  have hprepared' : Prepared w' (PathSetting.vault.give noOptions text) c' .info (.on w.disk) := by
    refine ⟨hc', ?_, ?_⟩
    · rw [← levelOf_congr (hrivals.elsewhere _ (by decide) (by decide) _), hlevel]
    · rw [hdisk, ← openLog_congr (hrivals.elsewhere _ (by decide) (by decide) _), hlog]
  have hvault : Workspace.vaultOf w.disk (aloneSettings .vault (value text)) = .error .vault := by
    unfold Workspace.vaultOf
    rw [show (aloneSettings .vault (value text)).get "fmdecorator.vault" (.text ".") = value text
      from hrivals.byVariable _]
    rcases value_cases text with h | ⟨b, h⟩ | ⟨n, h⟩
    · exact absurd h hne
    · rw [h]
    · rw [h]
  have hexit : (runWith w ⟨noOptions, .check⟩).exit = .escaped .vault := by
    rw [runWith_of_vault hprepared hvault]
    rfl
  have hpath : c'.get "fmdecorator.vault" (.text ".") = .text text := hrivals.byOption _
  rw [hexit]
  -- with the option the vault is a text, wherever it leads
  cases hroot : Vault.locate? w.disk text with
  | none =>
    rw [runWith_of_vault hprepared' (vaultOf_of_homeless hpath hroot)]
    nofun
  | some root =>
    have hvault' : Workspace.vaultOf w.disk c' = .ok root := vaultOf_of_located hpath hroot
    have hrules' : Workspace.configuredRules c' = .ok [] := by
      rw [← configuredRules_congr (hrivals.elsewhere _ (by decide) (by decide) _)]
      exact configuredRules_of_empty hrules
    have hbegun : Begun w' (PathSetting.vault.give noOptions text) (.on w.disk)
        (hostAt w' (.on w.disk) root) (.start [] .info) := .intro hprepared' hvault' hrules'
    rcases Begun.check_exit (a := ⟨PathSetting.vault.give noOptions text, .check⟩) hbegun rfl with
      ⟨n, hn⟩ | ⟨o, ho⟩
    · rw [hn]
      nofun
    · rw [ho]
      nofun

theorem exit_ne_of_logFile (htext : text ≠ "") (hne : value text ≠ .text text)
    (hdisk : w'.disk = w.disk)
    (hopen : ∃ g, openLogFile w.disk text Text.quoted = .error (.escaped (.system g)))
    (hroot : ∃ root, Vault.locate? w.disk "." = some root)
    (hc : configure w noOptions = .ok (aloneSettings .logFile (value text)))
    (hc' : configure w' (PathSetting.logFile.give noOptions text) = .ok c')
    (hrivals : Rivals .logFile text (aloneSettings .logFile (value text)) c') :
    (runWith w ⟨noOptions, .check⟩).exit ≠
      (runWith w' ⟨PathSetting.logFile.give noOptions text, .check⟩).exit := by
  obtain ⟨hlevel, hrules, hvault, -⟩ := aloneSettings_asked .logFile (value text)
  have hlevel' : levelOf c' = .ok .info := by
    rw [← levelOf_congr (hrivals.elsewhere _ (by decide) (by decide) _), hlevel]
  obtain ⟨g, hg⟩ := hopen
  have hlog' : openLog w'.disk c' = .error (.escaped (.system g)) := by
    have htrue : (Value.text text).isTrue = true := bne_iff_ne.2 htext
    unfold openLog
    rw [show c'.get "fmdecorator.logging.file" .null = .text text from hrivals.byOption _, hdisk,
      orElse, if_pos htrue]
    exact hg
  have hexit' : (runWith w' ⟨PathSetting.logFile.give noOptions text, .check⟩).exit =
      .escaped (.system g) := by
    rw [runWith_of_log hc' hlevel' hlog']
    rfl
  have hfile : (aloneSettings .logFile (value text)).get "fmdecorator.logging.file" .null =
      value text := hrivals.byVariable _
  have hlog : openLog w.disk (aloneSettings .logFile (value text)) = .ok (.on w.disk) ∨
      openLog w.disk (aloneSettings .logFile (value text)) = .error (.escaped .logName) := by
    unfold openLog orElse
    rw [hfile]
    by_cases htrue : (value text).isTrue = true
    · rw [if_pos htrue]
      rcases value_cases text with h | ⟨b, h⟩ | ⟨n, h⟩
      · exact absurd h hne
      · rw [h]
        exact .inr rfl
      · rw [h]
        exact .inr rfl
    · rw [if_neg htrue]
      exact .inl rfl
  -- with the variable no log is opened at all, so no fault of the system comes up
  rw [hexit']
  rcases hlog with hlog | hlog
  · obtain ⟨root, hroot⟩ := hroot
    have hvaultOf : Workspace.vaultOf w.disk (aloneSettings .logFile (value text)) = .ok root :=
      vaultOf_of_located (hvault rfl) hroot
    have hbegun : Begun w noOptions (.on w.disk) (hostAt w (.on w.disk) root)
        (.start [] .info) := .intro ⟨hc, hlevel, hlog⟩ hvaultOf (configuredRules_of_empty hrules)
    rcases Begun.check_exit (a := ⟨noOptions, .check⟩) hbegun rfl with ⟨n, hn⟩ | ⟨o, ho⟩
    · rw [hn]
      nofun
    · rw [ho]
      nofun
  · rw [runWith_of_log hc hlevel hlog]
    nofun

end Parting

/-- Whatever a call finds and whatever else it is given, it ends in the same way whether the path is in
the variable or given by the option. Other variables have to leave room for the path. -/
def PathSetting.Interchangeable (x : PathSetting) (text : String) : Prop :=
  ∀ (w : Surroundings) (before after : List (String × String)) (arguments arguments' : List String)
    (a : Arguments),
    Arguments.read arguments = .ok a → x.given a.options = none →
    Arguments.read arguments' = .ok { a with options := x.give a.options text } →
    (∀ b ∈ bindings before, ¬ (b.1 <+: x.path ∧ b.1 ≠ x.path)) →
    (∀ b ∈ bindings after, Beside b.1 x.path) →
    run { w with environment := before ++ (x.variableName, text) :: after } arguments =
      run { w with environment := before ++ after } arguments'

theorem Rivals.askedAlike {x : PathSetting} {text : String} {c c' : Settings}
    (h : Rivals x text c c') (htext : value text = .text text) : AskedAlike c c' := by
  intro key hkey default
  by_cases hx : key = x.key
  · rw [hx, h.byVariable, h.byOption, htext]
  · exact h.elsewhere key hkey hx default

theorem interchangeable_of_value (x : PathSetting) {text : String} (htext : text ≠ "")
    (hvalue : value text = .text text) : x.Interchangeable text := by
  intro w before after arguments arguments' a hread hgiven hread' hbefore hafter
  have halike : ConfiguredAlike
      (configure { w with environment := before ++ (x.variableName, text) :: after } a.options)
      (configure { w with environment := before ++ after } (x.give a.options text)) := by
    rcases configure_rivals x hbefore hafter hgiven htext w with hfail | ⟨c, c', hc, hc', hrivals⟩
    · exact .inl hfail
    · exact .inr ⟨c, c', hc, hc', hrivals.askedAlike hvalue⟩
  have hsame : runWith { w with environment := before ++ (x.variableName, text) :: after } a =
      runWith { w with environment := before ++ after }
        { a with options := x.give a.options text } := runWith_congr rfl rfl rfl rfl halike
  unfold run
  rw [hread, hread']
  exact congrArg Except.ok hsame

theorem value_of_interchangeable (x : PathSetting) {text : String} (htext : text ≠ "")
    (h : x.Interchangeable text) : value text = .text text := by
  by_contra hne
  have hfree (c : Char) (hmark : c = '/' ∨ c = '.' ∨ c = '\x00') : c ∉ text.toList :=
    fun hc => hne (value_of_mem hc hmark)
  have hdivider : text ≠ "--" := by
    rintro rfl
    exact hne (value_of_fault (f := .malformed) (by decide +kernel) (by decide +kernel))
  have hread : Arguments.read ["check"] = .ok ⟨noOptions, .check⟩ := by decide +kernel
  have hread' := read_given x htext hdivider
  have hgiven : x.given noOptions = none := by cases x <;> rfl
  have hruns := h (crowded text) [] [] ["check"] [x.flag ++ "=" ++ text, "check"] _ hread hgiven
    hread' nofun nofun
  unfold run at hruns
  rw [hread, hread'] at hruns
  have hexit := congrArg Result.exit (Except.ok.inj hruns)
  have hconfigured := configure_alone x text
  have hbefore : ∀ b ∈ bindings [], ¬ (b.1 <+: x.path ∧ b.1 ≠ x.path) := nofun
  have hafter : ∀ b ∈ bindings [], Beside b.1 x.path := nofun
  rcases configure_rivals x hbefore hafter hgiven htext (crowded text)
    with ⟨f, hf, -⟩ | ⟨c, c', hc, hc', hrivals⟩
  · cases hconfigured.symm.trans hf
  · cases hconfigured.symm.trans hc
    revert hexit
    cases x with
    | vault => exact exit_ne_of_vault hne rfl hconfigured hc' hrivals
    | logFile =>
      have hopen := openLogFile_crowded htext (hfree _ (.inl rfl)) (hfree _ (.inr (.inl rfl)))
        (hfree _ (.inr (.inr rfl))) Text.quoted
      exact exit_ne_of_logFile (w := { crowded text with environment := _ }) htext hne rfl hopen
        ⟨_, rfl⟩ hconfigured hc' hrivals

/-- A path may be given in its variable as well as by its option exactly if its text is no word for a
truth value and no whole number. -/
theorem interchangeable_iff (x : PathSetting) {text : String} (htext : text ≠ "") :
    x.Interchangeable text ↔
      Text.lower text ∉ truthWords ∧ ∀ n, Numeral.readInt 10 text.toList ≠ .ok n := by
  rw [← value_eq_text_iff]
  exact ⟨value_of_interchangeable x htext, interchangeable_of_value x htext⟩

theorem interchangeable_notes : "notes" ≠ "" ∧ PathSetting.vault.Interchangeable "notes" := by
  have hne : "notes" ≠ "" := by decide
  have hvalue : value "notes" = .text "notes" :=
    value_of_fault (f := .malformed) (by decide +kernel) (by decide +kernel)
  exact ⟨hne, (interchangeable_iff .vault hne).2 ((value_eq_text_iff "notes").1 hvalue)⟩

def exitCode? (w : Surroundings) (arguments : List String) : Option Nat :=
  match run w arguments with
  | .ok ⟨.code n, _, _, _⟩ => some n
  | _ => none

theorem year_as_vault :
    (run { crowded "2024" with environment := [("FMDECORATOR_VAULT", "2024")] } ["check"]).map
      Result.exit = .ok (.escaped .vault) ∧
    exitCode? (crowded "2024") ["--vault", "2024", "check"] = some 0 :=
  ⟨rfl, by decide +kernel⟩

end NoteDecor.CommandLine
