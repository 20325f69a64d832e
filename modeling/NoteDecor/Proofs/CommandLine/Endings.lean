import NoteDecor.Proofs.CommandLine.Configuring
import NoteDecor.Proofs.Engine.Ordinary
import NoteDecor.Proofs.Notice.Listing
import NoteDecor.Proofs.Notice.Rendering

/-! How calls end. -/

namespace NoteDecor.CommandLine

structure Prepared (w : Surroundings) (o : Options) (c : Settings) (level : Log.Level)
    (log : Log.Files) : Prop where
  settings : configure w o = .ok c
  level : levelOf c = .ok level
  log : openLog w.disk c = .ok log

inductive Begun (w : Surroundings) (o : Options) : Log.Files → Host → Engine → Prop where
  | intro {c : Settings} {level : Log.Level} {log : Log.Files} {root : Path} {rules : List Rule} :
      Prepared w o c level log → Workspace.vaultOf log.disk c = .ok root →
      Workspace.configuredRules c = .ok rules →
      Begun w o log (hostAt w log root) (.start rules level)

def pass (h : Host) (e : Engine) (s : Snapshot) : Except Stop (List Evaluation) :=
  ((e.preloadRules h).1.evaluate h s).2

def Passes (w : Surroundings) (a : Arguments) (result : Except Stop (List Evaluation)) : Prop :=
  ∃ log h e file s, Begun w a.options log h e ∧ a.command = .evaluate file ∧
    Snapshot.readFile log.disk file = .ok s ∧ pass h e s = result

def Printable (takes : Char → Bool) (text : String) : Prop := ∀ c ∈ text.toList, takes c = true

def findings (rules : List Rule) (ws : List Warning) : String :=
  if ws = [] then toString (Engine.functionRules rules).length ++ " rule file(s) loaded"
  else Notice.listing ws

/-- The call is a check, and these are the rules that it finds without their files. -/
def Finds (w : Surroundings) (a : Arguments) (rules : List Rule) (ws : List Warning) : Prop :=
  ∃ log h e, Begun w a.options log h e ∧ a.command = .check ∧ e.rules = rules ∧
    (e.preloadRules h).2 = .ok ws

/-- What a call tells its user as an error. -/
inductive Told (w : Surroundings) (a : Arguments) : String → Prop where
  | noFile {name : String} {found : Option Disk.Kind} : Named w a.options name (.ok found) →
      NoFile found → Told w a ("Configuration file does not exist: " ++ name)
  | settings {name : String} {f : Settings.FileFault} :
      findConfig w.disk a.options.config.join = .ok name →
      Settings.start w.disk name w.environment = .error (.file f) → f.code?.isSome = true →
      Told w a f.message
  | rules {c : Settings} {level : Log.Level} {log : Log.Files} {root : Path} {f : Rule.Fault} :
      Prepared w a.options c level log → Workspace.vaultOf log.disk c = .ok root →
      Workspace.configuredRules c = .error f → f.isUnwritable = false →
      Told w a ("Invalid rule settings: " ++ f.message)
  | snapshot {log : Log.Files} {h : Host} {e : Engine} {file message : String}
      {f : Snapshot.FileFault} : Begun w a.options log h e → a.command = .evaluate file →
      Snapshot.readFile log.disk file = .error f → f.message? = some message → Told w a message

/-- Why a call ends with a fault that nobody catches: names that cannot be looked up, a settings
file that is no text or holds an impossible scalar, variables that contradict each other, a level or
a log file that there cannot be, a vault that has no name or no home, numbers too long to be
written, a snapshot file that is no text or not to be copied, a rule function that closes the
computation or fails without a text, outcomes that cannot be told, and characters that standard
output does not take. -/
inductive Uncaught (w : Surroundings) (a : Arguments) : Prop where
  | name {name : String} {f : Disk.Fault} : Named w a.options name (.error f) → Uncaught w a
  | settings {name : String} {f : Settings.FileFault} :
      findConfig w.disk a.options.config.join = .ok name →
      Settings.start w.disk name w.environment = .error (.file f) → f.code? = none → Uncaught w a
  | environment {name : String} {f : Settings.PathFault} :
      findConfig w.disk a.options.config.join = .ok name →
      Settings.start w.disk name w.environment = .error (.environment f) → Uncaught w a
  | level {c : Settings} {f : Log.Level.Fault} : configure w a.options = .ok c →
      Log.Level.ofValue (c.get "fmdecorator.logging.level" (.text "INFO")) = .error f →
      Uncaught w a
  | log {c : Settings} {level : Log.Level} {f : Failure} : configure w a.options = .ok c →
      levelOf c = .ok level → openLog w.disk c = .error f → Uncaught w a
  | vault {c : Settings} {level : Log.Level} {log : Log.Files} {f : Workspace.Fault} :
      Prepared w a.options c level log → Workspace.vaultOf log.disk c = .error f → Uncaught w a
  | rules {c : Settings} {level : Log.Level} {log : Log.Files} {root : Path} {f : Rule.Fault} :
      Prepared w a.options c level log → Workspace.vaultOf log.disk c = .ok root →
      Workspace.configuredRules c = .error f → f.isUnwritable = true → Uncaught w a
  | snapshot {log : Log.Files} {h : Host} {e : Engine} {file : String} {f : Snapshot.FileFault} :
      Begun w a.options log h e → a.command = .evaluate file →
      Snapshot.readFile log.disk file = .error f → f.message? = none → Uncaught w a
  | raised {f : Fault} : Passes w a (.error (.raised f)) → f.kind ≠ .interrupt → Uncaught w a
  | misuse {m : Misuse} : Passes w a (.error (.misuse m)) → Uncaught w a
  | untold {vs : List Evaluation} {o : Obstacle} : Passes w a (.ok vs) →
      written w.takes vs = .error o → Uncaught w a
  | unprintable {rules : List Rule} {ws : List Warning} : Finds w a rules ws →
      ¬ Printable w.takes (findings rules ws) → Uncaught w a

/-- A rule function interrupts the evaluation. -/
def Interrupted (w : Surroundings) (a : Arguments) : Prop :=
  ∃ f, Passes w a (.error (.raised f)) ∧ f.kind = .interrupt

/-- A check finds rule files that cannot be read, and can say which. -/
def Warned (w : Surroundings) (a : Arguments) : Prop :=
  ∃ rules ws, Finds w a rules ws ∧ ws ≠ [] ∧ Printable w.takes (findings rules ws)

variable {w : Surroundings} {a : Arguments}

theorem runWith_of_configure {f : Failure} (h : configure w a.options = .error f) :
    runWith w a = failed w.disk "" f := by
  unfold runWith
  rw [h]
  rfl

theorem runWith_of_level {c : Settings} {f : Failure} (hc : configure w a.options = .ok c)
    (hl : levelOf c = .error f) : runWith w a = failed w.disk "" f := by
  unfold runWith
  rw [bind_eq_error.2 (.inr ⟨c, hc, bind_eq_error.2 (.inl hl)⟩)]

theorem settings_and_level {c : Settings} {level : Log.Level}
    (hc : configure w a.options = .ok c) (hl : levelOf c = .ok level) :
    (do let c ← configure w a.options; return (c, ← levelOf c)) = .ok (c, level) :=
  bind_eq_ok.2 ⟨c, hc, bind_eq_ok.2 ⟨level, hl, rfl⟩⟩

theorem runWith_of_log {c : Settings} {level : Log.Level} {f : Failure}
    (hc : configure w a.options = .ok c) (hl : levelOf c = .ok level)
    (ho : openLog w.disk c = .error f) : runWith w a = failed w.disk "" f := by
  unfold runWith
  rw [settings_and_level hc hl]
  dsimp only
  rw [ho]

theorem runWith_of_failure {c : Settings} {level : Log.Level} {log : Log.Files} {f : Failure}
    (h : Prepared w a.options c level log) (hf : perform w log c level a.command = .error f) :
    runWith w a = failed log.disk "" f := by
  unfold runWith
  rw [settings_and_level h.settings h.level]
  dsimp only
  rw [h.log]
  dsimp only
  rw [hf]

theorem runWith_of_reply {c : Settings} {level : Log.Level} {log : Log.Files} {r : Reply}
    (h : Prepared w a.options c level log) (hr : perform w log c level a.command = .ok r) :
    runWith w a = deliver log r := by
  unfold runWith
  rw [settings_and_level h.settings h.level]
  dsimp only
  rw [h.log]
  dsimp only
  rw [hr]

theorem startEngine_eq_ok {d : Disk} {c : Settings} {level : Log.Level} {root : Path}
    {rules : List Rule} (hroot : Workspace.vaultOf d c = .ok root)
    (hrules : Workspace.configuredRules c = .ok rules) :
    startEngine d c level = .ok (root, .start rules level) := by
  unfold startEngine Workspace.start
  rw [hroot, hrules]
  rfl

theorem runWith_of_vault {c : Settings} {level : Log.Level} {log : Log.Files} {f : Workspace.Fault}
    (h : Prepared w a.options c level log) (hf : Workspace.vaultOf log.disk c = .error f) :
    runWith w a = failed log.disk "" (.ofWorkspace f) := by
  apply runWith_of_failure h
  unfold perform startEngine
  rw [hf]
  rfl

theorem runWith_of_rules {c : Settings} {level : Log.Level} {log : Log.Files} {root : Path}
    {f : Rule.Fault} (h : Prepared w a.options c level log)
    (hroot : Workspace.vaultOf log.disk c = .ok root)
    (hf : Workspace.configuredRules c = .error f) :
    runWith w a = failed log.disk "" (.ofWorkspace (.rules f)) := by
  apply runWith_of_failure h
  unfold perform startEngine Workspace.start
  rw [hroot, hf]
  rfl

theorem runWith_of_check {log : Log.Files} {h : Host} {e : Engine} (hb : Begun w a.options log h e)
    (hcommand : a.command = .check) : runWith w a = deliver log (check w.takes h e) := by
  cases hb with
  | intro hprepared hroot hrules =>
    apply runWith_of_reply hprepared
    rw [hcommand, perform, startEngine_eq_ok hroot hrules]
    rfl

theorem runWith_of_snapshot {log : Log.Files} {h : Host} {e : Engine} {file : String} {f : Failure}
    (hb : Begun w a.options log h e) (hcommand : a.command = .evaluate file)
    (hf : readSnapshot log.disk file = .error f) : runWith w a = failed log.disk "" f := by
  cases hb with
  | intro hprepared hroot hrules =>
    apply runWith_of_failure hprepared
    rw [hcommand, perform, startEngine_eq_ok hroot hrules]
    exact bind_eq_error.2 (.inr ⟨_, rfl, bind_eq_error.2 (.inl hf)⟩)

theorem runWith_of_evaluate {log : Log.Files} {h : Host} {e : Engine} {file : String} {s : Snapshot}
    (hb : Begun w a.options log h e) (hcommand : a.command = .evaluate file)
    (hs : readSnapshot log.disk file = .ok s) :
    runWith w a = deliver log (evaluate w.takes h e s) := by
  cases hb with
  | intro hprepared hroot hrules =>
    apply runWith_of_reply hprepared
    rw [hcommand, perform, startEngine_eq_ok hroot hrules]
    exact bind_eq_ok.2 ⟨_, rfl, bind_eq_ok.2 ⟨s, hs, rfl⟩⟩

theorem read_ordinary {d : Disk} {root : Path} {file : String} {f : Fault.Told}
    (h : Vault.read d root file = .error f) : f.kind.isOrdinary = true := by
  unfold Vault.read at h
  rcases bind_eq_error.1 h with h | ⟨content, -, h⟩
  · obtain ⟨g, -, rfl⟩ := mapError_eq_error.1 h
    cases g <;> rfl
  · unfold Vault.decode at h
    split at h <;> cases h
    rfl

theorem Begun.reports {o : Options} {log : Log.Files} {h : Host} {e : Engine}
    (hb : Begun w o log h e) : h.Reports := by
  cases hb with
  | intro =>
    intro records n path f hf
    obtain ⟨t, ht, rfl⟩ := mapError_eq_error.1 hf
    exact ⟨t, rfl, read_ordinary ht⟩

variable {takes : Char → Bool}

theorem print_of_printable {text : String} (h : Printable takes text) :
    print takes text = .ok (text ++ "\n") := by
  have hnone : (text.toList.find? fun c => !takes c) = none := by
    rw [List.find?_eq_none]
    intro c hc
    simp [h c hc]
  rw [print, hnone]

theorem print_of_not_printable {text : String} (h : ¬ Printable takes text) :
    ∃ c, print takes text = .error (.unprintable c) := by
  unfold print
  cases hfind : text.toList.find? fun c => !takes c with
  | some c => exact ⟨c, rfl⟩
  | none =>
    refine absurd (fun c hc => ?_) h
    simpa using List.find?_eq_none.1 hfind c hc

theorem print_eq_ok {text out : String} :
    print takes text = .ok out ↔ Printable takes text ∧ out = text ++ "\n" := by
  by_cases h : Printable takes text
  · rw [print_of_printable h, and_iff_right h, Except.ok.injEq, eq_comm]
  · obtain ⟨c, hc⟩ := print_of_not_printable h
    rw [hc]
    exact iff_of_false nofun fun hout => h hout.1

theorem checked_eq (e : Engine) (ws : List Warning) :
    checked takes e ws = (print takes (findings e.rules ws)).map
      fun out => ⟨if ws = [] then 0 else 1, out⟩ := by
  have hprinted (text : String) (n : Nat) : (do return ⟨n, ← print takes text⟩) =
      (print takes text).map fun out => Answer.mk n out := by
    cases print takes text <;> rfl
  unfold checked findings
  by_cases hws : ws = []
  · rw [hws, List.isEmpty_nil, if_pos rfl, if_pos rfl, if_pos rfl]
    exact hprinted _ 0
  · rw [if_neg (by simpa using hws), if_neg hws, if_neg hws, Notice.default_eq_listing hws]
    generalize Notice.listing ws = text
    exact hprinted text 1

theorem check_result {h : Host} {e : Engine} {ws : List Warning}
    (hws : (e.preloadRules h).2 = .ok ws) : (check takes h e).result =
      (print takes (findings e.rules ws)).map fun out => ⟨if ws = [] then 0 else 1, out⟩ := by
  have hrules : (e.preloadRules h).1.rules = e.rules := (Engine.preloadFiles_brings _ e).rules
  unfold check
  cases hp : e.preloadRules h with | mk e' result
  rw [hp] at hws hrules
  obtain rfl : result = .ok ws := hws
  have hchecked : checked takes e' ws = _ := checked_eq e' ws
  rw [show e'.rules = e.rules from hrules] at hchecked
  exact hchecked

theorem evaluate_result {h : Host} (hr : h.Reports) (e : Engine) (s : Snapshot) :
    (evaluate takes h e s).result =
      ((pass h e s).mapError Obstacle.stop >>= written takes) := by
  obtain ⟨ws, hws⟩ := Engine.preloadRules_reports hr e
  obtain ⟨text, htext⟩ := Notice.default_ok ws
  unfold evaluate pass
  cases hp : e.preloadRules h with | mk e' result
  rw [hp] at hws
  obtain rfl : result = .ok ws := hws
  have hmention : ∃ lines, mention ws = .ok lines := by
    unfold mention
    rw [htext]
    split
    · exact ⟨_, rfl⟩
    · exact ⟨_, rfl⟩
  obtain ⟨lines, hlines⟩ := hmention
  dsimp only
  unfold evaluateLoaded
  rw [hlines]

theorem written_error {vs : List Evaluation} {o : Obstacle} (h : written takes vs = .error o) :
    (∃ m, o = .stop (.misuse m)) ∨ ∃ c, o = .unprintable c := by
  unfold written at h
  rcases bind_eq_error.1 h with h | ⟨text, -, h⟩
  · obtain ⟨m, -, rfl⟩ := mapError_eq_error.1 h
    exact .inl ⟨m, rfl⟩
  · rcases bind_eq_error.1 h with h | ⟨out, -, h⟩
    · unfold print at h
      split at h <;> cases h
      exact .inr ⟨_, rfl⟩
    · cases h

def exitOf : Except Obstacle Answer → Exit
  | .ok answer => .code answer.code
  | .error o => (Failure.ofObstacle o).exit

theorem deliver_exit (log : Log.Files) (r : Reply) : (deliver log r).exit = exitOf r.result := by
  unfold deliver
  cases r.result <;> rfl

theorem readSnapshot_ok {d : Disk} {file : String} {s : Snapshot}
    (h : Snapshot.readFile d file = .ok s) : readSnapshot d file = .ok s := by
  unfold readSnapshot
  rw [h]
  rfl

theorem Passes.exit {result : Except Stop (List Evaluation)} (h : Passes w a result) :
    (runWith w a).exit = exitOf (result.mapError .stop >>= written w.takes) := by
  obtain ⟨log, h, e, file, s, hb, hcommand, hsnapshot, rfl⟩ := h
  rw [runWith_of_evaluate hb hcommand (readSnapshot_ok hsnapshot), deliver_exit,
    evaluate_result hb.reports]

theorem Passes.exit_ok {vs : List Evaluation} (h : Passes w a (.ok vs)) :
    (runWith w a).exit = exitOf (written w.takes vs) :=
  h.exit

theorem Passes.exit_error {stop : Stop} (h : Passes w a (.error stop)) :
    (runWith w a).exit = (Failure.ofObstacle (.stop stop)).exit :=
  h.exit

theorem Finds.exit {rules : List Rule} {ws : List Warning} (h : Finds w a rules ws) :
    (runWith w a).exit = exitOf ((print w.takes (findings rules ws)).map
      fun out => ⟨if ws = [] then 0 else 1, out⟩) := by
  obtain ⟨log, h, e, hb, hcommand, rfl, hws⟩ := h
  rw [runWith_of_check hb hcommand, deliver_exit, check_result hws]

theorem Told.ends {m : String} (h : Told w a m) : ∃ d, runWith w a = failed d "" (.told m) := by
  cases h with
  | @noFile name found hn hno =>
    have hfind : findConfig w.disk a.options.config.join =
        .error (.told ("Configuration file does not exist: " ++ name)) := by
      rw [findConfig_named hn]
      unfold nameFound
      split
      · next hg => cases hg
      · next content heq =>
        cases heq
        exact absurd rfl (hno content)
      · rfl
    exact ⟨_, runWith_of_configure (configure_eq_error.2 (.inl hfind))⟩
  | @settings name f hfind hstart hcode =>
    refine ⟨_, runWith_of_configure (configure_eq_error.2 (.inr ⟨name, _, hfind, hstart, ?_⟩))⟩
    exact if_pos hcode
  | @rules c level log root f hprepared hroot hf hwritable =>
    refine ⟨log.disk, ?_⟩
    rw [runWith_of_rules hprepared hroot hf, Failure.ofWorkspace, if_neg (by simp [hwritable])]
  | @snapshot log _ _ file message f hb hcommand hf hmessage =>
    refine ⟨log.disk, ?_⟩
    have hread : readSnapshot log.disk file = .error (.told m) := by
      unfold readSnapshot
      rw [hf, mapError_error, hmessage]
    exact runWith_of_snapshot hb hcommand hread

theorem openLog_error {d : Disk} {c : Settings} {f : Failure} (h : openLog d c = .error f) :
    ∃ e, f = .escaped e := by
  have hfile {name : String} {shown : String → String} (h : openLogFile d name shown = .error f) :
      ∃ e, f = .escaped e := by
    unfold openLogFile at h
    split at h <;> cases h
    exact ⟨_, rfl⟩
  unfold openLog at h
  split at h
  · cases h
  · exact hfile h
  · exact hfile h
  · cases h
    exact ⟨_, rfl⟩

theorem vaultOf_error {d : Disk} {c : Settings} {f : Workspace.Fault}
    (h : Workspace.vaultOf d c = .error f) : ∃ e, Failure.ofWorkspace f = .escaped e := by
  unfold Workspace.vaultOf at h
  split at h
  · split at h <;> cases h
    exact ⟨_, rfl⟩
  · cases h
    exact ⟨_, rfl⟩

theorem Uncaught.ends (h : Uncaught w a) : ∃ e, (runWith w a).exit = .escaped e := by
  cases h with
  | @name name f hn =>
    have hfind := findConfig_named hn
    rw [runWith_of_configure (configure_eq_error.2 (.inl hfind))]
    exact ⟨_, rfl⟩
  | @settings name f hfind hstart hcode =>
    have hf : ofStart (.file f) = .escaped (.settings f) := if_neg (by simp [hcode])
    rw [runWith_of_configure (configure_eq_error.2 (.inr ⟨name, _, hfind, hstart, hf⟩))]
    exact ⟨_, rfl⟩
  | @environment name f hfind hstart =>
    rw [runWith_of_configure (configure_eq_error.2 (.inr ⟨name, _, hfind, hstart, rfl⟩))]
    exact ⟨_, rfl⟩
  | @level c f hc hf =>
    rw [runWith_of_level hc (mapError_eq_error.2 ⟨f, hf, rfl⟩)]
    exact ⟨_, rfl⟩
  | log hc hl ho =>
    obtain ⟨e, rfl⟩ := openLog_error ho
    rw [runWith_of_log hc hl ho]
    exact ⟨e, rfl⟩
  | vault hprepared hf =>
    obtain ⟨e, he⟩ := vaultOf_error hf
    rw [runWith_of_vault hprepared hf, he]
    exact ⟨e, rfl⟩
  | rules hprepared hroot hf hunwritable =>
    rw [runWith_of_rules hprepared hroot hf, Failure.ofWorkspace, if_pos hunwritable]
    exact ⟨_, rfl⟩
  | @snapshot log _ _ file f hb hcommand hf hmessage =>
    have hread : readSnapshot log.disk file = .error (.escaped (.snapshot f)) := by
      unfold readSnapshot
      rw [hf, mapError_error, hmessage]
    rw [runWith_of_snapshot hb hcommand hread]
    exact ⟨_, rfl⟩
  | raised hp hk =>
    rw [hp.exit_error, Failure.ofObstacle, if_neg hk]
    exact ⟨_, rfl⟩
  | misuse hp =>
    rw [hp.exit_error]
    exact ⟨_, rfl⟩
  | untold hp ho =>
    rw [hp.exit_ok, ho]
    rcases written_error ho with ⟨m, rfl⟩ | ⟨c, rfl⟩ <;> exact ⟨_, rfl⟩
  | unprintable hf hprint =>
    obtain ⟨c, hc⟩ := print_of_not_printable hprint
    rw [hf.exit, hc]
    exact ⟨_, rfl⟩

theorem Interrupted.ends (h : Interrupted w a) : (runWith w a).exit = .code 130 := by
  obtain ⟨f, hp, hk⟩ := h
  rw [hp.exit_error, Failure.ofObstacle, if_pos hk]
  rfl

theorem Warned.ends (h : Warned w a) : (runWith w a).exit = .code 1 := by
  obtain ⟨rules, ws, hf, hne, hprint⟩ := h
  rw [hf.exit, print_of_printable hprint, Except.map, if_neg hne, exitOf]

theorem Told.exit {m : String} (h : Told w a m) : (runWith w a).exit = .code 1 := by
  obtain ⟨d, hd⟩ := h.ends
  rw [hd]
  rfl

def bare : Surroundings := ⟨⟨"", ⟨"/", []⟩, [], [], fun _ => none⟩, [],
  fun _ _ _ => .error (.told ⟨.exit, ""⟩),
    fun _ => true⟩

def spoilt : Surroundings :=
  ⟨⟨"", ⟨"/", []⟩, [(["s.yaml"], [0xff])], [], fun _ => none⟩, [],
    fun _ _ _ => .error (.told ⟨.exit, ""⟩),
    fun _ => true⟩

end NoteDecor.CommandLine
