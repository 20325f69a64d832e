import NoteDecor.Proofs.Log.Contexts

/-! Which logger is got by a name. Only one logger is current at a time, so that a name leads to the
logger that was installed for it last as long as none of another name was installed after that. Once
one was, the name is given to a new logger, and the level and the sinks of the name start anew. -/

namespace NoteDecor.Log.Registry

def run (r : Registry) (acts : List Act) : Registry := acts.foldl act r

def installed? (r : Registry) : Act → Option Nat
  | .getLogger name => some (r.getLogger name).2
  | .setCurrent logger => some logger
  | _ => none

def installs : List Act → Registry → List Nat
  | [], _ => []
  | a :: acts, r => (r.installed? a).toList ++ installs acts (r.act a)

def latest? (r : Registry) (name : String) (past : List Nat) : Option Nat :=
  (past.filter fun logger => r.nameOf logger = name).getLast?

variable {r r' r'' : Registry}

structure Stays (r r' : Registry) : Prop where
  current : r'.current = r.current
  loggers : r.loggers <+: r'.loggers

theorem Stays.of_same (hcurrent : r'.current = r.current) (hloggers : r'.loggers = r.loggers) :
    Stays r r' := ⟨hcurrent, hloggers ▸ List.prefix_rfl⟩

theorem Stays.trans (h : Stays r r') (h' : Stays r' r'') : Stays r r'' :=
  ⟨h'.current.trans h.current, h.loggers.trans h'.loggers⟩

theorem sinkNamed_stays (r : Registry) (name : String) : Stays r (r.sinkNamed name).1 := by
  unfold sinkNamed
  split <;> exact .of_same rfl rfl

theorem sinksNamed_stays (names : List String) (r : Registry) : Stays r (sinksNamed names r).1 := by
  induction names generalizing r with
  | nil => exact .of_same rfl rfl
  | cons name names ih => exact (sinkNamed_stays r name).trans (ih _)

theorem make_stays (r : Registry) (name : String) (level : Level) (sinks : Option (List String)) :
    Stays r (r.make name level sinks).1 := by
  have hadded (q : Registry) (c : Channel) : Stays q
      { q.setChannel name c with loggers := q.loggers ++ [name] } := ⟨rfl, List.prefix_append ..⟩
  cases sinks with
  | none =>
    have hsink : Stays r (r.addSink .console).1 := .of_same rfl rfl
    exact hsink.trans (hadded _ _)
  | some names => exact (sinksNamed_stays names r).trans (hadded _ _)

theorem foldl_deliver_stays (channel : String) (record : Record) (sinks : List Sink)
    (r : Registry) : Stays r (sinks.foldl (deliver channel record) r) := by
  induction sinks generalizing r with
  | nil => exact .of_same rfl rfl
  | cons sink sinks ih =>
    have hone : Stays r (deliver channel record r sink) := by
      cases sink <;> exact .of_same rfl rfl
    exact hone.trans (ih _)

theorem emit_stays (r : Registry) (logger : Nat) (record : Record) :
    Stays r (r.emit logger record) := by
  unfold emit
  split
  · unfold send
    dsimp only
    split
    · unfold deliverBare
      split <;> exact .of_same rfl rfl
    · exact foldl_deliver_stays ..
  · exact .of_same rfl rfl

theorem record_stays {a : Act} {x : Nat × Record} (hr : a.record? r.contexts = some x) :
    Stays r (r.act a) := by
  cases h : r.perform a with
  | error f =>
    rw [act_of_error h]
    exact .of_same rfl rfl
  | ok r' =>
    obtain ⟨-, rfl⟩ := perform_record hr h
    rw [act_of_ok h]
    exact emit_stays ..

theorem openFile_stays (r : Registry) (path : String) (limit backups : Int) :
    Stays r (r.act (.openFile path limit backups)) := by
  cases h : r.perform (.openFile path limit backups) with
  | error f =>
    rw [act_of_error h]
    exact .of_same rfl rfl
  | ok r' =>
    obtain ⟨got, hgot, rfl⟩ := map_eq_ok.1 h
    rw [act_of_ok h]
    unfold openFile at hgot
    split at hgot <;> cases hgot
    exact .of_same rfl rfl

structure Renews (r : Registry) (name : String) (got : Registry × Nat) : Prop where
  number : got.2 = r.loggers.length
  loggers : got.1.loggers = r.loggers ++ [name]
  current : got.1.current = some got.2
  channel : got.1.channel name = ⟨.info, [r.sinks.length]⟩
  sinks : got.1.sinks = r.sinks ++ [.console]
  others : ∀ other, channelName other ≠ channelName name →
    got.1.channel other = r.channel other

theorem channel_setChannel_self (r : Registry) (name : String) (c : Channel) :
    (r.setChannel name c).channel name = c := by
  simp [channel, setChannel]

theorem channel_setChannel_of_ne {other name : String}
    (h : channelName other ≠ channelName name) (r : Registry) (c : Channel) :
    (r.setChannel name c).channel other = r.channel other := by
  have hfind : (r.channels.filter fun e => e.1 != channelName name).find?
      (fun e => e.1 == channelName other) =
      r.channels.find? fun e => e.1 == channelName other := by
    rw [List.find?_filter]
    congr 1
    funext e
    by_cases he : e.1 = channelName other
    · simp [he, h]
    · simp [he]
  have hhead : (channelName name == channelName other) = false := beq_false_of_ne (Ne.symm h)
  unfold channel setChannel
  rw [List.find?_cons_of_neg (by simp [hhead]), hfind]

theorem getLogger_of_current {logger : Nat} {name : String} (hc : r.current = some logger)
    (hname : r.nameOf logger = name) : r.getLogger name = (r, logger) := by
  unfold getLogger
  rw [hc]
  exact if_pos hname

theorem getLogger_of_other {name : String}
    (h : ∀ logger, r.current = some logger → r.nameOf logger ≠ name) :
    r.getLogger name =
      ((r.make name .info none).1.setCurrent (r.make name .info none).2,
        (r.make name .info none).2) := by
  unfold getLogger
  cases hc : r.current with
  | none => rfl
  | some logger => exact if_neg (h logger hc)

theorem getLogger_renews {name : String}
    (h : ∀ logger, r.current = some logger → r.nameOf logger ≠ name) :
    Renews r name (r.getLogger name) := by
  rw [getLogger_of_other h]
  exact ⟨rfl, rfl, rfl, channel_setChannel_self .., rfl,
    fun other hother => channel_setChannel_of_ne hother (r.addSink .console).1 _⟩

theorem getLogger_cases (r : Registry) (name : String) :
    (∃ logger, r.current = some logger ∧ r.nameOf logger = name) ∨
    ∀ logger, r.current = some logger → r.nameOf logger ≠ name := by
  cases hc : r.current with
  | none => exact .inr nofun
  | some logger =>
    by_cases hname : r.nameOf logger = name
    · exact .inl ⟨logger, rfl, hname⟩
    · refine .inr ?_
      rintro _ ⟨⟩
      exact hname

theorem getLogger_installs (r : Registry) (name : String) :
    (r.getLogger name).1.current = some (r.getLogger name).2 ∧
    r.loggers <+: (r.getLogger name).1.loggers := by
  rcases getLogger_cases r name with ⟨logger, hc, hname⟩ | hother
  · rw [getLogger_of_current hc hname]
    exact ⟨hc, List.prefix_rfl⟩
  · have hnew := getLogger_renews hother
    exact ⟨hnew.current, hnew.loggers ▸ List.prefix_append ..⟩

theorem act_current (r : Registry) (a : Act) :
    (r.act a).current = (r.installed? a).or r.current ∧ r.loggers <+: (r.act a).loggers := by
  have hstays (h : Stays r (r.act a)) (hnone : r.installed? a = none) :
      (r.act a).current = (r.installed? a).or r.current ∧ r.loggers <+: (r.act a).loggers := by
    rw [hnone, Option.none_or]
    exact ⟨h.current, h.loggers⟩
  cases a with
  | getLogger name => exact getLogger_installs r name
  | setCurrent logger => exact ⟨rfl, List.prefix_rfl⟩
  | enter | leave | setLevel | attach | detach => exact hstays (.of_same rfl rfl) rfl
  | make name level sinks => exact hstays (make_stays r name level sinks) rfl
  | log | logApart => exact hstays (record_stays rfl) rfl
  | logException logger message f own =>
    cases f with
    | told f => exact hstays (record_stays rfl) rfl
    | mute kind asked => exact hstays (.of_same rfl rfl) rfl
  | openFile path limit backups => exact hstays (openFile_stays r path limit backups) rfl

theorem run_current (r : Registry) (acts : List Act) :
    (r.run acts).current = (installs acts r).getLast?.or r.current := by
  induction acts generalizing r with
  | nil => rfl
  | cons a acts ih =>
    have hrun : r.run (a :: acts) = (r.act a).run acts := rfl
    rw [hrun, ih, (act_current r a).1, installs, List.getLast?_append, Option.or_assoc]
    cases r.installed? a <;> rfl

theorem run_loggers (r : Registry) (acts : List Act) : r.loggers <+: (r.run acts).loggers := by
  induction acts generalizing r with
  | nil => exact List.prefix_rfl
  | cons a acts ih => exact (act_current r a).2.trans (ih (r.act a))

theorem run_nameOf (r : Registry) (acts : List Act) {logger : Nat}
    (h : logger < r.loggers.length) : (r.run acts).nameOf logger = r.nameOf logger := by
  obtain ⟨more, hmore⟩ := run_loggers r acts
  unfold nameOf
  rw [← hmore, List.getElem?_append_left h]

/-- After any acts a name leads to the logger that was installed last, if it has that name, and then
nothing is changed. If it has not, the name leads to a new logger with nothing but a console, whatever
was installed for the name before. So of a name the logger that was installed last is got exactly as
long as no logger of another name has been installed after it. -/
theorem getLogger_gets_iff (disk : Disk) (acts : List Act) (name : String) :
    let r := (start disk).run acts
    let past := installs acts (start disk)
    (∀ logger, past.getLast? = some logger → r.nameOf logger = name →
      r.getLogger name = (r, logger)) ∧
    ((∀ logger, past.getLast? = some logger → r.nameOf logger ≠ name) →
      Renews r name (r.getLogger name)) ∧
    (∀ logger, r.latest? name past = some logger → logger < r.loggers.length →
      ((r.getLogger name).2 = logger ↔ past.getLast? = some logger)) ∧
    ∀ more logger, logger < r.loggers.length → (r.run more).nameOf logger = r.nameOf logger := by
  intro r past
  -- the logger in use is the one that was installed last
  have hcurrent : r.current = past.getLast? := by
    have hrun := run_current (start disk) acts
    rwa [show (start disk).current = none from rfl, Option.or_none] at hrun
  have hgot (logger : Nat) (hlast : past.getLast? = some logger) (hname : r.nameOf logger = name) :
      r.getLogger name = (r, logger) := getLogger_of_current (hcurrent.trans hlast) hname
  have hnew (hother : ∀ logger, past.getLast? = some logger → r.nameOf logger ≠ name) :
      Renews r name (r.getLogger name) := getLogger_renews (hcurrent ▸ hother)
  refine ⟨hgot, hnew, fun logger hlatest hmade => ⟨fun hsame => ?_, fun hlast => ?_⟩,
    fun more logger hmade => run_nameOf r more hmade⟩
  · rcases getLogger_cases r name with ⟨last, hc, hname⟩ | hother
    · rw [getLogger_of_current hc hname] at hsame
      rw [← hcurrent, hc, ← hsame]
    · -- a new logger has a number of its own
      have hnumber := (getLogger_renews hother).number
      omega
  · have hname : r.nameOf logger = name := by
      have hmem := List.mem_of_getLast? hlatest
      simpa using (List.mem_filter.1 hmem).2
    rw [hgot logger hlast hname]

def otherBetween : List Act := [.getLogger "app", .setLevel 0 .error, .getLogger "other"]

theorem getLogger_forgets :
    let r := (start default).run otherBetween
    let past := installs otherBetween (start default)
    r.latest? "app" past = some 0 ∧ (r.getLogger "app").2 ≠ 0 ∧
    r.channel "app" = ⟨.error, [0]⟩ ∧ (r.getLogger "app").1.channel "app" = ⟨.info, [2]⟩ := by
  exact ⟨rfl, by decide, rfl, rfl⟩

end NoteDecor.Log.Registry
