import NoteDecor.Log.Registry
import NoteDecor.Proofs.Log.Merging
import NoteDecor.Proofs.Steps

/-! The contexts that records carry while several threads log. Loggers, levels and sinks are shared
by all threads, and contexts are not: what is open on a thread follows from what that thread entered
and left. -/

namespace NoteDecor.Log

/-- What can be done with loggers. -/
inductive Act where
  | enter (c : Context)
  | leave
  | log (logger : Nat) (level : Level) (message : String) (own : Context)
  | logException (logger : Nat) (message : String) (f : Fault) (own : Context)
  | logApart (logger : Nat) (level : Level) (message : String) (own : Context)
  | make (name : String) (level : Level) (sinks : Option (List String))
  | getLogger (name : String)
  | setCurrent (logger : Nat)
  | setLevel (logger : Nat) (level : Level)
  | attach (logger sink : Nat)
  | detach (logger sink : Nat)
  | openFile (path : String) (limit backups : Int)

namespace Registry

def perform (r : Registry) : Act → Except Fault Registry
  | .enter c => .ok (r.enter c)
  | .leave => .ok r.leave
  | .log logger level message own => r.log logger level message own false
  | .logException logger message f own => r.logException logger message f own
  | .logApart logger level message own => r.logApart logger level message own
  | .make name level sinks => .ok (r.make name level sinks).1
  | .getLogger name => .ok (r.getLogger name).1
  | .setCurrent logger => .ok (r.setCurrent logger)
  | .setLevel logger level => .ok (r.setLevel logger level)
  | .attach logger sink => .ok (r.attach logger sink)
  | .detach logger sink => .ok (r.detach logger sink)
  | .openFile path limit backups => (r.openFile path limit backups).map Prod.fst

def act (r : Registry) (a : Act) : Registry :=
  match r.perform a with
  | .ok r => r
  | .error _ => r

def emit (r : Registry) (logger : Nat) (record : Record) : Registry :=
  if r.isEnabled logger record.level then r.send (r.nameOf logger) record else r

def Obstructed (r : Registry) (logger : Nat) (record : Record) : Prop :=
  r.isEnabled logger record.level = true ∧ record.context.isWritable = false

end Registry

structure Threads where
  registry : Registry
  opened : Nat → List Context

namespace Threads

def start (r : Registry) : Threads := ⟨r, fun _ => []⟩

def perform (s : Threads) (t : Nat) (a : Act) : Except Registry.Fault Threads :=
  ({ s.registry with contexts := s.opened t }.perform a).map fun (r : Registry) =>
    ⟨{ r with contexts := s.registry.contexts },
      fun u => if u = t then r.contexts else s.opened u⟩

def act (s : Threads) (t : Nat) (a : Act) : Threads :=
  match s.perform t a with
  | .ok s => s
  | .error _ => s

def run (s : Threads) (ops : List (Nat × Act)) : Threads :=
  ops.foldl (fun s op => s.act op.1 op.2) s

end Threads

def openStep (opened : List Context) : Act → List Context
  | .enter c => opened ++ [c]
  | .leave => opened.dropLast
  | _ => opened

def openAfter (opened : List Context) (acts : List Act) : List Context := acts.foldl openStep opened

def actsOf (t : Nat) (ops : List (Nat × Act)) : List Act :=
  (ops.filter fun op => op.1 = t).map Prod.snd

def openOn (t : Nat) (ops : List (Nat × Act)) : List Context := openAfter [] (actsOf t ops)

def Record.under (opened : List Context) (level : Level) (message : String) (own : Context)
    (exception : Bool) : Record :=
  let context := Context.collected (opened.flatten ++ own)
  let pairs := context.map fun e => e.1 ++ "=" ++ e.2.display
  ⟨level, if context.isEmpty then message else message ++ " | " ++ Text.joinText " " pairs, context,
    exception⟩

def Act.record? (opened : List Context) : Act → Option (Nat × Record)
  | .log logger level message own => some (logger, .under opened level message own false)
  | .logException logger message (.told f) own =>
    some (logger, .under opened .error message (exceptionContext own f.kind.name f.text) true)
  | .logApart logger level message own => some (logger, .under [] level message own false)
  | _ => none

def Act.asked? : Act → Option Fault
  | .logException _ _ (.mute _ asked) _ => some asked
  | _ => none

def Act.written? (opened : List Context) (a : Act) : Option Record :=
  ((a.record? opened).map Prod.snd).filter fun record => record.context.isWritable

def Logged (ops : List (Nat × Act)) (record : Record) : Prop :=
  ∃ before t a after logger, ops = before ++ (t, a) :: after ∧
    a.record? (openOn t before) = some (logger, record) ∧ record.context.isWritable = true

def Act.turns : Act → Bool
  | .enter _ | .leave => true
  | _ => false

inductive Nested : List Act → Prop where
  | nil : Nested []
  | cons {a : Act} {acts : List Act} : a.turns = false → Nested acts → Nested (a :: acts)
  | within {c : Context} {inner acts : List Act} : Nested inner → Nested acts →
      Nested (.enter c :: inner ++ .leave :: acts)

theorem openStep_of_not_turns {a : Act} (ha : a.turns = false) (opened : List Context) :
    openStep opened a = opened := by
  cases a <;> first | rfl | cases ha

theorem openAfter_nested {acts : List Act} (h : Nested acts) (opened : List Context) :
    openAfter opened acts = opened := by
  induction h generalizing opened with
  | nil => rfl
  | cons ha _ ih =>
    rw [openAfter, List.foldl_cons, openStep_of_not_turns ha]
    exact ih opened
  | @within c inner acts _ _ hinner hacts =>
    have hentered := hinner (opened ++ [c])
    unfold openAfter at hentered hacts ⊢
    rw [List.foldl_append, List.foldl_cons, List.foldl_cons]
    change acts.foldl openStep (inner.foldl openStep (opened ++ [c])).dropLast = opened
    rw [hentered, List.dropLast_concat, hacts]

theorem Record.make_eq_under (level : Level) (message : String) (opened : List Context)
    (own : Context) (exception : Bool) :
    Record.make level message opened own exception =
      .under opened level message own exception := by
  unfold Record.make Record.under
  rw [Context.merge_extend]
  rfl

example : (Record.under [[("a", .text "1"), ("b", .text "2")], [("a", .text "3")]] .info "m"
    [("c", .text "4")] false).message = "m | a=3 b=2 c=4" := by
  decide +kernel

namespace Registry

structure Keeps (r r' : Registry) : Prop where
  contexts : r'.contexts = r.contexts
  received : r'.received = r.received
  console : r'.console = r.console

variable {r r' r'' : Registry}

theorem Keeps.trans (h : Keeps r r') (h' : Keeps r' r'') : Keeps r r'' :=
  ⟨h'.contexts.trans h.contexts, h'.received.trans h.received, h'.console.trans h.console⟩

theorem sinkNamed_keeps (r : Registry) (name : String) : Keeps r (r.sinkNamed name).1 := by
  unfold sinkNamed
  split <;> exact ⟨rfl, rfl, rfl⟩

theorem sinksNamed_keeps (names : List String) (r : Registry) :
    Keeps r (sinksNamed names r).1 := by
  induction names generalizing r with
  | nil => exact ⟨rfl, rfl, rfl⟩
  | cons name names ih => exact (sinkNamed_keeps r name).trans (ih _)

theorem make_keeps (r : Registry) (name : String) (level : Level) (sinks : Option (List String)) :
    Keeps r (r.make name level sinks).1 := by
  cases sinks with
  | none => exact ⟨rfl, rfl, rfl⟩
  | some names => exact (sinksNamed_keeps names r).trans ⟨rfl, rfl, rfl⟩

theorem getLogger_keeps (r : Registry) (name : String) : Keeps r (r.getLogger name).1 := by
  have hmade : Keeps r ((r.make name .info none).1.setCurrent (r.make name .info none).2) :=
    (make_keeps r name .info none).trans ⟨rfl, rfl, rfl⟩
  unfold getLogger
  split
  · split
    · exact ⟨rfl, rfl, rfl⟩
    · exact hmade
  · exact hmade

theorem openFile_keeps {path : String} {limit backups : Int}
    (h : r.perform (.openFile path limit backups) = .ok r') : Keeps r r' := by
  obtain ⟨got, hgot, rfl⟩ := map_eq_ok.1 h
  unfold openFile at hgot
  split at hgot <;> cases hgot
  exact ⟨rfl, rfl, rfl⟩

theorem deliver_withContexts (channel : String) (record : Record) (c : List Context) (r : Registry)
    (sink : Sink) : deliver channel record { r with contexts := c } sink =
      { deliver channel record r sink with contexts := c } := by
  cases sink <;> rfl

theorem foldl_deliver_withContexts (channel : String) (record : Record) (c : List Context)
    (sinks : List Sink) (r : Registry) :
    sinks.foldl (deliver channel record) { r with contexts := c } =
      { sinks.foldl (deliver channel record) r with contexts := c } := by
  induction sinks generalizing r with
  | nil => rfl
  | cons sink sinks ih => rw [List.foldl_cons, List.foldl_cons, deliver_withContexts, ih]

theorem send_withContexts (r : Registry) (name : String) (record : Record) (c : List Context) :
    send { r with contexts := c } name record = { r.send name record with contexts := c } := by
  unfold send
  dsimp only [channel]
  split
  · unfold deliverBare
    split <;> rfl
  · exact foldl_deliver_withContexts ..

theorem emit_withContexts (r : Registry) (logger : Nat) (record : Record) (c : List Context) :
    emit { r with contexts := c } logger record =
      { r.emit logger record with contexts := c } := by
  unfold emit
  split
  · next h => rw [if_pos (by exact h)]; exact send_withContexts ..
  · next h => rw [if_neg (by exact h)]

theorem log_of_not_obstructed {logger : Nat} {level : Level} {message : String} {own : Context}
    {exception : Bool}
    (h : ¬ r.Obstructed logger (.under r.contexts level message own exception)) :
    r.log logger level message own exception =
      .ok (r.emit logger (.under r.contexts level message own exception)) := by
  unfold log emit
  rw [Record.make_eq_under]
  have hlevel : (Record.under r.contexts level message own exception).level = level := rfl
  rw [hlevel]
  by_cases henabled : r.isEnabled logger level = true
  · have hwritable := eq_true_of_ne_false fun hw => h ⟨henabled, hw⟩
    rw [if_pos henabled, if_pos henabled, if_pos hwritable]
  · rw [if_neg henabled, if_neg henabled]

theorem log_of_obstructed {logger : Nat} {level : Level} {message : String} {own : Context}
    {exception : Bool}
    (h : r.Obstructed logger (.under r.contexts level message own exception)) :
    r.log logger level message own exception = .error .unwritable := by
  obtain ⟨henabled, hwritable⟩ := h
  have hlevel : r.isEnabled logger level = true := henabled
  unfold log
  rw [Record.make_eq_under, if_pos hlevel]
  exact if_neg (by simp [hwritable])

theorem perform_of_not_obstructed {a : Act} {logger : Nat} {record : Record}
    (hr : a.record? r.contexts = some (logger, record)) (h : ¬ r.Obstructed logger record) :
    r.perform a = .ok (r.emit logger record) := by
  cases a with
  | log logger level message own =>
    cases hr
    exact log_of_not_obstructed h
  | logException logger message f own =>
    cases f with
    | told f =>
      cases hr
      exact log_of_not_obstructed h
    | mute kind asked => cases hr
  | logApart logger level message own =>
    cases hr
    have hlogged := log_of_not_obstructed (r := { r with contexts := [] }) h
    rw [perform, logApart, hlogged, emit_withContexts]
    exact congrArg Except.ok (emit_withContexts r logger _ r.contexts).symm
  | _ => cases hr

theorem perform_of_obstructed {a : Act} {logger : Nat} {record : Record}
    (hr : a.record? r.contexts = some (logger, record)) (h : r.Obstructed logger record) :
    r.perform a = .error .unwritable := by
  cases a with
  | log logger level message own =>
    cases hr
    exact log_of_obstructed h
  | logException logger message f own =>
    cases f with
    | told f =>
      cases hr
      exact log_of_obstructed h
    | mute kind asked => cases hr
  | logApart logger level message own =>
    cases hr
    have hlogged := log_of_obstructed (r := { r with contexts := [] }) h
    rw [perform, logApart, hlogged]
    rfl
  | _ => cases hr

theorem perform_of_asked {a : Act} {f : NoteDecor.Fault} (h : a.asked? = some f) :
    r.perform a = .error (.asked f) := by
  cases a with
  | logException logger message g own =>
    cases g with
    | told g => cases h
    | mute kind asked =>
      cases h
      rfl
  | _ => cases h

structure Tells (said : Option Record) (r r' : Registry) : Prop where
  received : ∀ x ∈ r'.received, x ∈ r.received ∨ x.2 ∈ said
  console : ∀ line ∈ r'.console, line ∈ r.console ∨
    ∃ record ∈ said, ∃ start, line = record.lineFrom start

variable {said : Option Record}

theorem Tells.of_same (hreceived : r'.received = r.received) (hconsole : r'.console = r.console) :
    Tells said r r' :=
  ⟨fun _ hx => .inl (hreceived ▸ hx), fun _ hl => .inl (hconsole ▸ hl)⟩

theorem Keeps.tells (h : Keeps r r') : Tells said r r' := .of_same h.received h.console

theorem Tells.withContexts {c : List Context} (h : Tells said { r with contexts := c } r')
    (c' : List Context) : Tells said r { r' with contexts := c' } :=
  ⟨h.received, h.console⟩

theorem Tells.trans (h : Tells said r r') (h' : Tells said r' r'') : Tells said r r'' where
  received x hx := (h'.received x hx).elim (h.received x) .inr
  console line hl := (h'.console line hl).elim (h.console line) .inr

theorem tells_recorder (r : Registry) (name : String) (record : Record) :
    Tells (some record) r { r with received := r.received ++ [(name, record)] } where
  received x hx := by
    rcases List.mem_append.1 hx with hx | hx
    · exact .inl hx
    · exact .inr (List.mem_singleton.1 hx ▸ rfl)
  console _ hl := .inl hl

theorem tells_console (r : Registry) (record : Record) (start : String) :
    Tells (some record) r { r with console := r.console ++ [record.lineFrom start] } where
  received _ hx := .inl hx
  console line hl := by
    rcases List.mem_append.1 hl with hl | hl
    · exact .inl hl
    · exact .inr ⟨record, rfl, start, List.mem_singleton.1 hl⟩

theorem deliver_tells (channel : String) (record : Record) (r : Registry) (sink : Sink) :
    Tells (some record) r (deliver channel record r sink) := by
  cases sink with
  | recorder name => exact tells_recorder r name record
  | console => exact tells_console r record _
  | file n => exact .of_same rfl rfl

theorem foldl_deliver_tells (channel : String) (record : Record) (sinks : List Sink)
    (r : Registry) : Tells (some record) r (sinks.foldl (deliver channel record) r) := by
  induction sinks generalizing r with
  | nil => exact .of_same rfl rfl
  | cons sink sinks ih => exact (deliver_tells channel record r sink).trans (ih _)

theorem send_tells (r : Registry) (name : String) (record : Record) :
    Tells (some record) r (r.send name record) := by
  unfold send
  dsimp only
  split
  · unfold deliverBare
    split
    · exact tells_console r record ""
    · exact .of_same rfl rfl
  · exact foldl_deliver_tells ..

theorem emit_tells (r : Registry) (logger : Nat) (record : Record) :
    Tells (some record) r (r.emit logger record) := by
  unfold emit
  split
  · exact send_tells ..
  · exact .of_same rfl rfl

theorem emit_contexts (r : Registry) (logger : Nat) (record : Record) :
    (r.emit logger record).contexts = r.contexts := by
  have hsame := congrArg Registry.contexts (emit_withContexts r logger record r.contexts)
  exact hsame

theorem act_of_error {a : Act} {f : Fault} (h : r.perform a = .error f) : r.act a = r := by
  rw [act, h]

theorem act_of_ok {a : Act} (h : r.perform a = .ok r') : r.act a = r' := by
  rw [act, h]

theorem perform_record {a : Act} {logger : Nat} {record : Record}
    (hr : a.record? r.contexts = some (logger, record)) (h : r.perform a = .ok r') :
    ¬ r.Obstructed logger record ∧ r' = r.emit logger record := by
  by_cases ho : r.Obstructed logger record
  · cases (perform_of_obstructed hr ho).symm.trans h
  · cases (perform_of_not_obstructed hr ho).symm.trans h
    exact ⟨ho, rfl⟩

theorem perform_contexts {a : Act} (h : r.perform a = .ok r') :
    r'.contexts = openStep r.contexts a := by
  have hlogged {a : Act} {x : Nat × Record} (hr : a.record? r.contexts = some x)
      (h : r.perform a = .ok r') : r'.contexts = r.contexts := by
    obtain ⟨-, rfl⟩ := perform_record hr h
    exact emit_contexts ..
  cases a with
  | enter | leave | setCurrent | setLevel | attach | detach =>
    cases h
    rfl
  | log | logApart => exact hlogged rfl h
  | logException logger message f own =>
    cases f with
    | told f => exact hlogged rfl h
    | mute kind asked => cases h
  | make name level sinks =>
    cases h
    exact (make_keeps r name level sinks).contexts
  | getLogger name =>
    cases h
    exact (getLogger_keeps r name).contexts
  | openFile path limit backups => exact (openFile_keeps h).contexts

theorem openStep_of_error {a : Act} {f : Fault} (h : r.perform a = .error f)
    (opened : List Context) : openStep opened a = opened := by
  cases a with
  | enter | leave => cases h
  | _ => rfl

theorem emit_tells_written {logger : Nat} {record : Record} (h : ¬ r.Obstructed logger record) :
    Tells ((some record).filter fun x => x.context.isWritable) r (r.emit logger record) := by
  by_cases henabled : r.isEnabled logger record.level = true
  · have hwritable := eq_true_of_ne_false fun hw => h ⟨henabled, hw⟩
    rw [Option.filter_some, if_pos hwritable]
    exact emit_tells r logger record
  · rw [emit, if_neg henabled]
    exact .of_same rfl rfl

theorem perform_tells {a : Act} (h : r.perform a = .ok r') :
    Tells (a.written? r.contexts) r r' := by
  cases hr : a.record? r.contexts with
  | some x =>
    obtain ⟨ho, rfl⟩ := perform_record hr h
    rw [Act.written?, hr]
    exact emit_tells_written ho
  | none =>
    cases a with
    | log | logApart => cases hr
    | logException logger message f own =>
      cases f with
      | told f => cases hr
      | mute kind asked => cases h
    | make name level sinks =>
      cases h
      exact (make_keeps r name level sinks).tells
    | getLogger name =>
      cases h
      exact (getLogger_keeps r name).tells
    | openFile path limit backups => exact (openFile_keeps h).tells
    | _ =>
      cases h
      exact .of_same rfl rfl

end Registry

namespace Threads

theorem run_concat (s : Threads) (ops : List (Nat × Act)) (t : Nat) (a : Act) :
    s.run (ops ++ [(t, a)]) = (s.run ops).act t a := by
  rw [run, List.foldl_append]
  rfl

variable {s s' : Threads} {t : Nat} {a : Act}

theorem act_of_error {f : Registry.Fault} (h : s.perform t a = .error f) : s.act t a = s := by
  rw [act, h]

theorem perform_eq_ok (h : s.perform t a = .ok s') :
    ∃ r, { s.registry with contexts := s.opened t }.perform a = .ok r ∧
      s' = ⟨{ r with contexts := s.registry.contexts },
        fun u => if u = t then r.contexts else s.opened u⟩ := by
  obtain ⟨r, hr, rfl⟩ := map_eq_ok.1 h
  exact ⟨r, hr, rfl⟩

theorem act_opened (s : Threads) (t u : Nat) (a : Act) :
    (s.act t a).opened u = if u = t then openStep (s.opened u) a else s.opened u := by
  cases h : s.perform t a with
  | error f =>
    rw [act_of_error h, Registry.openStep_of_error (map_eq_error.1 h), ite_self]
  | ok s' =>
    obtain ⟨r, hr, rfl⟩ := perform_eq_ok h
    rw [act, h]
    dsimp only
    rw [Registry.perform_contexts hr]
    split
    · next hu => rw [hu]
    · rfl

theorem run_opened (s : Threads) (ops : List (Nat × Act)) (t : Nat) :
    (s.run ops).opened t = openAfter (s.opened t) (actsOf t ops) := by
  induction ops generalizing s with
  | nil => rfl
  | cons op ops ih =>
    have hrest := ih (s.act op.1 op.2)
    rw [act_opened] at hrest
    rw [run, List.foldl_cons]
    refine hrest.trans ?_
    by_cases ht : op.1 = t
    · rw [if_pos ht.symm, actsOf, actsOf, List.filter_cons_of_pos (by simpa using ht)]
      rfl
    · rw [if_neg (Ne.symm ht), actsOf, actsOf, List.filter_cons_of_neg (by simpa using ht)]

theorem perform_of_not_obstructed {logger : Nat} {record : Record}
    (hr : a.record? (s.opened t) = some (logger, record))
    (h : ¬ s.registry.Obstructed logger record) :
    ∃ s', s.perform t a = .ok s' ∧ s'.registry = s.registry.emit logger record := by
  have hemit := Registry.perform_of_not_obstructed
    (r := { s.registry with contexts := s.opened t }) hr h
  refine ⟨_, congrArg (Except.map _) hemit, ?_⟩
  dsimp only
  rw [Registry.emit_withContexts]
  exact (Registry.emit_withContexts s.registry logger record s.registry.contexts).symm

theorem perform_of_obstructed {logger : Nat} {record : Record}
    (hr : a.record? (s.opened t) = some (logger, record))
    (h : s.registry.Obstructed logger record) : s.perform t a = .error .unwritable :=
  map_eq_error.2
    (Registry.perform_of_obstructed (r := { s.registry with contexts := s.opened t }) hr h)

theorem act_tells (s : Threads) (t : Nat) (a : Act) :
    Registry.Tells (a.written? (s.opened t)) s.registry (s.act t a).registry := by
  cases h : s.perform t a with
  | error f =>
    rw [act_of_error h]
    exact .of_same rfl rfl
  | ok s' =>
    obtain ⟨r, hr, rfl⟩ := perform_eq_ok h
    rw [act, h]
    exact (Registry.perform_tells hr).withContexts _

end Threads

theorem Logged.append {ops : List (Nat × Act)} {record : Record} (h : Logged ops record)
    (more : List (Nat × Act)) : Logged (ops ++ more) record := by
  obtain ⟨before, t, a, after, logger, rfl, hr⟩ := h
  exact ⟨before, t, a, after ++ more, logger, by rw [List.append_assoc, List.cons_append], hr⟩

namespace Threads

theorem start_opened (r : Registry) (ops : List (Nat × Act)) (t : Nat) :
    ((start r).run ops).opened t = openOn t ops := run_opened (start r) ops t

theorem run_tells (r : Registry) (ops : List (Nat × Act)) :
    (∀ x ∈ ((start r).run ops).registry.received, x ∈ r.received ∨ Logged ops x.2) ∧
    ∀ line ∈ ((start r).run ops).registry.console, line ∈ r.console ∨
      ∃ record, Logged ops record ∧ ∃ start, line = record.lineFrom start := by
  induction ops using List.reverseRecOn with
  | nil => exact ⟨fun _ hx => .inl hx, fun _ hl => .inl hl⟩
  | append_singleton ops op ih =>
    obtain ⟨t, a⟩ := op
    have htold := act_tells ((start r).run ops) t a
    rw [start_opened] at htold
    -- a record that is new is that of the last act
    have hlast (record : Record) (hr : record ∈ a.written? (openOn t ops)) :
        Logged (ops ++ [(t, a)]) record := by
      obtain ⟨hmade, hwritable⟩ := Option.filter_eq_some_iff.1 hr
      obtain ⟨x, hx, rfl⟩ := Option.map_eq_some_iff.1 hmade
      exact ⟨ops, t, a, [], x.1, rfl, hx, hwritable⟩
    rw [run_concat]
    refine ⟨fun x hx => ?_, fun line hl => ?_⟩
    · rcases htold.received x hx with hx | hx
      · exact (ih.1 x hx).imp_right fun h => h.append _
      · exact .inr (hlast x.2 hx)
    · rcases htold.console line hl with hl | ⟨record, hr, hline⟩
      · exact (ih.2 line hl).imp_right fun ⟨record, h, hline⟩ => ⟨record, h.append _, hline⟩
      · exact .inr ⟨record, hlast record hr, hline⟩

/-- After any acts of any threads the open contexts of a thread are those that it entered and did not
leave, none if it is new. A call makes its record under these, and what is shared goes on as if that
record were sent by itself: to the sinks of its logger, or to none where the level keeps it back. Only
a record whose context cannot be written makes the call raise, as does an exception that has no text,
and what raises changes nothing. So every record that was received is that of some call under the
contexts that were open on its thread by then, and so is every line on the console. Acts that leave
what they enter end where they began. -/
theorem run_records (r : Registry) (ops : List (Nat × Act)) :
    let s := (start r).run ops
    (∀ t, s.opened t = openOn t ops) ∧
    (∀ t, (∀ op ∈ ops, op.1 ≠ t) → s.opened t = []) ∧
    (∀ t a logger record, a.record? (openOn t ops) = some (logger, record) →
      (¬ s.registry.Obstructed logger record →
        ∃ s', s.perform t a = .ok s' ∧ s'.registry = s.registry.emit logger record) ∧
      (s.registry.Obstructed logger record → s.perform t a = .error .unwritable)) ∧
    (∀ t a f, a.asked? = some f → s.perform t a = .error (.asked f)) ∧
    (∀ t a f, s.perform t a = .error f → s.act t a = s) ∧
    (∀ x ∈ s.registry.received, x ∈ r.received ∨ Logged ops x.2) ∧
    (∀ line ∈ s.registry.console, line ∈ r.console ∨
      ∃ record, Logged ops record ∧ ∃ start, line = record.lineFrom start) ∧
    ∀ t more, Nested (actsOf t more) → (s.run more).opened t = s.opened t := by
  intro s
  have hopened (t : Nat) : s.opened t = openOn t ops := start_opened r ops t
  obtain ⟨hreceived, hconsole⟩ := run_tells r ops
  refine ⟨hopened, fun t hnew => ?_, fun t a logger record hr => ?_,
    fun t a f hf => map_eq_error.2 (Registry.perform_of_asked hf), fun t a f => act_of_error,
    hreceived, hconsole, fun t more hn => ?_⟩
  · have hnone : actsOf t ops = [] := by
      rw [actsOf, List.filter_eq_nil_iff.2 (by simpa using hnew), List.map_nil]
    rw [hopened, openOn, hnone]
    rfl
  · rw [← hopened] at hr
    exact ⟨perform_of_not_obstructed hr, perform_of_obstructed hr⟩
  · rw [run_opened, openAfter_nested hn]

end Threads

end NoteDecor.Log
