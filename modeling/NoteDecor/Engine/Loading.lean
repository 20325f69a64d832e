import NoteDecor.Engine.Basic

/-!
Bringing rule files into the cache: on demand, by force, or in the background.
-/

namespace NoteDecor.Engine

def read (h : Host) (e : Engine) (path : String) : Engine × Except Stop String :=
  let e' := { e with reads := e.reads ++ [path] }
  match h.read e.journal.records e.reads.length path with
  | .ok source => (e', .ok source)
  | .error f => (e', .error (.ofReading path f))

def keep (e : Engine) (path source note : String) : Engine :=
  { e with cache := e.cache.store path source }.note .debug note
    [("file_path", .text path), ("size", .int source.length)]

/-- Reads a file and replaces what the cache holds for it. -/
def preload (h : Host) (e : Engine) (path : String) : Engine × Except Stop String :=
  match e.read h path with
  | (e, .ok source) => (e.keep path source "Rule file preloaded", .ok source)
  | (e, .error s) => (e, .error s)

/-- Reads a file unless the cache holds it. -/
def load (h : Host) (e : Engine) (path : String) : Engine × Except Stop String :=
  let found := e.cache.find? path
  let e := { e with cache := e.cache.count path }
  match found with
  | some source => (e, .ok source)
  | none =>
    match e.read h path with
    | (e, .ok source) => (e.keep path source "Rule file cached", .ok source)
    | (e, .error s) => (e, .error s)

/-- A background load. That a file cannot be read is only noted. -/
def runJob (h : Host) (e : Engine) (path : String) : Engine × Except Stop Unit :=
  match e.load h path with
  | (e, .ok _) => (e, .ok ())
  | (e, .error (.load f)) =>
    (e.note .error "Background load failed"
      [("file_path", .text path), ("error", .text f.detail)], .ok ())
  | (e, .error s) => (e, .error s)

def runApart (h : Host) (e : Engine) (path : String) : Engine :=
  let contexts := e.journal.contexts
  let (e, _) := { e with journal := { e.journal with contexts := [] } }.runJob h path
  { e with journal := { e.journal with contexts } }

def loadInBackground (h : Host) (e : Engine) (path : String) : Engine × Except Stop Unit :=
  match h.schedule with
  | .queued => ({ e with jobs := e.jobs ++ [path] }, .ok ())
  | .inline => e.runJob h path
  | .apart => (e.runApart h path, .ok ())

def runNext (h : Host) (e : Engine) : Engine × Except Stop Unit :=
  match e.jobs with
  | [] => (e, .ok ())
  | path :: jobs => { e with jobs }.runJob h path

def runPending (h : Host) : Nat → Engine → Engine × Except Stop Nat
  | 0, e => (e, .ok 0)
  | n + 1, e =>
    if e.jobs.isEmpty then (e, .ok 0)
    else match e.runNext h with
      | (e, .error s) => (e, .error s)
      | (e, .ok ()) =>
        match runPending h n e with
        | (e, .ok k) => (e, .ok (k + 1))
        | (e, .error s) => (e, .error s)

end NoteDecor.Engine
