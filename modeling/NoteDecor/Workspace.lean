import NoteDecor.Engine.Preloading
import NoteDecor.Rule.Settings
import NoteDecor.Settings.File
import NoteDecor.Vault

/-!
Settings with those who watch them: listeners by name, and the engine, which takes over the rules
whenever they change. A change takes effect first and is then told to each watcher in turn; one
that raises ends the telling.
-/

namespace NoteDecor

inductive Watcher where
  | engine
  | listener (name : String) (raises : Bool)
  deriving DecidableEq, Repr

/-- `events` are the calls of listeners with the merged settings that they were told. -/
structure Workspace where
  settings : Settings
  watchers : List Watcher
  engine : Engine
  events : List (String × Value)

namespace Workspace

inductive Fault where
  | path (f : Settings.PathFault)
  | file (f : Settings.FileFault)
  | rules (f : Rule.Fault)
  | listener (name : String)
  | vault
  | noHome
  | stop (s : Stop)
  deriving Repr

def rulesOf (merged : Entries) : Except Settings.PathFault Value :=
  match ((merged.field? Settings.root).getD (.map [])).entries? with
  | some es => .ok ((es.field? "rules").getD .null)
  | none => .error .noMembers

/-- The engine takes over the rules of changed settings. An invalid rule list is ignored, but not a
number that is too long to be written. -/
def follow (h : Host) (e : Engine) (merged : Entries) : Engine × Except Fault Unit :=
  match rulesOf merged with
  | .error f => (e, .error (.path f))
  | .ok v =>
    match Rule.listOfValue v with
    | .error f =>
      if f.isUnwritable then (e, .error (.rules f))
      else (e.note .error "Ignoring invalid rule settings" [("error", .text f.message)], .ok ())
    | .ok rules =>
      match e.updateRules h rules with
      | (e, .ok _) => (e, .ok ())
      | (e, .error stop) => (e, .error (.stop stop))

def tell (h : Host) (merged : Entries) (w : Workspace) : Watcher → Workspace × Except Fault Unit
  | .engine =>
    let (engine, result) := follow h w.engine merged
    ({ w with engine }, result)
  | .listener name raises =>
    ({ w with events := w.events ++ [(name, .map merged)] },
      if raises then .error (.listener name) else .ok ())

def tellEach (h : Host) (merged : Entries) :
    List Watcher → Workspace → Workspace × Except Fault Unit
  | [], w => (w, .ok ())
  | x :: xs, w =>
    match w.tell h merged x with
    | (w, .error f) => (w, .error f)
    | (w, .ok ()) => tellEach h merged xs w

def notify (h : Host) (w : Workspace) : Workspace × Except Fault Unit :=
  match w.settings.layers.all with
  | .error f => (w, .error (.path f))
  | .ok merged => tellEach h merged w.watchers w

def set (h : Host) (w : Workspace) (key : String) (v : Value) (s : Settings.Source) :
    Workspace × Except Fault Unit :=
  match w.settings.put key v s with
  | .error f => (w, .error (.path f))
  | .ok settings => { w with settings }.notify h

def replace (h : Host) (w : Workspace) (v : Value) (s : Settings.Source) :
    Workspace × Except Fault Unit :=
  let settings := { w.settings with layers := w.settings.layers.set s v }
  { w with settings }.notify h

def loadFile (w : Workspace) (d : Disk) (path : String) (s : Settings.Source) :
    Workspace × Except Fault Unit :=
  match w.settings.loadFile d path s with
  | .error f => (w, .error (.file f))
  | .ok settings => ({ w with settings }, .ok ())

def reload (h : Host) (w : Workspace) (d : Disk) : Workspace × Except Fault Unit :=
  match w.settings.reloadFiles d with
  | (settings, .error f) => ({ w with settings }, .error (.file f))
  | (settings, .ok ()) => { w with settings }.notify h

def watch (w : Workspace) (x : Watcher) : Workspace := { w with watchers := w.watchers ++ [x] }

/-- Ends one watch. Watching twice takes ending twice. -/
def unwatch (w : Workspace) (x : Watcher) : Workspace := { w with watchers := w.watchers.erase x }

def configuredRules (c : Settings) : Except Rule.Fault (List Rule) :=
  Rule.listOfValue (c.get "fmdecorator.rules" (.list []))

def vaultOf (d : Disk) (c : Settings) : Except Fault Path :=
  match c.get "fmdecorator.vault" (.text ".") with
  | .text s =>
    match Vault.locate? d s with
    | some root => .ok root
    | none => .error .noHome
  | _ => .error .vault

def loadsApart (c : Settings) : Bool :=
  (c.get "fmdecorator.loader.background" (.bool true)).isTrue

def start (c : Settings) (threshold : Log.Level) : Except Fault Workspace := do
  let rules ← (configuredRules c).mapError .rules
  return ⟨c, [.engine], .start rules threshold, []⟩

end Workspace

end NoteDecor
