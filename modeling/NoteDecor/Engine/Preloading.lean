import NoteDecor.Engine.Loading

/-!
Reading the files of all function rules before the first pass, and of rules that come in later. A
file that cannot be read costs its own rule a warning and the others nothing.
-/

namespace NoteDecor

/-- A rule whose file could not be read. -/
structure Warning where
  ruleName : String
  filePath : String
  error : String
  deriving DecidableEq, Repr, Inhabited

def Warning.message (w : Warning) : String :=
  "Failed to load rule file for \"" ++ w.ruleName ++ "\": " ++ w.filePath

namespace Engine

def warn (e : Engine) (w : Warning) : Engine :=
  e.note .error w.message [("error", .text w.error)]

def preloadEach (h : Host) : List (Rule × String) → Engine → Engine × Except Stop (List Warning)
  | [], e => (e, .ok [])
  | (r, path) :: rest, e =>
    match e.preload h path with
    | (e, .ok _) => preloadEach h rest e
    | (e, .error (.load f)) =>
      let w : Warning := ⟨r.name, path, f.detail⟩
      match preloadEach h rest (e.warn w) with
      | (e, .ok ws) => (e, .ok (w :: ws))
      | (e, .error stop) => (e, .error stop)
    | (e, .error stop) => (e, .error stop)

def preloadFiles (h : Host) (files : List (Rule × String)) (e : Engine) :
    Engine × Except Stop (List Warning) :=
  match preloadEach h files e with
  | (e, .error stop) => (e, .error stop)
  | (e, .ok ws) => (e.note .info "Rule files preloaded"
      [("loaded", .int (files.length - ws.length)), ("failed", .int ws.length)], .ok ws)

def preloadRules (h : Host) (e : Engine) : Engine × Except Stop (List Warning) :=
  preloadFiles h (functionRules e.rules) e

/-- The files of enabled rules that no enabled rule used before. -/
def newFiles (old new : List Rule) : List (Rule × String) :=
  let known := (functionRules old).map (·.2)
  (functionRules new).filter fun f => !known.contains f.2

def updateRules (h : Host) (e : Engine) (rules : List Rule) :
    Engine × Except Stop (List Warning) :=
  preloadFiles h (newFiles e.rules rules) { e with rules }

end Engine

end NoteDecor
