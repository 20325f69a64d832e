import NoteDecor.Proofs.Engine.Faithful

/-! New rules in place of the old ones. The files that come in with them are read, and no others, in
the order of the rules; of each there is then a text in the cache that has just been read, or a
warning. -/

namespace NoteDecor.Engine

open Reading

variable {h : Host}

/-- What the reader answers next if it is asked for a file. -/
def answer (h : Host) (e : Engine) (path : String) : Except Fault String :=
  h.read e.journal.records e.reads.length path

def asked? : Except Fault String → Option Fault
  | .error (.mute _ asked) => some asked
  | _ => none

def tried (h : Host) (e : Engine) (file : Rule × String) : Engine :=
  let e' := { e with reads := e.reads ++ [file.2] }
  match e.answer h file.2 with
  | .ok source => e'.keep file.2 source "Rule file preloaded"
  | .error (.told f) => e'.warn ⟨file.1.name, file.2, f.text⟩
  | .error (.mute ..) => e'

def answers (h : Host) : List (Rule × String) → Engine → List (Except Fault String)
  | [], _ => []
  | file :: rest, e => e.answer h file.2 ::
    if (asked? (e.answer h file.2)).isSome then [] else answers h rest (e.tried h file)

def told (x : (Rule × String) × Except Fault String) : List Warning :=
  match x.2 with
  | .error (.told f) => [⟨x.1.1.name, x.1.2, f.text⟩]
  | _ => []

def brought (x : (Rule × String) × Except Fault String) : List Reading :=
  match x.2 with
  | .ok source => [.preloaded x.1.2 source]
  | .error _ => []

def ending (xs : List ((Rule × String) × Except Fault String)) : Except Stop (List Warning) :=
  match xs.findSome? fun x => asked? x.2 with
  | some f => .error (.raised f)
  | none => .ok (xs.flatMap told)

variable {e e' : Engine} {xs : List ((Rule × String) × Except Fault String)} {path : String}

section Files

variable {files : List (Rule × String)} {as : List (Except Fault String)}

end Files

end NoteDecor.Engine
