import NoteDecor.Text.Basic

/-!
Slash-separated paths in normal form: empty and `.` parts vanish, `..` stays. A path that starts
with exactly two slashes has a root of its own.
-/

namespace NoteDecor

structure Path where
  root : String
  parts : List String
  deriving DecidableEq, Repr, Inhabited

namespace Path

def rootOf (s : List Char) : String :=
  match s with
  | '/' :: '/' :: '/' :: _ => "/"
  | '/' :: '/' :: _ => "//"
  | '/' :: _ => "/"
  | _ => ""

def ofString (s : String) : Path :=
  ⟨rootOf s.toList, (Text.splitText '/' s).filter fun p => p != "" && p != "."⟩

def text (p : Path) : String :=
  if p.root = "" ∧ p.parts = [] then "." else p.root ++ Text.joinText "/" p.parts

def isAbsolute (p : Path) : Bool := p.root != ""

def join (p q : Path) : Path := if q.isAbsolute then q else ⟨p.root, p.parts ++ q.parts⟩

def name (p : Path) : String := p.parts.getLast?.getD ""

/-- The name without its last extension. A point that starts or ends the name begins none. -/
def stem (p : Path) : String :=
  let cs := p.name.toList
  let tail := cs.reverse.takeWhile (· != '.')
  let start := (cs.reverse.drop (tail.length + 1)).reverse
  if tail.isEmpty || start.isEmpty then p.name else String.ofList start

example : (ofString "a//./b.tar.gz").stem = "b.tar" ∧ (ofString ".hidden").stem = ".hidden" ∧
    (ofString "..foo").stem = "." ∧ (ofString "foo..").stem = "foo.." := by decide +kernel

end Path

end NoteDecor
