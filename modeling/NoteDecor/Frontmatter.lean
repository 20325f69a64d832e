import NoteDecor.Value.Equal
import NoteDecor.Value.Text

/-!
Comparing frontmatter. Scalars are compared by their text, a list stands for any one of its
scalars, and of several keys the first with a common text decides.
-/

namespace NoteDecor

/-- The text by which a scalar is compared: truth values in small letters, and whole numbers
without a fraction. Nothing else but texts, numbers, days and moments has one. -/
def Value.comparable? : Value → Option String
  | bool b => some (if b then "true" else "false")
  | int n => some (toString n)
  | float x => some (match x.toInt? with
    | some n => toString n
    | none => Binary64.plain.text x)
  | text s => some s
  | date d => some d.iso
  | moment m => some (m.iso "T")
  | _ => none

namespace Frontmatter

structure Criterion where
  items : List String
  isList : Bool
  deriving DecidableEq, Repr

def Criterion.of? (v : Value) : Option Criterion :=
  match v.items? with
  | some vs => some ⟨vs.filterMap Value.comparable?, true⟩
  | none => v.comparable?.map fun s => ⟨[s], false⟩

def Criterion.meets (a b : Criterion) : Bool := a.items.any fun s => b.items.any fun t => s == t

def meets (wanted found : Value) : Bool :=
  match Criterion.of? wanted, Criterion.of? found with
  | some a, some b => a.meets b
  | _, _ => false

/-- Numbers that are too long to be written cannot be compared, alone or in a list. -/
def canCompare (v : Value) : Bool :=
  match v.items? with
  | some vs => vs.all fun w => w.comparable?.isNone || w.isWritable
  | none => v.comparable?.isNone || v.isWritable

/-- Whether the search for a key stops at an entry, and whether what stops it there is a value, on
either side, that cannot be compared. -/
def obstructs? (actual : Entries) (e : Value × Value) : Option Bool :=
  (actual.get? e.1).bind fun found =>
    if !(canCompare e.2 && canCompare found) then some true
    else if meets e.2 found then some false else none

def isObstructed (expected actual : Entries) : Bool :=
  (expected.findSome? (obstructs? actual)).getD false

def firstMatchingKey (expected actual : Entries) : Option Value :=
  (expected.find? fun e => (actual.get? e.1).any (meets e.2)).map (·.1)

example : firstMatchingKey [(.text "a", .int 1), (.text "b", .list [.text "true"])]
    [(.text "b", .bool true)] |>.isSome := by decide +kernel

end Frontmatter

end NoteDecor
