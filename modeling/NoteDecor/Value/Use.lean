import NoteDecor.Value.Equal
import NoteDecor.Value.Text

/-!
Values used as lists and mappings by those who do not ask for their kind first.
-/

namespace NoteDecor

/-- A value used in a way that its kind does not allow, a list of pairs with one that is none, or a
number that is too long to be written. -/
inductive Misuse where
  | operand
  | member
  | pairLength (index length : Nat)
  | unwritable
  deriving DecidableEq, Repr

def Misuse.message : Misuse → String
  | .operand => "operation not supported"
  | .member => "no such member"
  | .pairLength i n =>
    s!"dictionary update sequence element #{i} has length {n}; 2 is required"
  | .unwritable => Numeral.unwritableMessage

namespace Value

def walk (v : Value) : Except Misuse (List Value) :=
  match v.walk? with
  | some vs => .ok vs
  | none => .error .operand

def putPairs (i : Nat) (es : Entries) : List Value → Except Misuse Entries
  | [] => .ok es
  | v :: vs => do
    match (← v.walk) with
    | [k, w] => if k.canBeKey then putPairs (i + 1) (es.put k w) vs else throw .operand
    | xs => throw (.pairLength i xs.length)

def toEntries (v : Value) : Except Misuse Entries :=
  match v.entries? with
  | some es => .ok es
  | none => do putPairs 0 [] (← v.walk)

end Value

end NoteDecor
