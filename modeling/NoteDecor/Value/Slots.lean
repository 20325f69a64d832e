import NoteDecor.Value.Equal

/-!
The order in which a set yields its members: that of the slots of a table in which each member
took the first slot that was free on its own way through the table. Only numbers have a way of
their own that can be told; equal numbers have the same one.
-/

namespace NoteDecor.Value

def modulus : Nat := Nat.pow 2 61 - 1

def residue (m : Nat) (e : Int) : Nat := m * Nat.pow 2 (e % 61).toNat % modulus

def numberCode : Value → Int
  | bool b => if b then 1 else 0
  | int n => Binary64.signed (n < 0) (n.natAbs % modulus)
  | float (.finite s m e) => Binary64.signed s (residue m e)
  | float (.infinite s) => Binary64.signed s 314159
  | _ => 0

/-- The code in 64 bits, where a negative code counts from the end. -/
def code (v : Value) : Nat :=
  let n := v.numberCode
  ((if n = -1 then -2 else n) % Nat.pow 2 64).toNat

def slotCount (members : Nat) : Nat :=
  if members ≤ 4 then 8 else Nat.pow 2 ((2 * members).log2 + 1)

/-- The first free slot from a slot on. Ten slots in a row are tried where the table has them, and
otherwise one; the next try is where what is left of the code leads. -/
def freeSlot (taken : List Nat) (slots : Nat) : Nat → (code slot : Nat) → Nat
  | 0, _, slot => slot
  | fuel + 1, code, slot =>
    let row := (List.range (if slot + 9 < slots then 10 else 1)).map (slot + ·)
    match row.find? fun s => !taken.contains s with
    | some s => s
    | none =>
      let code := code / 32
      freeSlot taken slots fuel code ((slot * 5 + 1 + code) % slots)

def place (slots : Nat) (placed : List (Nat × Value)) (v : Value) : List (Nat × Value) :=
  let slot := freeSlot (placed.map (·.1)) slots (slots + 14) v.code (v.code % slots)
  placed.takeWhile (·.1 < slot) ++ (slot, v) :: placed.dropWhile (·.1 < slot)

def inSlotOrder (members : List Value) : List Value :=
  (members.foldl (place (slotCount members.length)) []).map (·.2)

example : (inSlotOrder [int 1, int 9, int 2]).map code = [1, 2, 9] ∧
    (inSlotOrder [int 3, int 8, int 1]).map code = [8, 1, 3] := by decide +kernel

end NoteDecor.Value
