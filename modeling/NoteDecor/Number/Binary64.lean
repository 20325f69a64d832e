/-!
Binary floating point numbers with 53 significant bits, kept as exact multiples of powers of two.
Every result is the exact quotient rounded once, halves to the even neighbour.
-/

namespace NoteDecor

/-- The number `± mantissa · 2 ^ exponent`, an infinity, or not a number. Arithmetic yields
mantissas below `2 ^ 53` at the least exponent from `-1074` up that holds them. -/
inductive Binary64 where
  | finite (negative : Bool) (mantissa : Nat) (exponent : Int)
  | infinite (negative : Bool)
  | nan
  deriving DecidableEq, Repr, Inhabited

namespace Binary64

def roundQuotient (num den : Nat) : Nat :=
  let q := num / den
  let r := num % den
  if 2 * r < den then q else if den < 2 * r then q + 1 else q + q % 2

def scaled (num den : Nat) (e : Int) : Nat × Nat :=
  if 0 ≤ e then (num, den * Nat.pow 2 e.toNat) else (num * Nat.pow 2 (-e).toNat, den)

def binaryOrder (num den : Nat) : Int :=
  let k : Int := (num.log2 : Int) - (den.log2 : Int)
  let (n, d) := scaled num den k
  if d ≤ n then k else k - 1

def ofRatio (negative : Bool) (num den : Nat) : Binary64 :=
  if num = 0 then .finite negative 0 (-1074)
  else
    let e := max (binaryOrder num den - 52) (-1074)
    let (n, d) := scaled num den e
    let m := roundQuotient n d
    let (m, e) := if m = Nat.pow 2 53 then (Nat.pow 2 52, e + 1) else (m, e)
    if 971 < e then .infinite negative else .finite negative m e

def ofIntRatio (num : Int) (den : Nat) : Binary64 := ofRatio (num < 0) num.natAbs den

def ofNat (n : Nat) : Binary64 := ofRatio false n 1

def ratio (mantissa : Nat) (exponent : Int) : Nat × Nat :=
  if 0 ≤ exponent then (mantissa * Nat.pow 2 exponent.toNat, 1)
  else (mantissa, Nat.pow 2 (-exponent).toNat)

def signed (negative : Bool) (n : Nat) : Int := if negative then -(n : Int) else n

def negate : Binary64 → Binary64
  | .finite s m e => .finite (!s) m e
  | .infinite s => .infinite (!s)
  | .nan => .nan

def add : Binary64 → Binary64 → Binary64
  | .finite s m e, .finite t n f =>
    let (a, c) := ratio m e
    let (b, d) := ratio n f
    ofIntRatio (signed s a * d + signed t b * c) (c * d)
  | .infinite s, .infinite t => if s = t then .infinite s else .nan
  | .nan, _ | _, .nan => .nan
  | .infinite s, _ | _, .infinite s => .infinite s

def isZero : Binary64 → Bool
  | .finite _ m _ => m == 0
  | _ => false

def isNegative : Binary64 → Bool
  | .finite s _ _ | .infinite s => s
  | .nan => false

def mul (x y : Binary64) : Binary64 :=
  let negative := x.isNegative != y.isNegative
  match x, y with
  | .finite _ m e, .finite _ n f =>
    let (a, c) := ratio m e
    let (b, d) := ratio n f
    ofRatio negative (a * b) (c * d)
  | .nan, _ | _, .nan => .nan
  | _, _ => if x.isZero || y.isZero then .nan else .infinite negative

def toInt? : Binary64 → Option Int
  | .finite s m e =>
    let (n, d) := ratio m e
    if n % d = 0 then some (signed s (n / d)) else none
  | _ => none

def equals : Binary64 → Binary64 → Bool
  | .finite s m e, .finite t n f =>
    let (a, c) := ratio m e
    let (b, d) := ratio n f
    signed s a * d == signed t b * c
  | .infinite s, .infinite t => s == t
  | _, _ => false

end Binary64

end NoteDecor
