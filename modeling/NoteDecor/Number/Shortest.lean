import NoteDecor.Number.Binary64

/-!
The shortest decimal that reads back as a given number, and the layout of its digits.
-/

namespace NoteDecor.Binary64

def digitCount (n : Nat) : Nat := (Nat.toDigits 10 n).length

def decimalOrder (num den : Nat) : Int :=
  if den ≤ num then (digitCount (num / den) : Int) - 1 else -(digitCount ((den - 1) / num) : Int)

/-- The decimal grid `10 ^ p` seen from `m · 2 ^ e`: one step of the grid and a quarter of `2 ^ e`
in a common unit. -/
structure Grid where
  step : Nat
  quarter : Nat

def Grid.of (e p : Int) : Grid :=
  ⟨4 * Nat.pow 10 p.toNat * Nat.pow 2 (-e).toNat, Nat.pow 2 e.toNat * Nat.pow 10 (-p).toNat⟩

/-- The multiple `c` of the step rounds to `m · 2 ^ e`. The ends of the interval do so for even
`m`. -/
def Grid.readsBack (g : Grid) (m : Nat) (e : Int) (c : Nat) : Bool :=
  let below := if m = Nat.pow 2 52 ∧ -1074 < e then 4 * m - 1 else 4 * m - 2
  let lo := below * g.quarter
  let hi := (4 * m + 2) * g.quarter
  if m % 2 = 0 then lo ≤ c * g.step && c * g.step ≤ hi else lo < c * g.step && c * g.step < hi

/-- The neighbours of `m · 2 ^ e` on the grid that read back, the nearer one first. -/
def onGrid (m : Nat) (e p : Int) : Option (Nat × Int) :=
  let g := Grid.of e p
  let exact := 4 * m * g.quarter
  let a := exact / g.step
  let nearer := roundQuotient exact g.step
  let farther := if nearer = a then a + 1 else a
  if g.readsBack m e nearer then some (nearer, p)
  else if g.readsBack m e farther then some (farther, p) else none

def shortest (m : Nat) (e : Int) : Nat × Int :=
  let (n, d) := ratio m e
  let k := decimalOrder n d
  ((List.range 17).findSome? fun i : Nat => onGrid m e (k - (i : Int))).getD (m, 0)

/-- Where digits are written without an exponent, and how short an exponent may be. -/
structure Layout where
  leastOrder : Int
  orderLimit : Int
  exponentDigits : Nat
  infinity : String
  notANumber : String

def zeros (n : Int) : List Char := List.replicate n.toNat '0'

def trimZeros (ds : List Char) : List Char := (ds.reverse.dropWhile (· == '0')).reverse

def exponentText (width : Nat) (k : Int) : List Char :=
  let ds := Nat.toDigits 10 k.natAbs
  'e' :: (if k < 0 then '-' else '+') :: (List.replicate (width - ds.length) '0' ++ ds)

/-- The digits `ds` with the point after the first `point` of them; whole numbers keep one zero
after the point. -/
def Layout.write (l : Layout) (ds : List Char) (point : Int) : List Char :=
  if l.leastOrder ≤ point - 1 ∧ point - 1 < l.orderLimit then
    if point ≤ 0 then '0' :: '.' :: (zeros (-point) ++ ds)
    else if (ds.length : Int) ≤ point then ds ++ zeros (point - ds.length) ++ ['.', '0']
    else ds.take point.toNat ++ '.' :: ds.drop point.toNat
  else
    let tail := ds.drop 1
    ds.take 1 ++ (if tail.isEmpty then [] else '.' :: tail) ++
      exponentText l.exponentDigits (point - 1)

def Layout.text (l : Layout) : Binary64 → String
  | .nan => l.notANumber
  | .infinite s => (if s then "-" else "") ++ l.infinity
  | .finite s m e =>
    let sign := if s then ['-'] else []
    if m = 0 then String.ofList (sign ++ ['0', '.', '0'])
    else
      let (n, p) := shortest m e
      let ds := Nat.toDigits 10 n
      String.ofList (sign ++ l.write (trimZeros ds) (ds.length + p))

def plain : Layout := ⟨-4, 16, 2, "inf", "nan"⟩

example : plain.text (ofRatio false 1 10) = "0.1" ∧ plain.text (ofRatio true 1 3) =
    "-0.3333333333333333" ∧ plain.text (ofRatio false 1 (10 ^ 5)) = "1e-05" := by decide +kernel

example : plain.text (ofRatio false 5 (10 ^ 324)) = "5e-324" ∧
    plain.text (ofRatio false (10 ^ 16) 1) = "1e+16" ∧
    plain.text (ofRatio false 123456789 1) = "123456789.0" := by decide +kernel

end NoteDecor.Binary64
