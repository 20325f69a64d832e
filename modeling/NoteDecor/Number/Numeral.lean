import NoteDecor.Number.Binary64
import NoteDecor.Text.Basic

/-!
Reading whole and decimal numbers from text. Digits of every script count, one underscore may
stand between two digits, and space around the number is ignored.
-/

namespace NoteDecor.Numeral

def scriptZeros : List Nat :=
    [48, 1632, 1776, 1984, 2406, 2534, 2662, 2790, 2918, 3046, 3174, 3302, 3430, 3558, 3664, 3792,
    3872, 4160, 4240, 6112, 6160, 6470, 6608, 6784, 6800, 6992, 7088, 7232, 7248, 42528, 43216,
    43264, 43472, 43504, 43600, 44016, 65296, 66720, 68912, 69734, 69872, 69942, 70096, 70384,
    70736, 70864, 71248, 71360, 71472, 71904, 72016, 72784, 73040, 73120, 92768, 92864, 93008,
    120782, 120792, 120802, 120812, 120822, 123200, 123632, 125264, 130032]

def decimalDigit? (c : Char) : Option Nat :=
  (scriptZeros.find? fun z => z ≤ c.toNat && c.toNat < z + 10).map (c.toNat - ·)

def letterDigit? (c : Char) : Option Nat :=
  if 'a' ≤ c ∧ c ≤ 'z' then some (c.toNat - 87)
  else if 'A' ≤ c ∧ c ≤ 'Z' then some (c.toNat - 55) else none

def digit? (base : Nat) (c : Char) : Option Nat :=
  ((decimalDigit? c).or (letterDigit? c)).filter (· < base)

/-- The digits up to the first other character, and what follows from there. An underscore has to
stand between two digits. -/
def digits (base : Nat) : (afterDigit : Bool) → List Char → Option (List Nat × List Char)
  | afterDigit, [] => if afterDigit then some ([], []) else none
  | afterDigit, c :: r =>
    if c = '_' then if afterDigit then digits base false r else none
    else match digit? base c with
      | some d => (digits base true r).map fun p => (d :: p.1, p.2)
      | none => if afterDigit then some ([], c :: r) else none

def ofDigits (base : Nat) (ds : List Nat) : Nat := ds.foldl (fun n d => n * base + d) 0

inductive Fault where
  | malformed
  | tooLong (digits : Nat)
  deriving DecidableEq, Repr

/-- Decimal numerals beyond this length are neither read nor written. -/
def decimalLimit : Nat := 4300

def sign (s : List Char) : Bool × List Char :=
  match s with
  | '-' :: r => (true, r)
  | '+' :: r => (false, r)
  | _ => (false, s)

def dropBaseMark (base : Nat) (s : List Char) : List Char :=
  match s with
  | z :: m :: r =>
    if decimalDigit? z = some 0 ∧ ((base = 2 ∧ m.toLower = 'b') ∨ (base = 8 ∧ m.toLower = 'o') ∨
      (base = 16 ∧ m.toLower = 'x'))
    then match r with
      | '_' :: r' => r'
      | _ => r
    else s
  | _ => s

def isSpace (c : Char) : Bool := Text.isBlank c && (c.toNat < 28 || 32 ≤ c.toNat)

/-- Whether a number has no more decimal digits than may be read or written. -/
def isWritable (n : Int) : Bool := n.natAbs < Nat.pow 10 decimalLimit

def tooLongMessage : String := "Exceeds the limit (4300 digits) for integer string conversion"

def limitHint : String := "; use sys.set_int_max_str_digits() to increase the limit"

def unwritableMessage : String := tooLongMessage ++ limitHint

/-- Digits are counted before what follows them is looked at. -/
def readInt (base : Nat) (s : List Char) : Except Fault Int :=
  let (negative, body) := sign (Text.strip isSpace s)
  match digits base false (dropBaseMark base body) with
  | none => .error .malformed
  | some (ds, rest) =>
    if base = 10 ∧ decimalLimit < ds.length then .error (.tooLong ds.length)
    else if rest.isEmpty then .ok (Binary64.signed negative (ofDigits base ds))
    else .error .malformed

def decimal (negative : Bool) (n : Nat) (e : Int) : Binary64 :=
  let order : Int := (Nat.toDigits 10 n).length + e
  if n = 0 then .ofRatio negative 0 1
  else if 400 < order then .infinite negative
  else if order < -400 then .ofRatio negative 0 1
  else if 0 ≤ e then .ofRatio negative (n * Nat.pow 10 e.toNat) 1
  else .ofRatio negative n (Nat.pow 10 (-e).toNat)

def spanDigits : List Char → List Nat × List Char
  | [] => ([], [])
  | c :: r =>
    match decimalDigit? c with
    | some d => let (ds, rest) := spanDigits r; (d :: ds, rest)
    | none => ([], c :: r)

def readExponent (s : List Char) : Option Int :=
  match s with
  | [] => some 0
  | c :: r =>
    if c = 'e' ∨ c = 'E' then
      let (negative, body) := sign r
      let (ds, rest) := spanDigits body
      if ds.isEmpty ∨ ¬ rest.isEmpty then none else some (Binary64.signed negative (ofDigits 10 ds))
    else none

def readDecimal (s : List Char) : Option Binary64 :=
  let (negative, body) := sign (Text.strip isSpace s)
  let word := String.ofList (body.map Char.toLower)
  if word = "inf" ∨ word = "infinity" then some (.infinite negative)
  else if word = "nan" then some .nan
  else
    let (whole, rest) := spanDigits body
    let (fraction, rest) := match rest with
      | '.' :: r => spanDigits r
      | _ => ([], rest)
    if whole.isEmpty ∧ fraction.isEmpty then none
    else (readExponent rest).map fun e =>
      decimal negative (ofDigits 10 (whole ++ fraction)) (e - fraction.length)

example : (readInt 10 " -1_0 ".toList).toOption = some (-10) ∧
    (readInt 16 "0x_f".toList).toOption = some 15 ∧
    (readInt 10 "1__0".toList).toOption = none := by decide +kernel

end NoteDecor.Numeral
