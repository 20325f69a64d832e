import NoteDecor.Text.Quoted

/-!
Reading text from octets in UTF-8. The first octet of a character says how many follow and what
the second one may be; the first fault ends the reading.
-/

namespace NoteDecor.Text.Utf8

inductive Reason where
  | start
  | continuation
  | truncated
  deriving DecidableEq, Repr

/-- The octets from `start` up to but without `stop` are no part of a text. -/
structure Fault where
  first : UInt8
  start : Nat
  stop : Nat
  reason : Reason
  deriving DecidableEq, Repr

def Reason.text : Reason → String
  | start => "invalid start byte"
  | continuation => "invalid continuation byte"
  | truncated => "unexpected end of data"

def Fault.message (f : Fault) : String :=
  let place := if f.stop = f.start + 1 then
      "byte 0x" ++ String.ofList (hexDigits f.first.toNat 2) ++ s!" in position {f.start}"
    else s!"bytes in position {f.start}-{f.stop - 1}"
  "'utf-8' codec can't decode " ++ place ++ ": " ++ f.reason.text

/-- A character that is not complete: the octets still owed, the bounds of the next one, and the
bits so far. -/
structure Pending where
  first : UInt8
  start : Nat
  owed : Nat
  low : Nat
  high : Nat
  bits : Nat

/-- What a first octet calls for: octets to come, bounds of the next one, and its own bits. -/
def lead? (b : Nat) : Option (Nat × Nat × Nat × Nat) :=
  if b < 0xC2 then none
  else if b < 0xE0 then some (1, 0x80, 0xBF, b - 0xC0)
  else if b < 0xF0 then
    some (2, if b = 0xE0 then 0xA0 else 0x80, if b = 0xED then 0x9F else 0xBF, b - 0xE0)
  else if b < 0xF5 then
    some (3, if b = 0xF0 then 0x90 else 0x80, if b = 0xF4 then 0x8F else 0xBF, b - 0xF0)
  else none

def decodeFrom : Option Pending → Nat → List UInt8 → Except Fault (List Char)
  | none, _, [] => .ok []
  | some p, i, [] => .error ⟨p.first, p.start, i, .truncated⟩
  | none, i, b :: r =>
    if b < 0x80 then return Char.ofNat b.toNat :: (← decodeFrom none (i + 1) r)
    else match lead? b.toNat with
      | none => .error ⟨b, i, i + 1, .start⟩
      | some (owed, low, high, bits) => decodeFrom (some ⟨b, i, owed, low, high, bits⟩) (i + 1) r
  | some p, i, b :: r =>
    if p.low ≤ b.toNat ∧ b.toNat ≤ p.high then
      let bits := p.bits * 64 + (b.toNat - 0x80)
      if p.owed = 1 then return ofCodePoint bits :: (← decodeFrom none (i + 1) r)
      else decodeFrom (some ⟨p.first, p.start, p.owed - 1, 0x80, 0xBF, bits⟩) (i + 1) r
    else .error ⟨p.first, p.start, i, .continuation⟩

def decode (bs : List UInt8) : Except Fault (List Char) := decodeFrom none 0 bs

def fault? (bs : List UInt8) : Option Fault :=
  match decode bs with
  | .ok _ => none
  | .error f => some f

def encode (s : String) : List UInt8 := s.toUTF8.toList

def nameOf (bs : List UInt8) : String :=
  match decode bs with
  | .ok cs => String.ofList cs
  | .error _ => String.ofList (bs.map fun b =>
      ofCodePoint (if b < 0x80 then b.toNat else 0xDC00 + b.toNat))

def octetsOf (name : String) : List UInt8 :=
  name.toList.flatMap fun c =>
    match half? c with
    | some n => [UInt8.ofNat n]
    | none => encode (String.singleton c)

example : (decode [0x61, 0xC3, 0xA9]).toOption = some ['a', 'é'] := by decide +kernel

end NoteDecor.Text.Utf8
