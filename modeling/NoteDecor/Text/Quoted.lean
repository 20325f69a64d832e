import NoteDecor.Text.Half
import NoteDecor.Text.Printable

/-!
Quoted texts and octets. The quote is a single one unless the text holds single quotes and no
double ones; the quote, backslashes and characters without a visible form are escaped.
-/

namespace NoteDecor.Text

def hexDigit (n : Nat) : Char :=
  if n < 10 then Char.ofNat (48 + n) else Char.ofNat (87 + n)

def hexDigits (n : Nat) : Nat → List Char
  | 0 => []
  | width + 1 => hexDigits (n / 16) width ++ [hexDigit (n % 16)]

def quoteMark (holdsSingle holdsDouble : Bool) : Char :=
  if holdsSingle && !holdsDouble then '\x22' else '\x27'

def escape (quote c : Char) : List Char :=
  if c = quote || c = '\\' then ['\\', c]
  else if c = '\n' then ['\\', 'n']
  else if c = '\r' then ['\\', 'r']
  else if c = '\t' then ['\\', 't']
  else if isPrintable c then [c]
  else if let some n := half? c then '\\' :: 'u' :: hexDigits n 4
  else if c.toNat < 256 then '\\' :: 'x' :: hexDigits c.toNat 2
  else if c.toNat < 65536 then '\\' :: 'u' :: hexDigits c.toNat 4
  else '\\' :: 'U' :: hexDigits c.toNat 8

def quoted (s : String) : String :=
  let cs := s.toList
  let q := quoteMark (cs.contains '\x27') (cs.contains '\x22')
  String.ofList (q :: cs.flatMap (escape q) ++ [q])

def escapeOctet (quote : Char) (b : UInt8) : List Char :=
  if b.toNat < 127 then escape quote (Char.ofNat b.toNat)
  else '\\' :: 'x' :: hexDigits b.toNat 2

def quotedOctets (bs : List UInt8) : String :=
  let q := quoteMark (bs.contains 39) (bs.contains 34)
  String.ofList ('b' :: q :: bs.flatMap (escapeOctet q) ++ [q])

example : quoted "it's" = "\"it's\"" ∧ quoted "a\n\x01" = "'a\\n\\x01'" := by decide +kernel

end NoteDecor.Text
