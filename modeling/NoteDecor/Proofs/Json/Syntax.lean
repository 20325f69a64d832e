import NoteDecor.Number.Numeral
import NoteDecor.Proofs.Assignment
import NoteDecor.Text.Half
import NoteDecor.Value.Basic

/-! JSON objects whose values are scalars or arrays of scalars, as they are written down, and the
entries that they stand for. Every part comes with the proof that it may be written in this way, so
that each text of such an object is the text of a document here. -/

namespace NoteDecor.Json

def isSpace (c : Char) : Bool := c == ' ' || c == '\t' || c == '\n' || c == '\r'

structure Gap where
  chars : List Char
  blank : ∀ c ∈ chars, isSpace c = true

structure Spaced (α : Type) where
  before : Gap
  it : α
  after : Gap

inductive Listed (α : Type) where
  | none (gap : Gap)
  | some (first : Spaced α) (more : List (Spaced α))

namespace Listed

variable {α : Type}

def parts : Listed α → List α
  | none _ => []
  | some x xs => x.it :: xs.map Spaced.it

def gaps : Listed α → List Gap
  | none g => [g]
  | some x xs => x.before :: x.after :: xs.flatMap fun y => [y.before, y.after]

end Listed

def Spaced.text {α : Type} (text : α → List Char) (x : Spaced α) : List Char :=
  x.before.chars ++ (text x.it ++ x.after.chars)

def moreText {α : Type} (text : α → List Char) : List (Spaced α) → List Char
  | [] => []
  | x :: xs => ',' :: (x.text text ++ moreText text xs)

def Listed.text {α : Type} (text : α → List Char) : Listed α → List Char
  | none g => g.chars
  | some x xs => x.text text ++ moreText text xs

def isPlain (c : Char) : Bool := 0x20 ≤ c.toNat && c != '\x22' && c != '\\'

structure HexDigit where
  value : Fin 16
  isCapital : Bool
  deriving DecidableEq

def HexDigit.char (d : HexDigit) : Char :=
  if d.isCapital then (Nat.digitChar d.value).toUpper else Nat.digitChar d.value

inductive Short where
  | quote
  | backslash
  | slash
  | backspace
  | formFeed
  | lineFeed
  | carriageReturn
  | tab
  deriving DecidableEq

namespace Short

def mark : Short → Char
  | quote => '\x22'
  | backslash => '\\'
  | slash => '/'
  | backspace => 'b'
  | formFeed => 'f'
  | lineFeed => 'n'
  | carriageReturn => 'r'
  | tab => 't'

def char : Short → Char
  | quote => '\x22'
  | backslash => '\\'
  | slash => '/'
  | backspace => '\x08'
  | formFeed => '\x0c'
  | lineFeed => '\n'
  | carriageReturn => '\r'
  | tab => '\t'

end Short

inductive Piece where
  | plain (c : Char) (h : isPlain c = true)
  | short (e : Short)
  | unit (a b c d : HexDigit)

def codeUnit (a b c d : HexDigit) : Nat :=
  Numeral.ofDigits 16 [a.value, b.value, c.value, d.value]

namespace Piece

def text : Piece → List Char
  | plain c _ => [c]
  | short e => ['\\', e.mark]
  | unit a b c d => ['\\', 'u', a.char, b.char, c.char, d.char]

def char : Piece → Char
  | plain c _ => c
  | short e => e.char
  | unit a b c d => Text.ofCodePoint (codeUnit a b c d)

def pair? : Piece → Piece → Option Char
  | unit a b c d, unit a' b' c' d' =>
    let high := codeUnit a b c d
    let low := codeUnit a' b' c' d'
    if 0xD800 ≤ high ∧ high ≤ 0xDBFF ∧ 0xDC00 ≤ low ∧ low ≤ 0xDFFF then
      Option.some (Text.ofCodePoint (0x10000 + (high - 0xD800) * 0x400 + (low - 0xDC00)))
    else Option.none
  | _, _ => Option.none

end Piece

def charsOf : List Piece → List Char
  | [] => []
  | [p] => [p.char]
  | p :: q :: ps =>
    match p.pair? q with
    | some c => c :: charsOf ps
    | none => p.char :: charsOf (q :: ps)

def stringText (ps : List Piece) : List Char := '\x22' :: (ps.flatMap Piece.text ++ ['\x22'])

def digitsText (ds : List (Fin 10)) : List Char := ds.map fun d => Nat.digitChar d.val

def natOf (ds : List (Fin 10)) : Nat := Numeral.ofDigits 10 (ds.map Fin.val)

structure Exponent where
  isCapital : Bool
  isNegative : Option Bool
  digits : List (Fin 10)
  nonempty : digits ≠ []

def signText : Option Bool → List Char
  | none => []
  | some false => ['+']
  | some true => ['-']

def Exponent.text (e : Exponent) : List Char :=
  (if e.isCapital then 'E' else 'e') :: (signText e.isNegative ++ digitsText e.digits)

def Exponent.value (e : Exponent) : Int :=
  Binary64.signed (e.isNegative.getD false) (natOf e.digits)

structure Number where
  isNegative : Bool
  whole : List (Fin 10)
  fraction : Option (List (Fin 10))
  exponent : Option Exponent
  nonempty : whole ≠ []
  unpadded : whole.head? = some 0 → whole = [0]
  present : fraction ≠ some []

namespace Number

def fractionText (n : Number) : List Char :=
  match n.fraction with
  | none => []
  | some ds => '.' :: digitsText ds

def exponentText (n : Number) : List Char := (n.exponent.map Exponent.text).getD []

def unsignedText (n : Number) : List Char :=
  digitsText n.whole ++ (n.fractionText ++ n.exponentText)

def text (n : Number) : List Char :=
  if n.isNegative then '-' :: n.unsignedText else n.unsignedText

def isWhole (n : Number) : Bool := n.fraction.isNone && n.exponent.isNone

def size (n : Number) (isNegative : Bool) : Binary64 :=
  let fraction := n.fraction.getD []
  Numeral.decimal isNegative (natOf (n.whole ++ fraction))
    ((n.exponent.map Exponent.value).getD 0 - fraction.length)

def value (n : Number) : Value :=
  if n.isWhole then .int (Binary64.signed n.isNegative (natOf n.whole))
  else .float (n.size n.isNegative)

end Number

inductive Scalar where
  | string (ps : List Piece)
  | number (n : Number)
  | truth (b : Bool)

def truthText (b : Bool) : String := if b then "true" else "false"

def Scalar.text : Scalar → List Char
  | string ps => stringText ps
  | number n => n.text
  | truth b => (truthText b).toList

def Scalar.value : Scalar → Value
  | string ps => .text (String.ofList (charsOf ps))
  | number n => n.value
  | truth b => .bool b

inductive Datum where
  | scalar (x : Scalar)
  | array (xs : Listed Scalar)

namespace Datum

def text : Datum → List Char
  | scalar x => x.text
  | array xs => '[' :: (xs.text Scalar.text ++ [']'])

def gaps : Datum → List Gap
  | scalar _ => []
  | array xs => xs.gaps

def scalars : Datum → List Scalar
  | scalar x => [x]
  | array xs => xs.parts

def valueBy (value : Scalar → Value) : Datum → Value
  | scalar x => value x
  | array xs => .list (xs.parts.map value)

end Datum

structure Member where
  key : List Piece
  beforeColon : Gap
  afterColon : Gap
  datum : Datum

def Member.text (m : Member) : List Char :=
  stringText m.key ++ (m.beforeColon.chars ++ ':' :: (m.afterColon.chars ++ m.datum.text))

structure Document where
  before : Gap
  members : Listed Member
  after : Gap

namespace Document

def text (d : Document) : List Char :=
  d.before.chars ++ '\x7b' :: (d.members.text Member.text ++ '\x7d' :: d.after.chars)

def entriesBy (key : List Piece → List Char) (value : Scalar → Value) (d : Document) : Entries :=
  Entries.fields (d.members.parts.foldl
    (fun es m => assign (String.ofList (key m.key)) (m.datum.valueBy value) es) [])

/-- What a document stands for. -/
def entries (d : Document) : Entries := d.entriesBy charsOf Scalar.value

end Document

end NoteDecor.Json
