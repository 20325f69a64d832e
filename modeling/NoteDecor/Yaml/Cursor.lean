import NoteDecor.Calendar
import NoteDecor.Text.Utf8

/-!
Walking through the text of a document: what is left of it, and where that begins. Past the end
every character reads as null, which no document holds.
-/

namespace NoteDecor.Yaml

/-- Text that is no document is malformed. The other faults are those of scalars that have the
form of a number, a truth value or a time but are none, or whose number is too large. -/
inductive Fault where
  | malformed
  | codePoint (isWide : Bool)
  | calendar (f : Calendar.Fault)
  | whole (base : Nat) (text : String) (f : Numeral.Fault)
  | decimal (text : String)
  | noDigits
  | truth (text : String)
  | moment
  | notText
  | tooLarge
  | endless
  deriving DecidableEq, Repr

/-- No more than two hundred characters of a text that is no number are shown. -/
def wholeMessage (base : Nat) (text : String) : Numeral.Fault → String
  | .malformed => s!"invalid literal for int() with base {base}: " ++
      String.ofList ((Text.quoted text).toList.take 200)
  | .tooLong n => Numeral.tooLongMessage ++ s!": value has {n} digits" ++ Numeral.limitHint

def Fault.message : Fault → String
  | .malformed => "<yaml error>"
  | .codePoint isWide => if isWide then "Python int too large to convert to C int"
      else "chr() arg not in range(0x110000)"
  | .calendar f => f.message
  | .whole base text f => wholeMessage base text f
  | .decimal text => "could not convert string to float: " ++ Text.quoted text
  | .noDigits => "string index out of range"
  | .truth text => Text.quoted text
  | .moment => "no such member"
  | .notText => "operation not supported"
  | .tooLarge => "int too large to convert to float"
  | .endless => "maximum recursion depth exceeded"

abbrev Result := Except Fault

structure Cursor where
  rest : List Char
  index : Nat
  line : Nat
  column : Nat
  deriving Repr

def isAllowed (c : Char) : Bool :=
  Text.inRanges [(9, 10), (13, 13), (0x20, 0x7E), (0x85, 0x85), (0xA0, 0xD7FF), (0xE000, 0xFFFD),
    (0x10000, 0x10FFFF)] c.toNat && (Text.half? c).isNone

def isBreak (c : Char) : Bool :=
  c == '\n' || c == '\r' || c == '\u0085' || c == '\u2028' || c == '\u2029'

def isEnd (c : Char) : Bool := c == '\x00' || isBreak c

def isGap (c : Char) : Bool := c == ' ' || c == '\t' || isEnd c

def isIn (s : String) (c : Char) : Bool := s.toList.contains c

def isWord (c : Char) : Bool := c.isAlphanum || c == '-' || c == '_'

def hexValue? (c : Char) : Option Nat :=
  if c.isDigit then some (c.toNat - 48)
  else if 'a' ≤ c ∧ c ≤ 'f' then some (c.toNat - 87)
  else if 'A' ≤ c ∧ c ≤ 'F' then some (c.toNat - 55) else none

namespace Cursor

def start (s : List Char) : Cursor := ⟨s, 0, 0, 0⟩

def peek (c : Cursor) : Char := c.rest.headD '\x00'

def peekAt (c : Cursor) (n : Nat) : Char := (c.rest.drop n).headD '\x00'

def isAt (c : Cursor) (word : String) : Bool := word.toList.isPrefixOf c.rest

/-- One character on. A byte order mark takes no column. -/
def next (c : Cursor) : Cursor :=
  match c.rest with
  | [] => c
  | x :: r =>
    if isBreak x && !(x == '\r' && r.head? == some '\n') then ⟨r, c.index + 1, c.line + 1, 0⟩
    else if x == '\uFEFF' then ⟨r, c.index + 1, c.line, c.column⟩
    else ⟨r, c.index + 1, c.line, c.column + 1⟩

def skip : Nat → Cursor → Cursor
  | 0, c => c
  | n + 1, c => skip n c.next

def span (p : Char → Bool) (c : Cursor) : List Char × Cursor :=
  let taken := c.rest.takeWhile p
  (taken, c.skip taken.length)

def skipSpaces (c : Cursor) : Cursor := (c.span (· == ' ')).2

def skipComment (c : Cursor) : Cursor :=
  if c.peek == '#' then (c.span fun x => !isEnd x).2 else c

def lineBreak (c : Cursor) : List Char × Cursor :=
  let x := c.peek
  if c.isAt "\r\n" then (['\n'], c.skip 2)
  else if x == '\r' || x == '\n' || x == '\u0085' then (['\n'], c.next)
  else if isBreak x then ([x], c.next) else ([], c)

def isAtMarker (c : Cursor) : Bool := (c.isAt "---" || c.isAt "...") && isGap (c.peekAt 3)

def finishLine (c : Cursor) : Result Cursor :=
  let c := c.skipSpaces.skipComment
  if isEnd c.peek then .ok c.lineBreak.2 else .error .malformed

def hexNumber (c : Cursor) (width : Nat) : Result (Nat × Cursor) :=
  match ((List.range width).mapM fun i => hexValue? (c.peekAt i)) with
  | some ds => .ok (Numeral.ofDigits 16 ds, c.skip width)
  | none => .error .malformed

end Cursor

end NoteDecor.Yaml
