import NoteDecor.Calendar

/-!
The kinds of values that a document may hold, by name and, for plain scalars, by form.
-/

namespace NoteDecor.Yaml

inductive Tag where
  | null
  | bool
  | int
  | float
  | binary
  | timestamp
  | str
  | seq
  | map
  | set
  | omap
  | pairs
  | merge
  | value
  | unknown
  deriving DecidableEq, Repr, Inhabited

namespace Tag

def names : List (String × Tag) :=
  [("null", null), ("bool", bool), ("int", int), ("float", float), ("binary", binary),
    ("timestamp", timestamp), ("str", str), ("seq", seq), ("map", map), ("set", set),
    ("omap", omap), ("pairs", pairs), ("merge", merge), ("value", value)]

def home : String := "tag:yaml.org,2002:"

def ofName (name : String) : Tag :=
  ((names.find? fun p => home ++ p.1 == name).map (·.2)).getD unknown

def truths : List (String × Bool) :=
  [("yes", true), ("no", false), ("true", true), ("false", false), ("on", true), ("off", false)]

def capitalised (s : String) : String :=
  match s.toList with
  | [] => ""
  | c :: r => String.ofList (c.toUpper :: r)

def isSpelled (word s : String) : Bool :=
  s == word || s == capitalised word || s == String.ofList (word.toList.map Char.toUpper)

def unsigned (s : List Char) : List Char :=
  match s with
  | '+' :: r | '-' :: r => r
  | _ => s

def isDigitOr (c : Char) : Bool := c.isDigit || c == '_'

def isDigits : List Char → Bool
  | c :: r => c.isDigit && r.all isDigitOr
  | [] => false

def isSixtieth : List Char → Bool
  | [c] => c.isDigit
  | [c, d] => '0' ≤ c && c ≤ '5' && d.isDigit
  | _ => false

def isSexagesimal (s : List Char) : Bool :=
  match Text.split ':' s with
  | first :: second :: rest => isDigits first && (second :: rest).all isSixtieth
  | _ => false

def isNonEmpty (p : Char → Bool) (s : List Char) : Bool := !s.isEmpty && s.all p

def isHex (c : Char) : Bool := c.isDigit || ('a' ≤ c && c ≤ 'f') || ('A' ≤ c && c ≤ 'F')

def isInt (s : List Char) : Bool :=
  match unsigned s with
  | '0' :: 'b' :: r => isNonEmpty (fun c => c == '0' || c == '1' || c == '_') r
  | '0' :: 'x' :: r => isNonEmpty (fun c => isHex c || c == '_') r
  | ['0'] => true
  | '0' :: r => r.all fun c => ('0' ≤ c && c ≤ '7') || c == '_'
  | r => isDigits r || isSexagesimal r

def isExponent : List Char → Bool
  | [] => true
  | e :: sign :: ds => (e == 'e' || e == 'E') && (sign == '+' || sign == '-') &&
      isNonEmpty Char.isDigit ds
  | _ => false

def isFraction (s : List Char) : Bool := isExponent (s.dropWhile isDigitOr)

def isFloat (s : List Char) : Bool :=
  let body := unsigned s
  let whole := body.takeWhile (· != '.')
  match body.dropWhile (· != '.') with
  | '.' :: r =>
    (isDigits whole && isFraction r) ||
      (isSexagesimal whole && r.all isDigitOr) ||
      (whole.isEmpty && isSpelled "inf" (String.ofList r)) ||
      (s.head? == some '.' && ((isDigits (r.takeWhile isDigitOr) && isFraction r) ||
        ["nan", "NaN", "NAN"].contains (String.ofList r)))
  | _ => false

end Tag

/-- The parts of a timestamp. The zone is a distance from universal time in microseconds. -/
structure Stamp where
  date : Date
  isPadded : Bool
  time : Option (Nat × Nat × Nat × Nat × Option Int)

namespace Stamp

def shortNumber? (s : List Char) : Option Nat :=
  if s.length ≤ 2 then Calendar.number? s else none

def twoDigits? (s : List Char) : Option Nat :=
  if s.length = 2 then Calendar.number? s else none

def isSpace (c : Char) : Bool := c == ' ' || c == '\t'

def zone? (s : List Char) : Option (Option Int) :=
  match s.dropWhile isSpace with
  | [] => if s.isEmpty then some none else none
  | ['Z'] => some (some 0)
  | c :: r =>
    if c != '+' && c != '-' then none
    else do
      let minutes ← match Text.split ':' r with
        | [h] => do pure ((← shortNumber? h) * 60)
        | [h, m] => do pure ((← shortNumber? h) * 60 + (← twoDigits? m))
        | _ => none
      let span := minutes * Calendar.perMinute
      return some (if c == '-' then -(span : Int) else span)

def micros (ds : List Char) : Nat :=
  Numeral.ofDigits 10 (((ds.take 6) ++ List.replicate (6 - ds.length) '0').map (·.toNat - 48))

def seconds? (s : List Char) : Option (Nat × Nat × Option Int) := do
  let second ← twoDigits? (s.take 2)
  match s.drop 2 with
  | '.' :: r =>
    return (second, micros (r.takeWhile Char.isDigit), ← zone? (r.dropWhile Char.isDigit))
  | r => return (second, 0, ← zone? r)

def time? (s : List Char) : Option (Nat × Nat × Nat × Nat × Option Int) := do
  let hour ← shortNumber? (s.takeWhile (· != ':'))
  match s.dropWhile (· != ':') with
  | ':' :: a :: b :: ':' :: r =>
    let minute ← twoDigits? [a, b]
    let (second, micro, zone) ← seconds? r
    return (hour, minute, second, micro, zone)
  | _ => none

def ofText? (s : List Char) : Option Stamp := do
  let isDay := fun c : Char => c.isDigit
  let (y, r) := (s.take 4, s.drop 4)
  let year ← if y.length = 4 then Calendar.number? y else none
  let '-' :: r := r | none
  let m := r.takeWhile isDay
  let month ← shortNumber? m
  let '-' :: r := r.dropWhile isDay | none
  let d := r.takeWhile isDay
  let day ← shortNumber? d
  let isPadded := m.length = 2 && d.length = 2
  match r.dropWhile isDay with
  | [] => return ⟨⟨year, month, day⟩, isPadded, none⟩
  | c :: r =>
    let rest := if isSpace c then r.dropWhile isSpace else r
    if isSpace c || c == 'T' || c == 't' then
      return ⟨⟨year, month, day⟩, isPadded, some (← time? rest)⟩
    else none

/-- A day on its own counts as one only with month and day in two digits each. -/
def isPlain (s : List Char) : Bool :=
  match ofText? s with
  | some t => t.time.isSome || t.isPadded
  | none => false

end Stamp

/-- A line break at the end of a scalar does not touch its form, unless there is nothing else. -/
def withoutBreak (s : List Char) : List Char :=
  if s.getLast? = some '\n' && s.length != 1 then s.dropLast else s

def Tag.ofForm (s : List Char) : Tag :=
  let word := String.ofList s
  if truths.any fun t => isSpelled t.1 word then .bool
  else if isFloat s then .float
  else if isInt s then .int
  else if word == "<<" then .merge
  else if word == "" || word == "~" || isSpelled "null" word then .null
  else if Stamp.isPlain s then .timestamp
  else if word == "=" then .value
  else if word == "!" || word == "&" || word == "*" then .unknown
  else .str

def Tag.ofPlain (s : List Char) : Tag := Tag.ofForm (withoutBreak s)

end NoteDecor.Yaml
