import NoteDecor.Number.Numeral
import NoteDecor.Text.Quoted

/-!
Days and moments of the Gregorian calendar with their standard text, and what makes their parts
impossible.
-/

namespace NoteDecor

structure Date where
  year : Nat
  month : Nat
  day : Nat
  deriving DecidableEq, Repr, Inhabited

/-- A time on a day; `offset` is the distance of its zone from universal time in microseconds. -/
structure Moment where
  date : Date
  hour : Nat
  minute : Nat
  second : Nat
  micro : Nat
  offset : Option Int
  deriving DecidableEq, Repr, Inhabited

namespace Calendar

def perSecond : Nat := 1000000
def perMinute : Nat := 60 * perSecond
def perDay : Nat := 1440 * perMinute

inductive Fault where
  | year (year : Nat)
  | month
  | day
  | hour
  | minute
  | second
  | offset (micros : Int)
  deriving DecidableEq, Repr

def isLeap (year : Nat) : Bool := year % 4 == 0 && (year % 100 != 0 || year % 400 == 0)

def monthLength (year month : Nat) : Nat :=
  if month = 2 then if isLeap year then 29 else 28
  else if month = 4 ∨ month = 6 ∨ month = 9 ∨ month = 11 then 30 else 31

def checkDate (d : Date) : Except Fault Date :=
  if d.year = 0 ∨ 9999 < d.year then .error (.year d.year)
  else if d.month = 0 ∨ 12 < d.month then .error .month
  else if d.day = 0 ∨ monthLength d.year d.month < d.day then .error .day
  else .ok d

def checkMoment (m : Moment) : Except Fault Moment := do
  if let some o := m.offset then
    if perDay ≤ o.natAbs then throw (.offset o)
  discard (checkDate m.date)
  if 23 < m.hour then throw .hour
  if 59 < m.minute then throw .minute
  if 59 < m.second then throw .second
  return m

def padded (width n : Nat) : String :=
  let ds := Nat.toDigits 10 n
  String.ofList (List.replicate (width - ds.length) '0' ++ ds)

/-- A span of microseconds in days, seconds and microseconds, of which only the days may be below
zero. -/
def spanText (span : Int) : String :=
  let days := Int.fdiv span perDay
  let rest := (span - days * perDay).toNat
  let parts := [("days", days), ("seconds", ((rest / perSecond : Nat) : Int)),
    ("microseconds", ((rest % perSecond : Nat) : Int))].filter fun p => p.2 != 0
  "datetime.timedelta(" ++ (if parts.isEmpty then "0" else
    Text.joinText ", " (parts.map fun p => p.1 ++ "=" ++ toString p.2)) ++ ")"

def Fault.message : Fault → String
  | .year y => s!"year {y} is out of range"
  | .month => "month must be in 1..12"
  | .day => "day is out of range for month"
  | .hour => "hour must be in 0..23"
  | .minute => "minute must be in 0..59"
  | .second => "second must be in 0..59"
  | .offset o => "offset must be a timedelta strictly between -timedelta(hours=24) and " ++
      "timedelta(hours=24), not " ++ spanText o ++ "."

end Calendar

open Calendar

def Date.iso (d : Date) : String :=
  padded 4 d.year ++ "-" ++ padded 2 d.month ++ "-" ++ padded 2 d.day

def Date.literal (d : Date) : String := s!"datetime.date({d.year}, {d.month}, {d.day})"

def offsetText (o : Int) : String :=
  let n := o.natAbs
  let seconds := n / perSecond % 60
  (if o < 0 then "-" else "+") ++ padded 2 (n / (60 * perMinute)) ++ ":" ++
    padded 2 (n / perMinute % 60) ++
    (if n % perMinute = 0 then "" else ":" ++ padded 2 seconds) ++
    (if n % perSecond = 0 then "" else "." ++ padded 6 (n % perSecond))

def Moment.iso (separator : String) (m : Moment) : String :=
  m.date.iso ++ separator ++ padded 2 m.hour ++ ":" ++ padded 2 m.minute ++ ":" ++
    padded 2 m.second ++ (if m.micro = 0 then "" else "." ++ padded 6 m.micro) ++
    (m.offset.map offsetText).getD ""

def Moment.literal (m : Moment) : String :=
  let time := if m.micro ≠ 0 then [m.second, m.micro] else if m.second ≠ 0 then [m.second] else []
  let parts := [m.date.year, m.date.month, m.date.day, m.hour, m.minute] ++ time
  let zone := match m.offset with
    | none => []
    | some 0 => ["tzinfo=datetime.timezone.utc"]
    | some o => ["tzinfo=datetime.timezone(" ++ spanText o ++ ")"]
  "datetime.datetime(" ++ Text.joinText ", " (parts.map toString ++ zone) ++ ")"

def Date.dayNumber (d : Date) : Int :=
  let y : Int := if d.month ≤ 2 then (d.year : Int) - 1 else d.year
  let m : Int := if d.month ≤ 2 then (d.month : Int) + 9 else (d.month : Int) - 3
  365 * y + y / 4 - y / 100 + y / 400 + (153 * m + 2) / 5 + d.day

def Moment.instant (m : Moment) : Int :=
  ((m.date.dayNumber * 1440 + m.hour * 60 + m.minute) * 60 + m.second) * perSecond + m.micro -
    m.offset.getD 0

/-- Moments with and without a zone are never the same; with zones, instants are compared. -/
def Moment.same (a b : Moment) : Bool :=
  a.offset.isSome == b.offset.isSome && a.instant == b.instant

namespace Calendar

def number? (s : List Char) : Option Nat :=
  if s.isEmpty ∨ ¬ s.all Char.isDigit then none
  else some (Numeral.ofDigits 10 (s.map (·.toNat - 48)))

def readDate? (s : List Char) : Option Date :=
  match Text.split '-' s with
  | [y, m, d] => do return ⟨← number? y, ← number? m, ← number? d⟩
  | _ => none

def readSeconds? (s : List Char) : Option Nat :=
  match Text.split '.' s with
  | [whole] => (number? whole).map (· * perSecond)
  | [whole, f] => do
    if f.length != 6 then none
    return (← number? whole) * perSecond + (← number? f)
  | _ => none

def readOffset? (s : List Char) : Option (Option Int) :=
  match s with
  | [] => some none
  | c :: r => do
    let span ← match Text.split ':' r with
      | [h, m] => some ((← number? h) * 60 * perMinute + (← number? m) * perMinute)
      | [h, m, s] =>
        some ((← number? h) * 60 * perMinute + (← number? m) * perMinute + (← readSeconds? s))
      | _ => none
    return some (if c = '-' then -(span : Int) else span)

def readMoment? (s : List Char) : Option Moment := do
  let date ← readDate? (s.take 10)
  let time := (s.drop 11).takeWhile fun c => c != '+' && c != '-'
  let zone := (s.drop 11).dropWhile fun c => c != '+' && c != '-'
  let offset ← readOffset? zone
  match Text.split ':' time with
  | [h, m, seconds] =>
    let micros ← readSeconds? seconds
    return ⟨date, ← number? h, ← number? m, micros / perSecond, micros % perSecond, offset⟩
  | _ => none

end Calendar

example : (Moment.mk ⟨2024, 1, 31⟩ 10 5 0 20 (some (330 * perMinute))).iso "T" =
    "2024-01-31T10:05:00.000020+05:30" := by decide +kernel

end NoteDecor
