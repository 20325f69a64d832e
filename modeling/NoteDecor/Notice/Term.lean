import NoteDecor.Text.Word

/-!
Terms of templates: names and numbers, steps into what they stand for, and filters behind a bar.
A term is read from words, which blanks may stand between.
-/

namespace NoteDecor.Notice

inductive Term where
  | name (s : String)
  | number (n : Int)
  | truth (b : Bool)
  | nothing
  | field (t : Term) (name : String)
  | item (t index : Term)
  | negative (t : Term)
  | filtered (filter : String) (t : Term)
  deriving DecidableEq, Repr

namespace Term

def constants : List (String × Term) :=
  [("true", truth true), ("True", truth true), ("false", truth false), ("False", truth false),
    ("none", nothing), ("None", nothing)]

def isConstant (s : String) : Bool := constants.any fun c => c.1 == s

def ofName (s : String) : Term := ((constants.find? fun c => c.1 == s).map (·.2)).getD (name s)

def filters : List String := ["length", "count"]

def isKnown : Term → Bool
  | field t _ | negative t => t.isKnown
  | item t i => t.isKnown && i.isKnown
  | filtered f t => filters.contains f && t.isKnown
  | _ => true

inductive Word where
  | name (s : String)
  | number (n : Nat)
  | sign (c : Char)
  deriving DecidableEq, Repr

def digits (value? : Char → Option Nat) : List Char → List Nat × List Char
  | '_' :: c :: r =>
    match value? c with
    | some d => let (ds, rest) := digits value? r; (d :: ds, rest)
    | none => ([], '_' :: c :: r)
  | c :: r =>
    match value? c with
    | some d => let (ds, rest) := digits value? r; (d :: ds, rest)
    | none => ([], c :: r)
  | [] => ([], [])

def baseOf? (mark : Char) : Option Nat :=
  if mark = 'b' ∨ mark = 'B' then some 2
  else if mark = 'o' ∨ mark = 'O' then some 8
  else if mark = 'x' ∨ mark = 'X' then some 16 else none

def digitIn (base : Nat) (c : Char) : Option Nat :=
  if c.toNat < 128 || base = 10 || base = 16 then Numeral.digit? base c else none

/-- The number at the start of a text that begins with a digit. Behind a zero that is no mark of a
base only zeros count. -/
def number? (s : List Char) : Option (Nat × List Char) :=
  match s with
  | '0' :: r =>
    match r.head?.bind baseOf? with
    | some base =>
      match digits (digitIn base) (r.drop 1) with
      | ([], _) => some (0, r)
      | (ds, rest) => some (Numeral.ofDigits base ds, rest)
    | none => some (0, (digits (digitIn 1) r).2)
  | c :: r =>
    if c.isDigit then
      let (ds, rest) := digits (digitIn 10) r
      some (Numeral.ofDigits 10 ((c.toNat - 48) :: ds), rest)
    else none
  | [] => none

def words : Nat → List Char → List Word
  | 0, _ | _, [] => []
  | fuel + 1, c :: r =>
    if Text.isBlank c then words fuel r
    else if Text.isWordStart c then
      .name (String.ofList (c :: r.takeWhile Text.isWordChar)) ::
        words fuel (r.dropWhile Text.isWordChar)
    else match number? (c :: r) with
      | some (n, rest) => .number n :: words fuel rest
      | none => .sign c :: words fuel r

def wordsOf (s : List Char) : List Word := words s.length s

def filtered? : Term → List Word → Term × List Word
  | t, .sign '|' :: .name f :: r => filtered? (filtered f t) r
  | filtered f t, .sign '.' :: .name g :: r => filtered? (filtered (f ++ "." ++ g) t) r
  | t, r => (t, r)

mutual

def read? : Nat → List Word → Option (Term × List Word)
  | 0, _ => none
  | fuel + 1, ws => do
    let (t, ws) ← operand? fuel ws
    return filtered? t ws

def operand? : Nat → List Word → Option (Term × List Word)
  | fuel + 1, .sign '-' :: ws => do
    let (t, ws) ← operand? fuel ws
    return (negative t, ws)
  | fuel + 1, .number n :: ws => steps? fuel (number n) ws
  | fuel + 1, .name s :: ws => if s = "not" then none else steps? fuel (ofName s) ws
  | _, _ => none

def steps? : Nat → Term → List Word → Option (Term × List Word)
  | 0, _, _ => none
  | fuel + 1, t, .sign '.' :: .name f :: ws => steps? fuel (field t f) ws
  | fuel + 1, t, .sign '.' :: .number n :: ws => steps? fuel (item t (number n)) ws
  | fuel + 1, t, .sign '[' :: ws => do
    let (i, ws) ← read? fuel ws
    match ws with
    | .sign ']' :: ws => steps? fuel (item t i) ws
    | _ => none
  | _ + 1, t, ws => some (t, ws)

end

def ofWords? (ws : List Word) : Option Term :=
  match read? (2 * ws.length + 3) ws with
  | some (t, []) => some t
  | _ => none

example : ofWords? (wordsOf "a.b[ -0x1_0 ]|length".toList) =
    some (filtered "length" (item (field (name "a") "b") (negative (number 16)))) := by
  decide +kernel

example : ofWords? (wordsOf "a[01]".toList) = none ∧ ofWords? (wordsOf "a.0.b".toList) =
    some (field (item (name "a") (number 0)) "b") := by decide +kernel

end Term

end NoteDecor.Notice
