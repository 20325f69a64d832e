import NoteDecor.Yaml.Cursor

/-!
The text of scalars: plain, quoted, and in blocks. A single line break inside a scalar is folded
to a space where it does not stand for itself.
-/

namespace NoteDecor.Yaml.Scalar

open Cursor

def emptyLines (p : Char → Bool) : Nat → Cursor → Result (List Char × Cursor)
  | 0, c => .ok ([], c)
  | fuel + 1, c =>
    if c.isAtMarker then .error .malformed
    else
      let c := (c.span p).2
      if isBreak c.peek then do
        let (b, c) := c.lineBreak
        let (bs, c) ← emptyLines p fuel c
        return (b ++ bs, c)
      else .ok ([], c)

def folded (lineBreak breaks : List Char) : List Char :=
  if lineBreak != ['\n'] then lineBreak ++ breaks
  else if breaks.isEmpty then [' '] else breaks

def fuelOf (c : Cursor) : Nat := c.rest.length + 1

def escapes : List (Char × Char) :=
  [('0', '\x00'), ('a', '\x07'), ('b', '\x08'), ('t', '\t'), ('\t', '\t'), ('n', '\n'),
    ('v', '\x0b'), ('f', '\x0c'), ('r', '\r'), ('e', '\x1b'), (' ', ' '), ('\x22', '\x22'),
    ('\\', '\\'), ('/', '/'), ('N', '\u0085'), ('_', '\u00a0'), ('L', '\u2028'), ('P', '\u2029')]

def escapeWidth? (c : Char) : Option Nat :=
  if c == 'x' then some 2 else if c == 'u' then some 4 else if c == 'U' then some 8 else none

/-- A code point by its number. The halves of a surrogate pair stay apart. -/
def codePoint (n : Nat) : Result Char :=
  if 0x10FFFF < n then .error (.codePoint (0x7FFFFFFF < n)) else .ok (Text.ofCodePoint n)

def escape (c : Cursor) : Result (List Char × Cursor) :=
  let x := c.peek
  match escapes.find? fun e => e.1 == x, escapeWidth? x with
  | some (_, y), _ => .ok ([y], c.next)
  | none, some width => do
    let (n, c) ← c.next.hexNumber width
    return ([← codePoint n], c)
  | none, none =>
    if isBreak x then emptyLines (isIn " \t") (fuelOf c) c.lineBreak.2 else .error .malformed

def isQuotedText (c : Char) : Bool := !(isIn "'\"\\" c || isGap c)

def quotedWord (double : Bool) : Nat → Cursor → Result (List Char × Cursor)
  | 0, c => .ok ([], c)
  | fuel + 1, c => do
    let (word, c) := c.span isQuotedText
    let x := c.peek
    if !double && x == '\x27' && c.peekAt 1 == '\x27' then
      let (more, c) ← quotedWord double fuel (c.skip 2)
      return (word ++ '\x27' :: more, c)
    else if (double && x == '\x27') || (!double && (x == '\x22' || x == '\\')) then
      let (more, c) ← quotedWord double fuel c.next
      return (word ++ x :: more, c)
    else if double && x == '\\' then
      let (mark, c) ← escape c.next
      let (more, c) ← quotedWord double fuel c
      return (word ++ mark ++ more, c)
    else return (word, c)

def quotedGap (c : Cursor) : Result (List Char × Cursor) := do
  let (space, c) := c.span (isIn " \t")
  if c.peek == '\x00' then throw .malformed
  else if isBreak c.peek then
    let (b, c) := c.lineBreak
    let (bs, c) ← emptyLines (isIn " \t") (fuelOf c) c
    return (folded b bs, c)
  else return (space, c)

def quotedRest (double : Bool) (quote : Char) : Nat → Cursor → Result (List Char × Cursor)
  | 0, _ => .error .malformed
  | fuel + 1, c => do
    if c.peek == quote then return ([], c.next)
    let (gap, c) ← quotedGap c
    let (word, c) ← quotedWord double (fuelOf c) c
    let (more, c) ← quotedRest double quote fuel c
    return (gap ++ word ++ more, c)

def quoted (c : Cursor) : Result (List Char × Cursor) := do
  let quote := c.peek
  let double := quote == '\x22'
  let (word, c) ← quotedWord double (fuelOf c) c.next
  let (more, c) ← quotedRest double quote (fuelOf c) c
  return (word ++ more, c)

def flowMarks : String := ",[]\x7b\x7d"

def plainLength (inFlow : Bool) : List Char → Nat
  | [] => 0
  | x :: r =>
    let after := r.headD '\x00'
    if isGap x || (x == ':' && (isGap after || (inFlow && isIn flowMarks after))) ||
      (inFlow && (x == '?' || isIn flowMarks x)) then 0
    else plainLength inFlow r + 1

def plainBreaks : Nat → Cursor → Option (List Char) × Cursor
  | 0, c => (some [], c)
  | fuel + 1, c =>
    if c.peek == ' ' then plainBreaks fuel c.next
    else if isBreak c.peek then
      let (b, c) := c.lineBreak
      if c.isAtMarker then (none, c)
      else
        let (bs, c) := plainBreaks fuel c
        (bs.map (b ++ ·), c)
    else (some [], c)

def plainGap (c : Cursor) : List Char × Bool × Cursor :=
  let (space, c) := c.span (· == ' ')
  if isBreak c.peek then
    let (b, c) := c.lineBreak
    if c.isAtMarker then ([], true, c)
    else
      let (bs, c) := plainBreaks (fuelOf c) c
      (((bs.map (folded b)).getD []), true, c)
  else (space, false, c)

/-- The words of a plain scalar. The flag says whether the last gap ended a line. -/
def plainWords (inFlow : Bool) (indent : Int) :
    Nat → (gap : List Char) → (ended : Bool) → Cursor → List Char × Bool × Cursor
  | 0, _, ended, c => ([], ended, c)
  | fuel + 1, gap, ended, c =>
    let n := if c.peek == '#' then 0 else plainLength inFlow c.rest
    if n = 0 then ([], ended, c)
    else
      let word := gap ++ c.rest.take n
      let (gap, ended, c) := plainGap (c.skip n)
      if gap.isEmpty || c.peek == '#' || (!inFlow && c.column < indent) then (word, ended, c)
      else
        let (more, ended, c) := plainWords inFlow indent fuel gap ended c
        (word ++ more, ended, c)

def plain (inFlow : Bool) (indent : Int) (c : Cursor) : List Char × Bool × Cursor :=
  plainWords inFlow indent (fuelOf c) [] false c

/-- Whether the last line breaks are dropped, kept, or cut down to one. -/
inductive Chomping where
  | strip
  | clip
  | keep
  deriving DecidableEq

def chomping? (c : Cursor) : Option Chomping :=
  if c.peek == '+' then some .keep else if c.peek == '-' then some .strip else none

def increment (c : Cursor) : Result (Option Nat × Cursor) :=
  if c.peek.isDigit then
    if c.peek == '0' then .error .malformed else .ok (some (c.peek.toNat - 48), c.next)
  else .ok (none, c)

def header (c : Cursor) : Result (Chomping × Option Nat × Cursor) := do
  let (chomping, step, c) ← match chomping? c with
    | some m => do
      let (step, c) ← increment c.next
      pure (m, step, c)
    | none => do
      let (step, c) ← increment c
      match step, chomping? c with
        | some _, some m => pure (m, step, c.next)
        | _, _ => pure (.clip, step, c)
  if c.peek == ' ' || isEnd c.peek then return (chomping, step, ← c.finishLine)
  else throw .malformed

def leadingLines : Nat → (deepest : Nat) → Cursor → List Char × Nat × Cursor
  | 0, deepest, c => ([], deepest, c)
  | fuel + 1, deepest, c =>
    if c.peek == ' ' then leadingLines fuel (max deepest c.next.column) c.next
    else if isBreak c.peek then
      let (b, c) := c.lineBreak
      let (bs, deepest, c) := leadingLines fuel deepest c
      (b ++ bs, deepest, c)
    else ([], deepest, c)

def skipIndent (indent : Nat) (c : Cursor) : Cursor :=
  let n := (c.rest.take (indent - c.column)).takeWhile (· == ' ') |>.length
  c.skip n

def blockBreaks (indent : Nat) : Nat → Cursor → List Char × Cursor
  | 0, c => ([], c)
  | fuel + 1, c =>
    let c := skipIndent indent c
    if isBreak c.peek then
      let (b, c) := c.lineBreak
      let (bs, c) := blockBreaks indent fuel c
      (b ++ bs, c)
    else ([], c)

def joinLines (isFolded plainStart : Bool) (b breaks : List Char) (c : Cursor) : List Char :=
  if isFolded && b == ['\n'] && plainStart && !isIn " \t" c.peek then
    if breaks.isEmpty then [' '] else []
  else b

def blockLines (isFolded : Bool) (indent : Nat) :
    Nat → (breaks : List Char) → Cursor → List Char × List Char × List Char × Cursor
  | 0, breaks, c => ([], [], breaks, c)
  | fuel + 1, breaks, c =>
    if c.column == indent && c.peek != '\x00' then
      let plainStart := !isIn " \t" c.peek
      let (line, c) := c.span fun x => !isEnd x
      let (b, c) := c.lineBreak
      let (more, c) := blockBreaks indent (fuelOf c) c
      if c.column == indent && c.peek != '\x00' then
        let joined := joinLines isFolded plainStart b more c
        let (text, b, last, c) := blockLines isFolded indent fuel more c
        (breaks ++ line ++ joined ++ text, b, last, c)
      else (breaks ++ line, b, more, c)
    else ([], [], breaks, c)

def block (isFolded : Bool) (indent : Int) (c : Cursor) : Result (List Char × Cursor) := do
  let (chomping, step, c) ← header c.next
  let least := max (indent + 1) 1 |>.toNat
  let (breaks, indent, c) := match step with
    | none =>
      let (bs, deepest, c) := leadingLines (fuelOf c) 0 c
      (bs, max least deepest, c)
    | some n =>
      let indent := least + n - 1
      let (bs, c) := blockBreaks indent (fuelOf c) c
      (bs, indent, c)
  let (text, b, last, c) := blockLines isFolded indent (fuelOf c) breaks c
  let ending := match chomping with
    | .strip => []
    | .clip => b
    | .keep => b ++ last
  return (text ++ ending, c)

end NoteDecor.Yaml.Scalar
