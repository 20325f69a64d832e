import NoteDecor.Notice.Term

/-!
Templates of notices: text, values between double braces, loops between percent signs, and
comments. A line break right behind a loop mark or a comment belongs to the mark; a minus at an edge
of a mark takes all blanks beside it.
-/

namespace NoteDecor.Notice

inductive Part where
  | text (s : String)
  | output (t : Term)
  | each (name : String) (items : Term) (body : List Part)
  deriving Repr

namespace Part

def loopName : String := "loop"

mutual

def isSound : Part → Bool
  | text _ => true
  | output t => t.isKnown
  | each x items body => x != loopName && items.isKnown && allSound body

def allSound : List Part → Bool
  | [] => true
  | p :: ps => p.isSound && allSound ps

end

end Part

namespace Template

inductive Piece where
  | text (s : List Char)
  | output (inner : List Char)
  | mark (inner : List Char)

def before? (a b : Char) : List Char → Option (List Char × List Char)
  | x :: y :: r =>
    if x = a ∧ y = b then some ([], r)
    else (before? a b (y :: r)).map fun p => (x :: p.1, p.2)
  | _ => none

def dropBreak (s : List Char) : List Char :=
  match s with
  | '\n' :: r => r
  | _ => s

/-- What stands within a mark, whether the text in front of it loses the blanks at its end, and the
text behind it. -/
structure Mark where
  inner : List Char
  pulls : Bool
  rest : List Char

/-- Whether a mark starts with a minus or a plus, which are no part of what it holds. -/
def opening (s : List Char) : Bool × List Char :=
  match s with
  | '-' :: r => (true, r)
  | '+' :: r => (false, r)
  | _ => (false, s)

/-- Reads a mark to its end. A line break behind it stays if a plus says so. -/
def mark? (edge : Char) (takesBreak : Bool) (s : List Char) : Option Mark := do
  let (pulls, s) := opening s
  let (inner, rest) ← before? edge '\x7d' s
  if inner.getLast? = some '-' then return ⟨inner.dropLast, pulls, rest.dropWhile Text.isBlank⟩
  if takesBreak && inner.getLast? = some '+' then return ⟨inner.dropLast, pulls, rest⟩
  return ⟨inner, pulls, if takesBreak then dropBreak rest else rest⟩

def textPiece (pulls : Bool) (before : List Char) : List Piece :=
  match if pulls then before.dropWhile Text.isBlank else before with
  | [] => []
  | cs => [.text cs.reverse]

/-- The pieces of a text, the start of which is already read and stands last character first. -/
def pieces : Nat → (before : List Char) → List Char → Option (List Piece)
  | 0, before, _ | _, before, [] => some (textPiece false before)
  | fuel + 1, before, '\x7b' :: '\x7b' :: r => do
    let m ← mark? '\x7d' false r
    return textPiece m.pulls before ++ .output m.inner :: (← pieces fuel [] m.rest)
  | fuel + 1, before, '\x7b' :: '%' :: r => do
    let m ← mark? '%' true r
    return textPiece m.pulls before ++ .mark m.inner :: (← pieces fuel [] m.rest)
  | fuel + 1, before, '\x7b' :: '#' :: r => do
    let m ← mark? '#' true r
    return textPiece m.pulls before ++ (← pieces fuel [] m.rest)
  | fuel + 1, before, c :: r => pieces fuel (c :: before) r

structure Open where
  name : String
  items : Term
  earlier : List Part

def nest : List Open → List Part → List Piece → Option (List Part)
  | [], parts, [] => some parts.reverse
  | _ :: _, _, [] => none
  | loops, parts, .text s :: r => nest loops (.text (String.ofList s) :: parts) r
  | loops, parts, .output s :: r => do
    nest loops (.output (← Term.ofWords? (Term.wordsOf s)) :: parts) r
  | loops, parts, .mark s :: r =>
    match Term.wordsOf s, loops with
    | .name "for" :: .name x :: .name "in" :: ws, _ => do
      if x = "in" || Term.isConstant x then none
      else nest (⟨x, ← Term.ofWords? ws, parts⟩ :: loops) [] r
    | [.name "endfor"], o :: loops => nest loops (.each o.name o.items parts.reverse :: o.earlier) r
    | _, _ => none

def body (s : String) : List Char :=
  let cs := Text.unifyBreaks s.toList
  if cs.getLast? = some '\n' then cs.dropLast else cs

def ofText? (s : String) : Option (List Part) := do
  let cs := body s
  nest [] [] (← pieces (cs.length + 1) [] cs)

end Template

end NoteDecor.Notice
