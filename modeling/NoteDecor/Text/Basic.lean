/-!
Text as lists of characters: splitting at a separator, the two containments that match tokens
use, trimming and line breaks. What a text says is its list of characters.
-/

namespace NoteDecor.Text

def split (sep : Char) : List Char → List (List Char)
  | [] => [[]]
  | c :: r =>
    if c = sep then [] :: split sep r
    else match split sep r with
      | [] => [[c]]
      | p :: ps => (c :: p) :: ps

theorem split_ne_nil (sep : Char) (s : List Char) : split sep s ≠ [] := by
  cases s with
  | nil => simp [split]
  | cons c r => unfold split; split <;> (try split) <;> simp

def splitText (sep : Char) (s : String) : List String :=
  (split sep s.toList).map String.ofList

theorem splitText_ne_nil (sep : Char) (s : String) : splitText sep s ≠ [] :=
  mt List.map_eq_nil_iff.1 (split_ne_nil sep s.toList)

def join (sep : List Char) : List (List Char) → List Char
  | [] => []
  | [p] => p
  | p :: q :: ps => p ++ sep ++ join sep (q :: ps)

def joinText (sep : String) (parts : List String) : String :=
  String.ofList (join sep.toList (parts.map String.toList))

def startsWith (start s : String) : Bool := start.toList.isPrefixOf s.toList

def occurs (part : List Char) : List Char → Bool
  | [] => part.isEmpty
  | c :: r => part.isPrefixOf (c :: r) || occurs part r

def contains (part s : String) : Bool := occurs part.toList s.toList

theorem startsWith_iff (start s : String) : startsWith start s ↔ start.toList <+: s.toList := by
  simp [startsWith, List.isPrefixOf_iff_prefix]

theorem occurs_iff (part s : List Char) : occurs part s ↔ part <:+: s := by
  induction s with
  | nil => simp [occurs]
  | cons c r ih =>
    simp [occurs, ih, List.infix_cons_iff, List.isPrefixOf_iff_prefix]

def inRanges (table : List (Nat × Nat)) (n : Nat) : Bool :=
  table.any fun r => r.1 ≤ n && n ≤ r.2

def blanks : List (Nat × Nat) :=
  [(9, 13), (28, 32), (133, 133), (160, 160), (5760, 5760), (8192, 8202), (8232, 8233),
    (8239, 8239), (8287, 8287), (12288, 12288)]

def isBlank (c : Char) : Bool := inRanges blanks c.toNat

def strip (p : Char → Bool) (s : List Char) : List Char :=
  ((s.dropWhile p).reverse.dropWhile p).reverse

def trim (s : List Char) : List Char := strip isBlank s

def dropLast (c : Char) (s : List Char) : List Char := (s.reverse.dropWhile (· == c)).reverse

def unifyBreaks : List Char → List Char
  | [] => []
  | '\r' :: '\n' :: r => '\n' :: unifyBreaks r
  | '\r' :: r => '\n' :: unifyBreaks r
  | c :: r => c :: unifyBreaks r

end NoteDecor.Text
