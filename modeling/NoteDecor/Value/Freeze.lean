import NoteDecor.Value.Basic

/-!
Freezing turns every list into a tuple and seals every mapping, at any depth; thawing is the way
back to plain lists and mappings. Neither can be done to a value that holds itself. Such a value is
left as it is here, so that what is said of freezing is said of the program for values that end.
-/

namespace NoteDecor.Value

mutual

def freeze : Value → Value
  | map es | sealed es => sealed (freezeEntries es)
  | list xs | tuple xs => tuple (freezeList xs)
  | v => v

def freezeList : List Value → List Value
  | [] => []
  | x :: xs => freeze x :: freezeList xs

def freezeEntries : Entries → Entries
  | [] => []
  | (k, v) :: r => (k, freeze v) :: freezeEntries r

end

mutual

def ends : Value → Bool
  | map es | sealed es => endsEach es
  | list xs | tuple xs => endsAll xs
  | knot .. => false
  | _ => true

def endsAll : List Value → Bool
  | [] => true
  | x :: xs => ends x && endsAll xs

def endsEach : Entries → Bool
  | [] => true
  | (_, v) :: r => ends v && endsEach r

end

mutual

def thaw : Value → Value
  | map es | sealed es => map (thawEntries es)
  | list xs | tuple xs => list (thawList xs)
  | v => v

def thawList : List Value → List Value
  | [] => []
  | x :: xs => thaw x :: thawList xs

def thawEntries : Entries → Entries
  | [] => []
  | (k, v) :: r => (k, thaw v) :: thawEntries r

end

end NoteDecor.Value
