import NoteDecor.Value.Basic

/-!
Equality of values. Whole numbers, floating point numbers and truth values compare as numbers, a
list never equals a tuple, and mappings are equal when they hold equal values under equal keys. What
holds itself equals nothing.
-/

namespace NoteDecor

namespace Value

/-- Whole and floating point numbers under one roof; `true` is one and `false` is zero. -/
inductive Amount where
  | whole (n : Int)
  | binary (x : Binary64)

def Amount.equals : Amount → Amount → Bool
  | whole m, whole n => m == n
  | whole m, binary x | binary x, whole m => x.toInt? == some m
  | binary x, binary y => x.equals y

def amount? : Value → Option Amount
  | bool b => some (.whole (if b then 1 else 0))
  | int n => some (.whole n)
  | float x => some (.binary x)
  | _ => none

def sameAmount (a b : Value) : Bool :=
  match a.amount?, b.amount? with
  | some x, some y => x.equals y
  | _, _ => false

mutual

def same : Value → Value → Bool
  | null, null => true
  | text s, text t => s == t
  | bytes s, bytes t => s == t
  | date d, date e => d == e
  | moment m, moment n => m.same n
  | list xs, list ys => sameList xs ys
  | tuple xs, tuple ys => sameList xs ys
  | set xs, set ys => xs.length == ys.length && sameMembers xs ys
  | map es, map fs | map es, sealed fs | sealed es, map fs | sealed es, sealed fs =>
    es.length == fs.length && sameEntries es fs
  | badge a b c, badge x y z => same a x && same b y && same c z
  | outcome a b, outcome x y => same a x && same b y
  | v, w => sameAmount v w

def sameList : List Value → List Value → Bool
  | [], [] => true
  | x :: xs, y :: ys => same x y && sameList xs ys
  | _, _ => false

def sameMembers : List Value → List Value → Bool
  | [], _ => true
  | x :: xs, ys => ys.any (same x ·) && sameMembers xs ys

def sameEntries : Entries → Entries → Bool
  | [], _ => true
  | (k, v) :: r, fs => fs.any (fun f => same k f.1 && same v f.2) && sameEntries r fs

end

mutual

/-- Only values that cannot change may be keys. -/
def canBeKey : Value → Bool
  | tuple xs => allKeys xs
  | list _ | set _ | map _ | sealed _ | badge .. | outcome .. | cell _ | knot .. => false
  | _ => true

def allKeys : List Value → Bool
  | [] => true
  | x :: xs => canBeKey x && allKeys xs

end

end Value

namespace Entries

def get? (es : Entries) (key : Value) : Option Value :=
  (es.find? fun e => key.same e.1).map (·.2)

/-- An equal key keeps its first spelling and its place. -/
def put (key v : Value) : Entries → Entries
  | [] => [(key, v)]
  | e :: r => if key.same e.1 then (e.1, v) :: r else e :: put key v r

def putAll (es : Entries) (more : Entries) : Entries :=
  more.foldl (fun acc e => put e.1 e.2 acc) es

def ofList (es : Entries) : Entries := putAll [] es

end Entries

def Value.walk? (v : Value) : Option (List Value) :=
  match v.opened with
  | text s => some (s.toList.map fun c => .text (String.singleton c))
  | bytes bs => some (bs.map fun b => .int b.toNat)
  | list xs | tuple xs | set xs => some xs
  | map es | sealed es => some (es.map (·.1))
  | _ => none

end NoteDecor
