import NoteDecor.Value.Equal

/-!
Settings in five layers. A key path leads through nested mappings; the highest layer that holds
something under it decides. What is stored in a mapping that is held in several places is seen in
all of them.
-/

namespace NoteDecor

namespace Settings

/-- Where settings come from, lowest precedence first. -/
inductive Source where
  | defaults
  | file
  | environment
  | arguments
  | runtime
  deriving DecidableEq, Repr, Inhabited

def Source.all : List Source := [defaults, file, environment, arguments, runtime]

/-- A value on the way that has no members, or that takes no assignment; or two values that hold
themselves in the same way, so that merging them has no end. -/
inductive PathFault where
  | noMembers
  | noAssignment
  | endless
  deriving DecidableEq, Repr

def keyPath (key : String) : List String := Text.splitText '.' key

theorem keyPath_ne_nil (key : String) : keyPath key ≠ [] := Text.splitText_ne_nil '.' key

end Settings

namespace Value

open Settings

def mapping? (v : Value) : Option Entries :=
  match v.opened with
  | map es => some es
  | _ => none

def at? : List String → Value → Option Value
  | [], v => some v
  | k :: ks, v => do
    let es ← v.mapping?
    at? ks (← es.field? k)

/-- Stores below a cell. What lies on the way becomes a cell as well. -/
def setInCell (cells : List Value) (n : Nat) (path : List String) (new : Value) :
    Except PathFault (List Value) :=
  match path, cells.getD n null with
  | [], _ => .ok cells
  | [k], map es => .ok (cells.set n (map (Entries.setField k new es)))
  | k :: ks, map es =>
    match (Entries.field? es k).getD (map []) with
    | cell m => setInCell cells m ks new
    | inner =>
      let m := cells.length
      setInCell (cells.set n (map (Entries.setField k (cell m) es)) ++ [inner]) m ks new
  | [_], _ => .error .noAssignment
  | _ :: _ :: _, _ => .error .noMembers

/-- Mappings that are not there yet are made on the way. -/
def setAt (v : Value) (path : List String) (new : Value) : Except PathFault Value :=
  match path, v with
  | [], _ => .ok new
  | path, knot cells n => do return knot (← setInCell cells n path new) n
  | [k], map es => .ok (map (Entries.setField k new es))
  | k :: ks, map es => do
    return map (Entries.setField k (← ((Entries.field? es k).getD (map [])).setAt ks new) es)
  | [_], _ => .error .noAssignment
  | _ :: _ :: _, _ => .error .noMembers

mutual

def mappings : Value → Nat
  | map es => mappingsInEach es + 1
  | knot cells _ => mappingsInAll cells + 1
  | _ => 0

def mappingsInAll : List Value → Nat
  | [] => 0
  | x :: xs => mappings x + mappingsInAll xs

def mappingsInEach : Entries → Nat
  | [] => 0
  | (_, v) :: r => mappings v + mappingsInEach r

end

/-- Entries merged over others: two mappings under one key are merged in turn, and any other value
replaces what was there. -/
def mergeEntries : Nat → (base es : Entries) → Except PathFault Entries
  | 0, _, _ => .error .endless
  | fuel + 1, base, es => es.foldlM (fun acc e =>
      match (acc.get? e.1).bind mapping?, e.2.mapping? with
      | some old, some new => do return acc.put e.1 (map (← mergeEntries fuel old new))
      | _, _ => .ok (acc.put e.1 e.2)) base

/-- A value merged over entries. Two mappings that meet once more while they are merged meet without
end, so that there are never more meetings than pairs. -/
def merge (v : Value) (base : Entries) : Except PathFault Entries :=
  match v.mapping? with
  | some es => mergeEntries (((map base).mappings + 1) * (v.mappings + 1)) base es
  | none => .error .noMembers

end Value

namespace Settings

abbrev Layers := Source → Option Value

namespace Layers

def set (l : Layers) (s : Source) (v : Value) : Layers := fun t => if t = s then some v else l t

/-- The value that a layer holds under a key path. Nothing there counts as no value. -/
def held? (l : Layers) (s : Source) (path : List String) : Option Value :=
  ((l s).bind (Value.at? path)).filter fun v => !v.isNull

def get? (l : Layers) (key : String) : Option Value :=
  Source.all.reverse.findSome? fun s => l.held? s (keyPath key)

def get (l : Layers) (key : String) (default : Value) : Value := (l.get? key).getD default

/-- Stores a value that nothing else holds; `Objects` tells of one that something else does. -/
def put (l : Layers) (key : String) (v : Value) (s : Source) : Except PathFault Layers := do
  return l.set s (← ((l s).getD (.map [])).setAt (keyPath key) v)

def mergeLayer (base : Entries) : Option Value → Except PathFault Entries
  | none => .ok base
  | some v => v.merge base

def all (l : Layers) : Except PathFault Entries :=
  Source.all.foldlM (fun base s => mergeLayer base (l s)) []

end Layers

/-- The key under which all settings of the program lie. -/
def root : String := "fmdecorator"

def defaults : Value := .record [(root, .record [
  ("vault", .text "."),
  ("rules", .list []),
  ("logging", .record [("level", .text "INFO"), ("file", .null)]),
  ("loader", .record [("background", .bool true)])])]

def Layers.start : Layers := fun s => if s = .defaults then some Settings.defaults else none

end Settings

end NoteDecor
