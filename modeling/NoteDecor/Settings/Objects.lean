import NoteDecor.Settings.Layers

/-!
Settings as objects. The mappings and lists of all layers, and those that only a caller holds, are
numbered cells, so that one of them can be in several places, in one layer or in more. What is stored
is the object itself, wherever else it is held.
-/

namespace NoteDecor.Settings
open Value

structure Objects where
  cells : List Value
  roots : Source → Option Nat

namespace Objects

variable (o : Objects)

def layers : Layers := fun s => (o.roots s).map (knot o.cells)

def shown (v : Value) : Value := v.fillCells fun n => (knot o.cells n).settled

/-- Where a layer begins, or where it would. -/
def root (s : Source) : Nat := (o.roots s).getD o.cells.length

/-- With a mapping for the layer, if there is none yet. -/
def withLayer (s : Source) : Objects :=
  match o.roots s with
  | some _ => o
  | none => ⟨o.cells ++ [.map []], fun t => if t = s then some o.cells.length else o.roots t⟩

def put (key : String) (new : Value) (s : Source) : Except PathFault Objects := do
  let cells ← setInCell (o.withLayer s).cells (o.root s) (keyPath key) new
  return { o.withLayer s with cells }

/-- Storing where nothing watches. The layers are merged afterwards, for those who might. -/
def set (key : String) (new : Value) (s : Source) : Objects × Except PathFault Unit :=
  match o.put key new s with
  | .error f => (o, .error f)
  | .ok o => (o, o.layers.all.map fun _ => ())

end Objects

end NoteDecor.Settings
