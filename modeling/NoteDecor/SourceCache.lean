import NoteDecor.Number.Binary64
import NoteDecor.Value.Basic

/-!
The sources of rule files by path, exactly as the path is written, in the order in which paths
were first stored. Nothing is ever dropped but by clearing the whole cache.
-/

namespace NoteDecor

structure SourceCache where
  entries : List (String × String)
  hits : Nat
  misses : Nat
  writes : Nat
  deriving Repr

namespace SourceCache

def empty : SourceCache := ⟨[], 0, 0, 0⟩

instance : Inhabited SourceCache := ⟨empty⟩

def find? (c : SourceCache) (path : String) : Option String :=
  (c.entries.find? fun e => e.1 == path).map (·.2)

def contains (c : SourceCache) (path : String) : Bool := c.entries.any fun e => e.1 == path

def count (c : SourceCache) (path : String) : SourceCache :=
  if c.contains path then { c with hits := c.hits + 1 } else { c with misses := c.misses + 1 }

def put (path source : String) : List (String × String) → List (String × String)
  | [] => [(path, source)]
  | e :: r => if e.1 = path then (path, source) :: r else e :: put path source r

def store (c : SourceCache) (path source : String) : SourceCache :=
  { c with entries := put path source c.entries, writes := c.writes + 1 }

def clear (c : SourceCache) : SourceCache := { c with entries := [] }

def size (c : SourceCache) : Nat := c.entries.length

def paths (c : SourceCache) : List String := c.entries.map (·.1)

def hitRate (c : SourceCache) : Value :=
  let total := c.hits + c.misses
  if total = 0 then .int 0 else .float (.ofRatio false c.hits total)

def stats (c : SourceCache) : Value := .record
  [("entries", .int c.size), ("hits", .int c.hits), ("misses", .int c.misses),
    ("writes", .int c.writes), ("hit_rate", c.hitRate)]

end SourceCache

end NoteDecor
