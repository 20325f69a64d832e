import NoteDecor.Calendar

/-!
The values that settings, frontmatter and rule functions are made of. Mappings keep the order in
which their keys were first stored.
-/

namespace NoteDecor

/-- A sealed mapping is one that cannot be changed; a badge and an outcome are what a rule
function may build itself, with whatever fields it likes. Containers that are held in several
places, or by themselves, are the numbered cells of a knot: among them `cell n` stands for the one
with that number, and `knot cells n` is this container seen from outside. -/
inductive Value where
  | null
  | bool (b : Bool)
  | int (n : Int)
  | float (x : Binary64)
  | text (s : String)
  | bytes (octets : List UInt8)
  | date (d : Date)
  | moment (m : Moment)
  | list (items : List Value)
  | tuple (items : List Value)
  | set (items : List Value)
  | map (entries : List (Value × Value))
  | sealed (entries : List (Value × Value))
  | badge (className text style : Value)
  | outcome (classNames elements : Value)
  | cell (n : Nat)
  | knot (cells : List Value) (n : Nat)
  deriving Inhabited, Repr

abbrev Entries := List (Value × Value)

namespace Value

mutual

def fillCells (f : Nat → Value) : Value → Value
  | cell n => f n
  | list xs => list (fillCellsAll f xs)
  | tuple xs => tuple (fillCellsAll f xs)
  | map es => map (fillCellsEach f es)
  | v => v

def fillCellsAll (f : Nat → Value) : List Value → List Value
  | [] => []
  | x :: xs => fillCells f x :: fillCellsAll f xs

def fillCellsEach (f : Nat → Value) : Entries → Entries
  | [] => []
  | (k, v) :: r => (k, fillCells f v) :: fillCellsEach f r

end

mutual

def mentioned : Value → List Nat
  | cell n => [n]
  | list xs | tuple xs => mentionedInAll xs
  | map es => mentionedInEach es
  | _ => []

def mentionedInAll : List Value → List Nat
  | [] => []
  | x :: xs => mentioned x ++ mentionedInAll xs

def mentionedInEach : Entries → List Nat
  | [] => []
  | (_, v) :: r => mentioned v ++ mentionedInEach r

end

def cellsOver (cells : List Value) (known : List Nat) : List Nat :=
  (List.range cells.length).filter fun n =>
    (cells.getD n null).mentioned.all known.contains

/-- Adds the cells below which every way ends, innermost first. -/
def growEnding (cells : List Value) : Nat → (known : List Nat) → List Nat
  | 0, known => known
  | fuel + 1, known =>
    let more := cellsOver cells known
    if more.length = known.length then known else growEnding cells fuel more

def endingCells (cells : List Value) : List Nat := growEnding cells cells.length []

/-- A cell as a tree if every way below it ends, and as a knot otherwise. -/
def untied (cells : List Value) (ending : List Nat) : Nat → Nat → Value
  | 0, n => knot cells n
  | fuel + 1, n =>
    if ending.contains n then (cells.getD n null).fillCells (untied cells ending fuel)
    else knot cells n

def settled : Value → Value
  | knot cells n => untied cells (endingCells cells) cells.length n
  | v => v

/-- The value with its outermost container in the open. -/
def opened : Value → Value
  | knot cells n =>
    (cells.getD n null).fillCells (untied cells (endingCells cells) cells.length)
  | v => v

/-- What a cell of a knot amounts to, if each amounts to what `parts` makes of its own cells. One
that is met again below itself amounts to `again`. -/
def tie {α : Type} (again : Nat → α) (parts : List ((Nat → α) → α)) :
    Nat → (above : List Nat) → Nat → α
  | 0, _, n => again n
  | fuel + 1, above, n =>
    if above.contains n then again n
    else match parts[n]? with
      | some part => part (tie again parts fuel (n :: above))
      | none => again n

def kind (v : Value) : String :=
  match v.opened with
  | null => "NoneType"
  | bool _ => "bool"
  | int _ => "int"
  | float _ => "float"
  | text _ => "str"
  | bytes _ => "bytes"
  | date _ => "date"
  | moment _ => "datetime"
  | list _ => "list"
  | tuple _ => "tuple"
  | set _ => "set"
  | map _ => "dict"
  | sealed _ => "mappingproxy"
  | badge .. => "DecorationElement"
  | outcome .. => "EvaluationResult"
  | cell _ | knot .. => ""

/-- Nothing, zero and whatever is empty do not count as set. -/
def isTrue (v : Value) : Bool :=
  match v.opened with
  | null => false
  | bool b => b
  | int n => n != 0
  | float x => !x.isZero
  | text s => s != ""
  | bytes bs => !bs.isEmpty
  | list xs | tuple xs | set xs => !xs.isEmpty
  | map es | sealed es => !es.isEmpty
  | _ => true

def isNull : Value → Bool
  | null => true
  | _ => false

def orElse (v default : Value) : Value := if v.isTrue then v else default

def text? : Value → Option String
  | text s => some s
  | _ => none

def items? (v : Value) : Option (List Value) :=
  match v.opened with
  | list xs | tuple xs => some xs
  | _ => none

def entries? (v : Value) : Option Entries :=
  match v.opened with
  | map es | sealed es => some es
  | _ => none

def isKey (s : String) : Value → Bool
  | text t => t == s
  | _ => false

end Value

namespace Entries

def field? (es : Entries) (key : String) : Option Value :=
  (es.find? fun e => e.1.isKey key).map (·.2)

def setField (key : String) (v : Value) : Entries → Entries
  | [] => [(.text key, v)]
  | e :: r => if e.1.isKey key then (e.1, v) :: r else e :: setField key v r

def fields (fs : List (String × Value)) : Entries := fs.map fun f => (.text f.1, f.2)

end Entries

def Value.record (fs : List (String × Value)) : Value := .map (Entries.fields fs)

def Value.texts (ss : List String) : Value := .list (ss.map .text)

example : ((Value.knot [.list [.cell 0]] 0).items?.map fun xs => xs.map Value.kind) =
    some ["list"] := by decide +kernel

example : ((Value.knot [.list [.cell 1, .cell 1], .list []] 0).settled matches
    .list [.list [], .list []]) := by decide +kernel

end NoteDecor
