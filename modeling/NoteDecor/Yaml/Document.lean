import NoteDecor.Text.LetterCase
import NoteDecor.Text.Utf8
import NoteDecor.Value.Slots
import NoteDecor.Yaml.Node

/-!
The value of a document. A node is read once, however often it is named. Containers start empty
and are filled in the order in which they were met; a mapping's merge keys are resolved just
before it is filled.
-/

namespace NoteDecor.Yaml

namespace Scalar

def withoutUnderscores (s : List Char) : List Char := s.filter (· != '_')

def readWhole (base : Nat) (s : List Char) : Result Int :=
  (Numeral.readInt base s).mapError (.whole base (String.ofList s))

def sexagesimal (parts : List Int) : Int := parts.foldl (fun n d => n * 60 + d) 0

def wholeNumber (s : List Char) : Result Int :=
  match s with
  | [] => .error .noDigits
  | ['0'] => .ok 0
  | '0' :: 'b' :: r => readWhole 2 r
  | '0' :: 'x' :: r => readWhole 16 r
  | '0' :: _ => readWhole 8 s
  | _ =>
    if s.contains ':' then return sexagesimal (← (Text.split ':' s).mapM (readWhole 10))
    else readWhole 10 s

def signAndBody (s : List Char) : Result (Bool × List Char) :=
  match s with
  | [] => .error .noDigits
  | '-' :: r => .ok (true, r)
  | '+' :: r => .ok (false, r)
  | _ => .ok (false, s)

def int (text : String) : Result Value := do
  let (negative, body) ← signAndBody (withoutUnderscores text.toList)
  let n ← wholeNumber body
  return .int (if negative then -n else n)

def readDecimal (s : List Char) : Result Binary64 :=
  match Numeral.readDecimal s with
  | some x => .ok x
  | none => .error (.decimal (String.ofList s))

def addParts (power : Nat) (sum : Binary64) : List Binary64 → Result Binary64
  | [] => .ok sum
  | x :: xs =>
    match Binary64.ofNat power with
    | .infinite _ => .error .tooLarge
    | scale => addParts (power * 60) (sum.add (x.mul scale)) xs

def notANumber : List Char := ".nan".toList

def decimalNumber (s : List Char) : Result Binary64 := do
  if s = ".inf".toList then return .infinite false
  if s = notANumber then return .nan
  if s.contains ':' then addParts 1 (.ofNat 0) (← (Text.split ':' s).mapM readDecimal).reverse
  else readDecimal s

def decimalBody (text : String) : Result (Bool × List Char) :=
  signAndBody (Text.lower (String.ofList (withoutUnderscores text.toList))).toList

def float (text : String) : Result Value := do
  let (negative, body) ← decimalBody text
  let x ← decimalNumber body
  return .float (if negative then x.negate else x)

/-- The value without a number is one and the same wherever it is written in this way. -/
def isNotANumber (text : String) : Bool :=
  match decimalBody text with
  | .ok (_, body) => body == notANumber
  | .error _ => false

def bool (text : String) : Result Value :=
  let word := Text.lower text
  match Tag.truths.find? fun t => t.1 == word with
  | some (_, b) => .ok (.bool b)
  | none => .error (.truth word)

def timestamp (text : String) : Result Value :=
  match Stamp.ofText? (withoutBreak text.toList) with
  | none => .error .moment
  | some t =>
    match t.time with
    | none => ((Calendar.checkDate t.date).map Value.date).mapError .calendar
    | some (h, m, s, micro, zone) =>
      ((Calendar.checkMoment ⟨t.date, h, m, s, micro, zone⟩).map Value.moment).mapError .calendar

def base64Digit? (c : Char) : Option Nat :=
  if 'A' ≤ c ∧ c ≤ 'Z' then some (c.toNat - 65)
  else if 'a' ≤ c ∧ c ≤ 'z' then some (c.toNat - 71)
  else if c.isDigit then some (c.toNat + 4)
  else if c == '+' then some 62 else if c == '/' then some 63 else none

/-- Four digits to three octets. `held` digits wait with their bits; whatever is no digit is passed
over, and padding ends the text once it is complete. -/
def octets : (held bits pads : Nat) → List Char → Result (List UInt8)
  | held, _, _, [] => if held = 0 then .ok [] else .error .malformed
  | held, bits, pads, c :: r =>
    if c == '=' then
      if 2 ≤ held ∧ 4 ≤ held + pads + 1 then .ok []
      else octets held bits (if 2 ≤ held then pads + 1 else pads) r
    else match base64Digit? c with
      | none => octets held bits pads r
      | some d =>
        let all := bits * 64 + d
        if held = 0 then octets 1 d 0 r
        else if held = 1 then do return (all / 16).toUInt8 :: (← octets 2 (all % 16) 0 r)
        else if held = 2 then do return (all / 4).toUInt8 :: (← octets 3 (all % 4) 0 r)
        else do return all.toUInt8 :: (← octets 0 0 0 r)

def binary (text : String) : Result Value := do
  if text.toList.any fun c => 128 ≤ c.toNat then throw .malformed
  return .bytes (← octets 0 0 0 text.toList)

def value (t : Tag) (text : String) : Result Value :=
  match t with
  | .null => .ok .null
  | .bool => bool text
  | .int => int text
  | .float => float text
  | .binary => binary text
  | .timestamp => timestamp text
  | .str => .ok (.text text)
  | _ => .error .malformed

end Scalar

/-- `made` are the values of nodes that were met, containers among them as cells. `waiting` are the
nodes of containers that are still empty, each with its cell, oldest first. -/
structure Build where
  graph : Graph
  made : Array (Option Value)
  cells : Array Value
  waiting : List (Nat × Nat)
  isShared : Bool

abbrev Builder := StateT Build (Except Fault)

namespace Build

def start (g : Graph) : Build := ⟨g, Array.replicate g.size none, #[], [], false⟩

def node (n : Nat) : Builder Node := return (← get).graph.getD n default

def setNode (n : Nat) (x : Node) : Builder Unit :=
  modify fun b => { b with graph := b.graph.setIfInBounds n x }

def refuse {α : Type} : Builder α := throw .malformed

def entriesOf (n : Nat) : Builder (List (Nat × Nat)) := do
  match (← node n).content with
  | .mapping es => return es
  | _ => return []

def setEntries (n : Nat) (es : List (Nat × Nat)) : Builder Unit := do
  setNode n { ← node n with content := .mapping es }

/-- The entries that a merge key brings in: those of a mapping, or of a list of mappings, of which
the first goes last. Each mapping is flattened before. -/
def brought (flatten : Nat → Builder Unit) (n : Nat) : Builder (List (Nat × Nat)) := do
  let mapping (m : Nat) : Builder (List (Nat × Nat)) := do
    match (← node m).content with
    | .mapping _ => flatten m; entriesOf m
    | _ => refuse
  match (← node n).content with
  | .sequence ns => return (← ns.mapM mapping).reverse.flatten
  | _ => mapping n

/-- Takes out merge keys and yields what they bring in. `done` holds the entries passed already.
A mapping that came to merge itself is flattened by then. -/
def mergedInto (flatten : Nat → Builder Unit) (n : Nat) (done : List (Nat × Nat)) :
    List (Nat × Nat) → Builder (List (Nat × Nat))
  | [] => return []
  | (k, v) :: rest => do
    let key ← node k
    match key.tag with
    | .merge =>
      setEntries n (done ++ rest)
      let es ← brought flatten v
      if (← entriesOf n) = done ++ rest then
        return es ++ (← mergedInto flatten n done rest)
      else return es
    | .value =>
      setNode k { key with tag := .str }
      mergedInto flatten n (done ++ [(k, v)]) rest
    | _ => mergedInto flatten n (done ++ [(k, v)]) rest

def flatten : Nat → Nat → Builder Unit
  | 0, _ => refuse
  | fuel + 1, n => do
    let merged ← mergedInto (flatten fuel) n [] (← entriesOf n)
    setEntries n (merged ++ (← entriesOf n))

def entryCount (g : Graph) : Nat :=
  (g.toList.flatMap fun x => match x.content with
    | .mapping es => es
    | _ => []).length

def scalarText (g : Graph) : Nat → Node → Result String
  | 0, _ => .error .endless
  | fuel + 1, x =>
    match x.content with
    | .scalar text => .ok text
    | .sequence _ => .error .malformed
    | .mapping es =>
      match es.find? fun e => (g.getD e.1 default).tag = .value with
      | some (_, v) => scalarText g fuel (g.getD v default)
      | none => .error .malformed

def scalar (x : Node) : Builder Value := do
  let g := (← get).graph
  let text ← scalarText g (g.size + 1) x
  match x.tag, x.content with
  | .timestamp, .mapping _ => throw .notText
  | _, _ => Scalar.value x.tag text

def isCollection (t : Tag) : Bool := [.seq, .map, .set, .omap, .pairs].contains t

def newCell (v : Value) : Builder Nat :=
  modifyGet fun b => (b.cells.size, { b with cells := b.cells.push v })

def container (n : Nat) : Builder Value := do
  let cell ← newCell .null
  modify fun b => { b with waiting := b.waiting ++ [(n, cell)] }
  return .cell cell

def knownTag (t : Tag) : Bool := !([.merge, .value, .unknown] : List Tag).contains t

def value (n : Nat) : Builder Value := do
  match (← get).made.getD n none with
  | some v =>
    modify fun b => { b with isShared := b.isShared || !v.mentioned.isEmpty }
    return v
  | none =>
    let x ← node n
    let v ← if isCollection x.tag then container n
      else if knownTag x.tag then scalar x else refuse
    modify fun b => { b with made := b.made.setIfInBounds n (some v) }
    return v

/-- A key with its value. What is no number equals nothing, so that only the same one is the same
key; it is known by where it came from. -/
structure Entry where
  key : Value
  origin : Option Nat
  value : Value

def putEntry (e : Entry) : List Entry → List Entry
  | [] => [e]
  | x :: r =>
    if e.key.same x.key || (e.origin.isSome && e.origin == x.origin) then
      { x with value := e.value } :: r
    else x :: putEntry e r

def origin? (n : Nat) (x : Node) : Value → Option Nat
  | .float .nan =>
    match x.content with
    | .scalar text => some (if Scalar.isNotANumber text then 0 else n + 1)
    | _ => some (n + 1)
  | _ => none

def entry (e : Nat × Nat) : Builder Entry := do
  let key ← value e.1
  if !key.canBeKey then refuse
  return ⟨key, origin? e.1 (← node e.1) key, ← value e.2⟩

def mappingEntries (n : Nat) : Builder (List Entry) := do
  match (← node n).content with
  | .mapping _ =>
    flatten (entryCount (← get).graph + 1) n
    return (← (← entriesOf n).mapM entry).foldl (fun es e => putEntry e es) []
  | _ => refuse

def items (n : Nat) : Builder (List Nat) := do
  match (← node n).content with
  | .sequence ns => return ns
  | _ => refuse

def pair (n : Nat) : Builder Value := do
  match (← node n).content with
  | .mapping [(k, v)] => do
    let key ← value k
    return .cell (← newCell (.tuple [key, ← value v]))
  | _ => refuse

def content (n : Nat) : Builder Value := do
  match (← node n).tag with
  | .seq => return .list (← (← items n).mapM value)
  | .set => return .set (Value.inSlotOrder ((← mappingEntries n).map Entry.key))
  | .omap | .pairs => return .list (← (← items n).mapM pair)
  | _ => return .map ((← mappingEntries n).map fun e => (e.key, e.value))

def fillAll : Nat → Builder Unit
  | 0 => return ()
  | fuel + 1 => do
    match (← get).waiting with
    | [] => return ()
    | (n, cell) :: waiting =>
      modify fun b => { b with waiting }
      let v ← content n
      modify fun b => { b with cells := b.cells.setIfInBounds cell v }
      fillAll fuel

def tree (cells : Array Value) : Nat → Nat → Value
  | 0, _ => .null
  | fuel + 1, n => (cells.getD n .null).fillCells (tree cells fuel)

def finished (b : Build) : Value → Value
  | .cell n => if b.isShared then .knot b.cells.toList n else tree b.cells b.cells.size n
  | v => v

def ofGraph (g : Graph) (root : Nat) : Result Value := do
  let make : Builder Value := do
    let v ← value root
    fillAll g.size
    return v
  let (v, b) ← make.run (start g)
  return b.finished v

end Build

/-- The text of a file. What is missing at its end is reported from where it began. -/
def decode (bs : List UInt8) : Except Text.Utf8.Fault (List Char) :=
  match Text.Utf8.decode bs with
  | .ok cs => .ok (Text.unifyBreaks cs)
  | .error f =>
    .error (if f.reason = .truncated then { f with start := 0, stop := f.stop - f.start } else f)

def firstPiece : Nat := 8192

/-- The text of a file that is decoded piece by piece. If it is no text, either the octets are told
that are none, or nothing is, since what stands before them was found malformed first. -/
def readText (late : List UInt8 → Option Text.Utf8.Fault) (bs : List UInt8) :
    Except (Option Text.Utf8.Fault) (List Char) :=
  (decode bs).mapError fun f => if bs.length ≤ firstPiece then some f else late bs

def load (s : List Char) : Result Value := do
  match (← Node.ofTokens? (Token.ofText s)) with
  | none => return .null
  | some (g, root) => Build.ofGraph g root

example : (load "a: [1, 'b c', ~]".toList).toOption.isSome := by decide +kernel

end NoteDecor.Yaml
