import NoteDecor.Yaml.Tag
import NoteDecor.Yaml.Token

/-!
The nodes of a document: its scalars, sequences and mappings with their kinds. Nodes are numbered
in the order in which they begin, and an alias is the number of the node that it stands for, which
may be one that has not ended yet.
-/

namespace NoteDecor.Yaml

inductive Content where
  | scalar (text : String)
  | sequence (items : List Nat)
  | mapping (entries : List (Nat × Nat))
  deriving Inhabited, Repr

structure Node where
  tag : Tag
  content : Content
  deriving Inhabited, Repr

abbrev Graph := Array Node

namespace Node

structure Reading where
  tokens : List Token
  anchors : List (String × Nat)
  handles : List (String × String)
  graph : Graph

abbrev Reader := StateT Reading (Except Fault)

def handles : List (String × String) := [("!", "!"), ("!!", Tag.home)]

def peek : Reader Token := do
  match (← get).tokens with
  | [] => return .streamEnd
  | .fault f :: _ => throw f
  | t :: _ => return t

def drop : Reader Unit := modify fun r => { r with tokens := r.tokens.drop 1 }

def refuse {α : Type} : Reader α := throw .malformed

def takeAnchor : Reader (Option String) := do
  match (← peek) with
  | .anchor name => drop; return some name
  | _ => return none

def takeTag : Reader (Option (Option String × String)) := do
  match (← peek) with
  | .tag handle suffix => drop; return some (handle, suffix)
  | _ => return none

def tagName (tag : Option String × String) : Reader String := do
  match tag.1 with
  | none => return tag.2
  | some handle =>
    match (← get).handles.find? fun h => h.1 == handle with
    | some (_, meaning) => return meaning ++ tag.2
    | none => refuse

def takeProperties : Reader (Option String × Option String) := do
  let first ← takeAnchor
  let tag ← takeTag
  let anchor ← if first.isNone && tag.isSome then takeAnchor else pure first
  return (anchor, ← tag.mapM tagName)

/-- The kind that a tag gives. The tag `!` alone leaves the matter open. -/
def kindOf (tag : Option String) (default : Tag) : Tag :=
  match tag with
  | none => default
  | some name => if name == "!" then default else Tag.ofName name

def scalarKind (tag : Option String) (text : String) (isPlain : Bool) : Tag :=
  kindOf tag (if isPlain || tag.isSome then Tag.ofPlain text.toList else .str)

def add (tag : Tag) (content : Content) : Reader Nat :=
  modifyGet fun r => (r.graph.size, { r with graph := r.graph.push ⟨tag, content⟩ })

def empty : Reader Nat := add .null (.scalar "")

def bindAnchor (anchor : Option String) (n : Nat) : Reader Unit := do
  if let some name := anchor then
    modify fun r => { r with anchors := (name, n) :: r.anchors }

def checkAnchor (anchor : Option String) : Reader Unit := do
  if let some name := anchor then
    if (← get).anchors.any fun a => a.1 == name then refuse

def addAround (tag : Tag) (anchor : Option String) (parts : Reader Content) : Reader Nat := do
  let n ← add tag (.scalar "")
  bindAnchor anchor n
  let content ← parts
  modify fun r => { r with graph := r.graph.setIfInBounds n ⟨tag, content⟩ }
  return n

mutual

/-- Reads a node. Blocks may begin here only if `inBlock`, and a sequence whose entries are not
indented only if `flat`. -/
def read : Nat → (inBlock flat : Bool) → Reader Nat
  | 0, _, _ => refuse
  | fuel + 1, inBlock, flat => do
    if let .alias name ← peek then
      drop
      match (← get).anchors.find? fun a => a.1 == name with
      | some (_, n) => return n
      | none => refuse
    else
      let (anchor, tag) ← takeProperties
      body fuel inBlock flat anchor tag (anchor.isNone && tag.isNone)

def body : Nat → (inBlock flat : Bool) → (anchor tag : Option String) → (bare : Bool) → Reader Nat
  | 0, _, _, _, _, _ => refuse
  | fuel + 1, inBlock, flat, anchor, tag, bare => do
    let next ← peek
    let scalar (text : String) (isPlain : Bool) : Reader Nat := do
      let n ← add (scalarKind tag text isPlain) (.scalar text)
      bindAnchor anchor n
      return n
    let sequence (items : Reader (List Nat)) : Reader Nat := do
      addAround (kindOf tag .seq) anchor (return .sequence (← items))
    let mapping (entries : Reader (List (Nat × Nat))) : Reader Nat := do
      addAround (kindOf tag .map) anchor (return .mapping (← entries))
    match inBlock, flat, next with
    | _, true, .blockEntry =>
      checkAnchor anchor
      sequence (flatEntries fuel)
    | _, _, .scalar text isPlain =>
      drop
      checkAnchor anchor
      scalar text isPlain
    | _, _, .flowSequence =>
      drop
      checkAnchor anchor
      sequence (flowItems fuel true)
    | _, _, .flowMapping =>
      drop
      checkAnchor anchor
      mapping (flowEntries fuel true)
    | true, _, .blockSequence =>
      drop
      checkAnchor anchor
      sequence (blockItems fuel)
    | true, _, .blockMapping =>
      drop
      checkAnchor anchor
      mapping (blockEntries fuel)
    | _, _, _ =>
      if bare then refuse
      checkAnchor anchor
      scalar "" true

def readUnless : Nat → List Token → (inBlock flat : Bool) → Reader Nat
  | 0, _, _, _ => refuse
  | fuel + 1, ends, inBlock, flat => do
    if ends.contains (← peek) then empty else read fuel inBlock flat

def blockItems : Nat → Reader (List Nat)
  | 0 => refuse
  | fuel + 1 => do
    match (← peek) with
    | .blockEntry =>
      drop
      let n ← readUnless fuel [.blockEntry, .blockEnd] true false
      return n :: (← blockItems fuel)
    | .blockEnd => drop; return []
    | _ => refuse

def flatEntries : Nat → Reader (List Nat)
  | 0 => refuse
  | fuel + 1 => do
    match (← peek) with
    | .blockEntry =>
      drop
      let n ← readUnless fuel [.blockEntry, .key, .value, .blockEnd] true false
      return n :: (← flatEntries fuel)
    | _ => return []

def blockEntries : Nat → Reader (List (Nat × Nat))
  | 0 => refuse
  | fuel + 1 => do
    match (← peek) with
    | .key =>
      drop
      let k ← readUnless fuel [.key, .value, .blockEnd] true true
      let v ← blockValue fuel
      return (k, v) :: (← blockEntries fuel)
    | .blockEnd => drop; return []
    | _ => refuse

def blockValue : Nat → Reader Nat
  | 0 => refuse
  | fuel + 1 => do
    match (← peek) with
    | .value =>
      drop
      readUnless fuel [.key, .value, .blockEnd] true true
    | _ => empty

def flowValue : Nat → (close : Token) → Reader Nat
  | 0, _ => refuse
  | fuel + 1, close => do
    match (← peek) with
    | .value =>
      drop
      readUnless fuel [.flowEntry, close] false false
    | _ => empty

def flowItem : Nat → Reader Nat
  | 0 => refuse
  | fuel + 1 => do
    match (← peek) with
    | .key =>
      drop
      addAround .map none do
        let k ← readUnless fuel [.value, .flowEntry, .flowSequenceEnd] false false
        return .mapping [(k, ← flowValue fuel .flowSequenceEnd)]
    | _ => read fuel false false

def flowItems : Nat → (first : Bool) → Reader (List Nat)
  | 0, _ => refuse
  | fuel + 1, first => do
    if (← peek) = .flowSequenceEnd then
      drop
      return []
    if !first then
      if (← peek) = .flowEntry then drop else refuse
    if (← peek) = .flowSequenceEnd then
      drop
      return []
    let n ← flowItem fuel
    return n :: (← flowItems fuel false)

def flowPair : Nat → Reader (Nat × Nat)
  | 0 => refuse
  | fuel + 1 => do
    match (← peek) with
    | .key =>
      drop
      let k ← readUnless fuel [.value, .flowEntry, .flowMappingEnd] false false
      return (k, ← flowValue fuel .flowMappingEnd)
    | _ => return (← read fuel false false, ← empty)

def flowEntries : Nat → (first : Bool) → Reader (List (Nat × Nat))
  | 0, _ => refuse
  | fuel + 1, first => do
    if (← peek) = .flowMappingEnd then
      drop
      return []
    if !first then
      if (← peek) = .flowEntry then drop else refuse
    if (← peek) = .flowMappingEnd then
      drop
      return []
    let e ← flowPair fuel
    return e :: (← flowEntries fuel false)

end

def directives : Nat → (versioned : Bool) → List (String × String) → Reader (List (String × String))
  | 0, _, _ => refuse
  | fuel + 1, versioned, known => do
    match (← peek) with
    | .version major _ =>
      if versioned || major != 1 then refuse
      drop
      directives fuel true known
    | .handle handle meaning =>
      if known.any fun h => h.1 == handle then refuse
      drop
      directives fuel versioned ((handle, meaning) :: known)
    | .directive =>
      drop
      directives fuel versioned known
    | _ => return known

def skipEnds : Nat → Reader Unit
  | 0 => return ()
  | fuel + 1 => do
    if (← peek) = .documentEnd then
      drop
      skipEnds fuel

def isDirective : Token → Bool
  | .version .. | .handle .. | .directive => true
  | _ => false

def explicitDocument (fuel : Nat) : Reader Nat := do
  let own ← directives fuel false []
  modify fun r => { r with handles := own ++ handles }
  if (← peek) != .documentStart then refuse
  drop
  let t ← peek
  if isDirective t || t = .documentStart || t = .documentEnd || t = .streamEnd then empty
  else read fuel true false

def document? (fuel : Nat) : Reader (Option Nat) := do
  let t ← peek
  if t = .streamEnd then return none
  let n ← if isDirective t || t = .documentStart then explicitDocument fuel
    else read fuel true false
  if (← peek) = .documentEnd then drop
  skipEnds fuel
  if (← peek) = .streamEnd then return some n
  let _ ← directives fuel false []
  refuse

def ofTokens? (ts : List Token) : Result (Option (Graph × Nat)) := do
  let fuel := 5 * ts.length + 8
  let (root, r) ← (document? fuel).run ⟨ts, [], handles, #[]⟩
  return root.map (r.graph, ·)

end Node

end NoteDecor.Yaml
