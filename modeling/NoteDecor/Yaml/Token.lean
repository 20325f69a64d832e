import NoteDecor.Yaml.Scalar

/-!
The tokens of a document: its punctuation, its scalars, and the starts and ends of blocks that
follow from indentation. A key that is written without a mark is recognised by the colon behind
it, and its tokens are put in where the key began.
-/

namespace NoteDecor.Yaml

/-- The handle of a tag is absent if the tag is written in full. -/
inductive Token where
  | version (major minor : Nat)
  | handle (handle meaning : String)
  | directive
  | documentStart
  | documentEnd
  | streamEnd
  | blockSequence
  | blockMapping
  | blockEnd
  | flowSequence
  | flowMapping
  | flowSequenceEnd
  | flowMappingEnd
  | blockEntry
  | flowEntry
  | key
  | value
  | alias (name : String)
  | anchor (name : String)
  | tag (handle : Option String) (suffix : String)
  | scalar (text : String) (isPlain : Bool)
  | fault (f : Fault)
  deriving DecidableEq, Repr

namespace Markup

open Cursor

def name (c : Cursor) : Result (String × Cursor) :=
  let (word, c) := c.next.span isWord
  if word.isEmpty || !(isGap c.peek || isIn "?:,]\x7d%@`" c.peek) then .error .malformed
  else .ok (String.ofList word, c)

def tagHandle (c : Cursor) : Result (String × Cursor) :=
  if c.peek != '!' then .error .malformed
  else if c.peekAt 1 == ' ' then .ok ("!", c.next)
  else
    let (word, c) := c.next.span isWord
    if c.peek == '!' then .ok (String.ofList ('!' :: word ++ ['!']), c.next)
    else .error .malformed

def octets : Nat → Cursor → Result (List UInt8 × Cursor)
  | 0, c => .ok ([], c)
  | fuel + 1, c =>
    if c.peek == '%' then do
      let (n, c) ← c.next.hexNumber 2
      let (bs, c) ← octets fuel c
      return (n.toUInt8 :: bs, c)
    else .ok ([], c)

def isUriText (c : Char) : Bool := c.isAlphanum || isIn "-;/?:@&=+$,_.!~*'()[]" c

def uriFrom : Nat → Cursor → Result (List Char × Cursor)
  | 0, c => .ok ([], c)
  | fuel + 1, c => do
    let (word, c) := c.span isUriText
    if c.peek == '%' then
      let (bs, c) ← octets (c.rest.length + 1) c
      match Text.Utf8.decode bs with
      | .error _ => throw .malformed
      | .ok cs =>
        let (more, c) ← uriFrom fuel c
        return (word ++ cs ++ more, c)
    else return (word, c)

def uri (c : Cursor) : Result (String × Cursor) := do
  let (cs, c') ← uriFrom (c.rest.length + 1) c
  if c'.index = c.index then throw .malformed
  return (String.ofList cs, c')

def tagParts (c : Cursor) : Result (Option String × String × Cursor) := do
  let x := c.peekAt 1
  if x == '<' then
    let (suffix, c) ← uri (c.skip 2)
    if c.peek == '>' then return (none, suffix, c.next) else throw .malformed
  else if isGap x then return (none, "!", c.next)
  else
    let body := (c.rest.drop 1).takeWhile fun y => !(y == ' ' || isEnd y)
    let (handle, c) ← if body.contains '!' then tagHandle c else pure ("!", c.next)
    let (suffix, c) ← uri c
    return (some handle, suffix, c)

def tag (c : Cursor) : Result (Token × Cursor) := do
  let (handle, suffix, c) ← tagParts c
  if c.peek == ' ' || isEnd c.peek then return (.tag handle suffix, c) else throw .malformed

def number (c : Cursor) : Result (Nat × Cursor) :=
  let (ds, c) := c.span Char.isDigit
  if ds.isEmpty then .error .malformed
  else .ok (Numeral.ofDigits 10 (ds.map fun d => d.toNat - 48), c)

def isWordEnd (c : Char) : Bool := c == ' ' || isEnd c

def version (c : Cursor) : Result (Token × Cursor) := do
  let (major, c) ← number c.skipSpaces
  if c.peek != '.' then throw .malformed
  let (minor, c) ← number c.next
  if isWordEnd c.peek then return (.version major minor, c) else throw .malformed

def handle (c : Cursor) : Result (Token × Cursor) := do
  let (h, c) ← tagHandle c.skipSpaces
  if c.peek != ' ' then throw .malformed
  let (meaning, c) ← uri c.skipSpaces
  if isWordEnd c.peek then return (.handle h meaning, c) else throw .malformed

def directive (c : Cursor) : Result (Token × Cursor) := do
  let (word, c) := c.next.span isWord
  if word.isEmpty || !isWordEnd c.peek then throw .malformed
  let (token, c) ← match String.ofList word with
    | "YAML" => version c
    | "TAG" => handle c
    | _ => pure (.directive, (c.span fun x => !isEnd x).2)
  return (token, ← c.finishLine)

end Markup

/-- Where a key may have begun, by the number of tokens before it. One that starts its line in a
block must turn out to be a key. -/
structure KeyStart where
  flow : Nat
  tokens : Nat
  required : Bool
  index : Nat
  line : Nat
  column : Nat

/-- Tokens are kept newest first, and there is at most one possible key for each depth of flow. -/
structure Scanner where
  cursor : Cursor
  flow : Nat
  indent : Int
  indents : List Int
  keyAllowed : Bool
  keys : List KeyStart
  tokens : List Token

namespace Scanner

def start (s : List Char) : Scanner := ⟨.start s, 0, -1, [], true, [], []⟩

def emit (s : Scanner) (t : Token) : Scanner := { s with tokens := t :: s.tokens }

def insertAt (s : Scanner) (n : Nat) (t : Token) : Scanner :=
  let newer := s.tokens.length - n
  { s with tokens := s.tokens.take newer ++ t :: s.tokens.drop newer }

/-- A key begins and ends on one line, within so many characters. -/
def isStale (c : Cursor) (k : KeyStart) : Bool := k.line != c.line || 1024 < c.index - k.index

def dropStale : List KeyStart → Cursor → Result (List KeyStart)
  | [], _ => .ok []
  | k :: ks, c =>
    if isStale c k then
      if k.required then .error .malformed else dropStale ks c
    else do return k :: (← dropStale ks c)

def dropKey (s : Scanner) : Result Scanner :=
  if s.keys.any fun k => k.flow == s.flow && k.required then .error .malformed
  else .ok { s with keys := s.keys.filter fun k => k.flow != s.flow }

def saveKey (s : Scanner) : Result Scanner :=
  if s.keyAllowed then do
    let s ← s.dropKey
    let c := s.cursor
    let required := s.flow == 0 && s.indent == c.column
    return { s with
      keys := s.keys ++ [⟨s.flow, s.tokens.length, required, c.index, c.line, c.column⟩] }
  else .ok s

def closeBlocks (column : Int) : List Int → Int → List Token → Int × List Int × List Token
  | [], indent, tokens => (indent, [], tokens)
  | i :: is, indent, tokens =>
    if column < indent then closeBlocks column is i (.blockEnd :: tokens)
    else (indent, i :: is, tokens)

def unwind (s : Scanner) (column : Int) : Scanner :=
  if s.flow != 0 then s
  else
    let (indent, indents, tokens) := closeBlocks column s.indents s.indent s.tokens
    { s with indent, indents, tokens }

def indentTo (s : Scanner) (column : Nat) (tokens : Nat) (t : Token) : Scanner :=
  if s.indent < column then
    { s with indents := s.indent :: s.indents, indent := column }.insertAt tokens t
  else s

def allowKey (s : Scanner) (allowed : Bool) : Scanner := { s with keyAllowed := allowed }

def moveTo (s : Scanner) (c : Cursor) : Scanner := { s with cursor := c }

def skipGap : Nat → Scanner → Scanner
  | 0, s => s
  | fuel + 1, s =>
    let c := s.cursor.skipSpaces.skipComment
    if isBreak c.peek then
      skipGap fuel ((s.moveTo c.lineBreak.2).allowKey (s.keyAllowed || s.flow == 0))
    else s.moveTo c

def toNextToken (s : Scanner) : Scanner :=
  let c := s.cursor
  let s := if c.index == 0 && c.peek == '\uFEFF' then s.moveTo c.next else s
  s.skipGap (c.rest.length + 1)

def flowStart (s : Scanner) (t : Token) : Result Scanner := do
  let s ← s.saveKey
  return { s with flow := s.flow + 1, keyAllowed := true, cursor := s.cursor.next }.emit t

def flowEnd (s : Scanner) (t : Token) : Result Scanner := do
  let s ← s.dropKey
  return { s with flow := s.flow - 1, keyAllowed := false, cursor := s.cursor.next }.emit t

def flowEntry (s : Scanner) : Result Scanner := do
  let s ← (s.allowKey true).dropKey
  return (s.moveTo s.cursor.next).emit .flowEntry

def openBlock (s : Scanner) (t : Token) : Result Scanner :=
  if s.flow != 0 then .ok s
  else if s.keyAllowed then .ok (s.indentTo s.cursor.column s.tokens.length t)
  else .error .malformed

def blockEntry (s : Scanner) : Result Scanner := do
  let s ← s.openBlock .blockSequence
  let s ← (s.allowKey true).dropKey
  return (s.moveTo s.cursor.next).emit .blockEntry

def keyMark (s : Scanner) : Result Scanner := do
  let s ← s.openBlock .blockMapping
  let s ← (s.allowKey (s.flow == 0)).dropKey
  return (s.moveTo s.cursor.next).emit .key

def valueMark (s : Scanner) : Result Scanner := do
  match s.keys.find? fun k => k.flow == s.flow with
  | some k =>
    let s := { s with keys := s.keys.filter fun k => k.flow != s.flow }.insertAt k.tokens .key
    let s := if s.flow == 0 then s.indentTo k.column k.tokens .blockMapping else s
    return ((s.allowKey false).moveTo s.cursor.next).emit .value
  | none =>
    let s ← s.openBlock .blockMapping
    let s ← (s.allowKey (s.flow == 0)).dropKey
    return (s.moveTo s.cursor.next).emit .value

def keyable (s : Scanner) (read : Cursor → Result (Token × Cursor)) : Result Scanner := do
  let s ← s.saveKey
  let (t, c) ← read s.cursor
  return ((s.allowKey false).moveTo c).emit t

def quotedScalar (c : Cursor) : Result (Token × Cursor) := do
  let (cs, c) ← Scalar.quoted c
  return (.scalar (String.ofList cs) false, c)

def plainScalar (s : Scanner) : Result Scanner := do
  let s ← s.saveKey
  let (cs, ended, c) := Scalar.plain (s.flow != 0) (s.indent + 1) s.cursor
  return ((s.allowKey ended).moveTo c).emit (.scalar (String.ofList cs) true)

def blockScalar (s : Scanner) (isFolded : Bool) : Result Scanner := do
  let s ← (s.allowKey true).dropKey
  let (cs, c) ← Scalar.block isFolded s.indent s.cursor
  return (s.moveTo c).emit (.scalar (String.ofList cs) false)

def endDocument (s : Scanner) : Result Scanner := do
  let s ← (s.unwind (-1)).dropKey
  return s.allowKey false

def marker (s : Scanner) (t : Token) : Result Scanner := do
  let s ← s.endDocument
  return (s.moveTo (s.cursor.skip 3)).emit t

def directive (s : Scanner) : Result Scanner := do
  let s ← s.endDocument
  let (t, c) ← Markup.directive s.cursor
  return (s.moveTo c).emit t

def startsPlain (c : Cursor) (inFlow : Bool) : Bool :=
  let x := c.peek
  !(isGap x || isIn "-?:,[]\x7b\x7d#&*!|>'\"%@`" x) ||
    (!isGap (c.peekAt 1) && (x == '-' || (!inFlow && (x == '?' || x == ':'))))

def token (s : Scanner) : Result Scanner :=
  let c := s.cursor
  let inFlow := s.flow != 0
  let gapNext := isGap (c.peekAt 1)
  match c.peek with
  | '[' => s.flowStart .flowSequence
  | '\x7b' => s.flowStart .flowMapping
  | ']' => s.flowEnd .flowSequenceEnd
  | '\x7d' => s.flowEnd .flowMappingEnd
  | ',' => s.flowEntry
  | '*' => s.keyable fun c => do
    let (name, c) ← Markup.name c
    return (.alias name, c)
  | '&' => s.keyable fun c => do
    let (name, c) ← Markup.name c
    return (.anchor name, c)
  | '!' => s.keyable Markup.tag
  | '\x27' | '\x22' => s.keyable quotedScalar
  | x =>
    if x == '%' && c.column == 0 then s.directive
    else if x == '-' && c.column == 0 && c.isAtMarker then s.marker .documentStart
    else if x == '.' && c.column == 0 && c.isAtMarker then s.marker .documentEnd
    else if x == '-' && gapNext then s.blockEntry
    else if x == '?' && (inFlow || gapNext) then s.keyMark
    else if x == ':' && (inFlow || gapNext) then s.valueMark
    else if x == '|' && !inFlow then s.blockScalar false
    else if x == '>' && !inFlow then s.blockScalar true
    else if startsPlain c inFlow then s.plainScalar
    else .error .malformed

def step (s : Scanner) : Result Scanner := do
  let s := s.toNextToken
  let keys ← dropStale s.keys s.cursor
  let s := { s with keys }.unwind s.cursor.column
  if s.cursor.rest.isEmpty then return (← s.endDocument).emit .streamEnd
  else s.token

/-- The tokens up to the first that may begin a key, since what stands there depends on what
follows. -/
def certain (s : Scanner) : List Token :=
  let starts := (s.keys.filter fun k => !isStale s.cursor k).map (·.tokens)
  s.tokens.drop (s.tokens.length - starts.foldl min s.tokens.length)

/-- One step, and more unless it was the last one. A fault stands behind the last certain token. -/
def goOn (more : Scanner → List Token) (s : Scanner) : List Token :=
  match s.step with
  | .error f => .fault f :: s.certain
  | .ok s => if s.tokens.head? = some .streamEnd then s.tokens else more s

def run : Nat → Scanner → List Token
  | 0, s => s.tokens
  | fuel + 1, s => s.goOn (run fuel)

end Scanner

def Token.ofText (s : List Char) : List Token :=
  if s.all isAllowed then (Scanner.run (s.length + 1) (.start s)).reverse
  else [.fault .malformed]

end NoteDecor.Yaml
