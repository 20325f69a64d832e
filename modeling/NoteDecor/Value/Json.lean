import NoteDecor.Value.Use

/-!
Values as JSON text, two blanks deeper at each level. Only what JSON knows has such a text, and
mappings only if nothing in them is sealed or stored under a key that is more than a scalar. Of
several parts without a text the first one counts.
-/

namespace NoteDecor.Value

def jsonEscape (c : Char) : List Char :=
  if c = '\x22' || c = '\\' then ['\\', c]
  else if c = '\n' then ['\\', 'n']
  else if c = '\r' then ['\\', 'r']
  else if c = '\t' then ['\\', 't']
  else if c = '\x08' then ['\\', 'b']
  else if c = '\x0c' then ['\\', 'f']
  else if c.toNat < 32 then '\\' :: 'u' :: Text.hexDigits c.toNat 4
  else [c]

def jsonText (s : String) : String :=
  String.ofList ('\x22' :: s.toList.flatMap jsonEscape ++ ['\x22'])

/-- Numbers that JSON itself has no text for still get one. -/
def jsonNumber : Binary64.Layout :=
  { Binary64.plain with infinity := "Infinity", notANumber := "NaN" }

def jsonScalar : Value → Except Misuse String
  | null => .ok "null"
  | bool b => .ok (if b then "true" else "false")
  | int n => if Numeral.isWritable n then .ok (toString n) else .error .unwritable
  | float x => .ok (jsonNumber.text x)
  | _ => .error .operand

def jsonKey : Value → Except Misuse String
  | text s => .ok (jsonText s)
  | v => (jsonScalar v).map jsonText

def newLine (depth : Nat) : String := "\n" ++ String.ofList (List.replicate (2 * depth) ' ')

def jsonBlock (left right : String) (depth : Nat) (members : List String) : String :=
  if members.isEmpty then left ++ right
  else left ++ newLine (depth + 1) ++ Text.joinText ("," ++ newLine (depth + 1)) members ++
    newLine depth ++ right

mutual

def jsonAt (depth : Nat) : Value → Except Misuse String
  | text s => .ok (jsonText s)
  | list xs | tuple xs => (jsonEach (depth + 1) xs).map (jsonBlock "[" "]" depth)
  | map es => (jsonEntries (depth + 1) es).map (jsonBlock "\x7b" "\x7d" depth)
  | v => jsonScalar v

def jsonEach (depth : Nat) : List Value → Except Misuse (List String)
  | [] => .ok []
  | x :: xs => do
    let t ← jsonAt depth x
    let ts ← jsonEach depth xs
    return t :: ts

def jsonEntries (depth : Nat) : Entries → Except Misuse (List String)
  | [] => .ok []
  | (k, v) :: r => do
    let key ← jsonKey k
    let t ← jsonAt depth v
    let ts ← jsonEntries depth r
    return (key ++ ": " ++ t) :: ts

end

def json (v : Value) : Except Misuse String := jsonAt 0 v

example : (list [text "a\n", map [(null, tuple [])], list []]).json.toOption =
    some "[\n  \"a\\n\",\n  \x7b\n    \"null\": []\n  \x7d,\n  []\n]" := by decide +kernel

example : (map [(text "a", sealed [])]).json.toOption = none := by decide +kernel

end NoteDecor.Value
