import NoteDecor.Number.Shortest
import NoteDecor.Text.Quoted
import NoteDecor.Value.Basic

/-!
The text of values. `literal` writes a value so that its kind and its parts can be told apart;
`display` writes texts, times and sealed mappings bare and all else as `literal`. A container that
holds itself is written up to where it would be written again.
-/

namespace NoteDecor.Value

def listed : List String → String := Text.joinText ", "

def braces (s : String) : String := "\x7b" ++ s ++ "\x7d"

def againMark : Value → String
  | list _ => "[...]"
  | tuple _ => "(...)"
  | _ => "\x7b...\x7d"

mutual

def write : Value → (Nat → String) → String
  | null, _ => "None"
  | bool b, _ => if b then "True" else "False"
  | int n, _ => toString n
  | float x, _ => Binary64.plain.text x
  | text s, _ => Text.quoted s
  | bytes bs, _ => Text.quotedOctets bs
  | date d, _ => d.literal
  | moment m, _ => m.literal
  | list xs, f => "[" ++ listed (writeAll xs f) ++ "]"
  | tuple xs, f =>
    match writeAll xs f with
    | [x] => "(" ++ x ++ ",)"
    | ls => "(" ++ listed ls ++ ")"
  | set xs, f => if xs.isEmpty then "set()" else braces (listed (writeAll xs f))
  | map es, f => braces (listed (writeEach es f))
  | sealed es, f => "mappingproxy(" ++ braces (listed (writeEach es f)) ++ ")"
  | badge c t s, f => "DecorationElement(class_name=" ++ write c f ++ ", text=" ++ write t f ++
      ", style=" ++ write s f ++ ")"
  | outcome c e, f =>
    "EvaluationResult(class_names=" ++ write c f ++ ", elements=" ++ write e f ++ ")"
  | cell n, f => f n
  | knot cells n, _ =>
    tie (fun k => againMark (cells.getD k null)) (writers cells) cells.length [] n

def writeAll : List Value → (Nat → String) → List String
  | [], _ => []
  | x :: xs, f => write x f :: writeAll xs f

def writeEach : Entries → (Nat → String) → List String
  | [], _ => []
  | (k, v) :: r, f => (write k f ++ ": " ++ write v f) :: writeEach r f

def writers : List Value → List ((Nat → String) → String)
  | [] => []
  | x :: xs => (fun f => write x f) :: writers xs

end

def looseCell (_ : Nat) : String := againMark null

def literal (v : Value) : String := v.write looseCell

def display : Value → String
  | text s => s
  | date d => d.iso
  | moment m => m.iso " "
  | sealed es => braces (listed (writeEach es looseCell))
  | v => v.literal

mutual

def writable : Value → (Nat → Bool) → Bool
  | int n, _ => Numeral.isWritable n
  | list xs, f | tuple xs, f | set xs, f => allWritable xs f
  | map es, f | sealed es, f => eachWritable es f
  | badge c t s, f => writable c f && writable t f && writable s f
  | outcome c e, f => writable c f && writable e f
  | cell n, f => f n
  | knot cells n, _ => tie (fun _ => true) (writabilities cells) cells.length [] n
  | _, _ => true

def allWritable : List Value → (Nat → Bool) → Bool
  | [], _ => true
  | x :: xs, f => writable x f && allWritable xs f

def eachWritable : Entries → (Nat → Bool) → Bool
  | [], _ => true
  | (k, v) :: r, f => writable k f && writable v f && eachWritable r f

def writabilities : List Value → List ((Nat → Bool) → Bool)
  | [] => []
  | x :: xs => (fun f => writable x f) :: writabilities xs

end

/-- Numbers that are too long to be written have no text, and what holds one has none either. -/
def isWritable (v : Value) : Bool := v.writable fun _ => true

example : (knot [map [(text "k", cell 1)], list [int 1, cell 0]] 0).literal =
    "\x7b'k': [1, \x7b...\x7d]\x7d" := by decide +kernel

example : (list [text "a", tuple [int 1], null]).display = "['a', (1,), None]" := by decide +kernel

end NoteDecor.Value
