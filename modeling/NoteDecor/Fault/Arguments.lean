import NoteDecor.Fault
import NoteDecor.Value.Equal
import NoteDecor.Value.Text

/-!
The texts of faults that are given by a kind and arguments. Most show their arguments; those that
users know in a form of their own are put into that form.
-/

namespace NoteDecor

namespace Fault

def generalNames : List String := ["OSError", "IOError", "EnvironmentError"]

def systemNames : List (Int × String) :=
  [(1, "PermissionError"), (2, "FileNotFoundError"), (3, "ProcessLookupError"),
    (4, "InterruptedError"), (10, "ChildProcessError"), (11, "BlockingIOError"),
    (13, "PermissionError"), (17, "FileExistsError"), (20, "NotADirectoryError"),
    (21, "IsADirectoryError"), (32, "BrokenPipeError"), (103, "ConnectionAbortedError"),
    (104, "ConnectionResetError"), (108, "BrokenPipeError"), (110, "TimeoutError"),
    (111, "ConnectionRefusedError"), (114, "BlockingIOError"), (115, "BlockingIOError")]

def systemFamily : List String :=
  "ConnectionError" :: generalNames ++ (systemNames.map (·.2)).eraseDups

def wholeOf? : Value → Option Int
  | .int n => some n
  | .bool b => some (if b then 1 else 0)
  | _ => none

def systemName (name : String) (args : List Value) : String :=
  if !generalNames.contains name then name
  else if args.length < 2 || 5 < args.length then "OSError"
  else (((args.head?.bind wholeOf?).bind fun n => systemNames.find? fun p => p.1 == n).map
    (·.2)).getD "OSError"

def isNumber : Value → Bool
  | .int _ | .bool _ | .float _ => true
  | _ => false

/-- The files that a fault of a system call names: none, one, or two with the call between them. A
call that would block may say how much was written in place of a file. -/
def systemFiles (name : String) : List Value → List Value
  | file :: rest =>
    if file.isNull || (name = "BlockingIOError" && isNumber file) then []
    else file :: (rest.drop 1).filter fun v => !v.isNull
  | [] => []

def systemText (name : String) (number reason : Value) (rest : List Value) : String :=
  let start := s!"[Errno {number.display}] {reason.display}"
  match (systemFiles name rest).map Value.literal with
  | [] => start
  | files => start ++ ": " ++ Text.joinText " -> " files

/-- Where a fault of a source lies: a sequence of four parts or of six, of which the first two are
the name of the source and the number of the line. -/
def details? (v : Value) : Option (List Value) :=
  v.walk?.filter fun parts => parts.length = 4 || parts.length = 6

def sourceName : Value → Option String
  | .text s => (Text.splitText '/' s).getLast?
  | _ => none

def lineNumber : Value → Option Int
  | .int n => some (if -Int.pow 2 63 ≤ n && n < Int.pow 2 63 then n else -1)
  | _ => none

def sourceText (reason : Value) (details : List Value) : String :=
  let name := details.head?.bind sourceName
  let line := (details[1]?.bind lineNumber).map fun n => s!"line {n}"
  match [name, line].filterMap id with
  | [] => reason.display
  | parts => reason.display ++ " (" ++ Text.joinText ", " parts ++ ")"

def sourceFamily : List String := ["SyntaxError", "IndentationError", "TabError"]

/-- A part of a text from one place up to another, called by the character or octet if there is
just one, and by their places otherwise. -/
def stretch (one many : String) (units : List String) (start stop : Int) : String :=
  match units[start.toNat]?.filter fun _ => 0 ≤ start && stop = start + 1 with
  | some u => s!"{one} {u} in position {start}"
  | none => s!"{many} in position {start}-{stop - 1}"

def octetMark (b : UInt8) : String := "0x" ++ String.ofList (Text.hexDigits b.toNat 2)

def letterMark (c : Char) : String :=
  let n := (Text.half? c).getD c.toNat
  let (letter, width) := if n < 256 then ("x", 2) else if n < 65536 then ("u", 4) else ("U", 8)
  "'\\" ++ letter ++ String.ofList (Text.hexDigits n width) ++ "'"

def encodingText? (name : String) (args : List Value) : Option String :=
  match name, args with
  | "UnicodeDecodeError", [.text codec, .bytes bs, a, b, .text reason] => do
    let part := stretch "byte" "bytes" (bs.map octetMark) (← wholeOf? a) (← wholeOf? b)
    return s!"'{codec}' codec can't decode " ++ part ++ ": " ++ reason
  | "UnicodeEncodeError", [.text codec, .text s, a, b, .text reason] => do
    let part := stretch "character" "characters" (s.toList.map letterMark) (← wholeOf? a)
      (← wholeOf? b)
    return s!"'{codec}' codec can't encode " ++ part ++ ": " ++ reason
  | "UnicodeTranslateError", [.text s, a, b, .text reason] => do
    let part := stretch "character" "characters" (s.toList.map letterMark) (← wholeOf? a)
      (← wholeOf? b)
    return "can't translate " ++ part ++ ": " ++ reason
  | _, _ => none

/-- One argument is the text itself, but a missing key is shown as a literal; several arguments
are shown together. -/
def plainText (name : String) : List Value → String
  | [] => ""
  | [v] => if name = "KeyError" then v.literal else v.display
  | vs => (Value.tuple vs).literal

def sourceTextOf (args : List Value) : String :=
  match args with
  | [] => sourceText .null []
  | [reason, place] => sourceText reason ((details? place).getD [])
  | reason :: _ => sourceText reason []

def textOf (name : String) (args : List Value) : String :=
  if sourceFamily.contains name then sourceTextOf args
  else match args with
    | number :: reason :: rest =>
      if systemFamily.contains name && rest.length ≤ 3 then systemText name number reason rest
      else (encodingText? name args).getD (plainText name args)
    | _ => plainText name args

def shown (name : String) (args : List Value) : List Value :=
  if sourceFamily.contains name then args.take 1
  else match args with
    | number :: reason :: rest =>
      if systemFamily.contains name && rest.length ≤ 3 then
        number :: reason :: systemFiles name rest
      else args
    | _ => args

/-- A fault is mute if a number that is too long to be written is part of its text. -/
def ofArguments (name : String) (args : List Value) : Fault :=
  let name := systemName name args
  if (shown name args).all Value.isWritable then .told ⟨.ofName name, textOf name args⟩
  else .mute (.ofName name) (.told ⟨.named "ValueError", Numeral.unwritableMessage⟩)

example : ofArguments "SyntaxError"
    [.text "bad", .tuple [.text "d/f", .int 3, .int 1, .null]] =
    .told ⟨.named "SyntaxError", "bad (f, line 3)"⟩ := by decide +kernel

end Fault

end NoteDecor
