import NoteDecor.Log.Level

/-!
Log records and the contexts that are open while they are made. A record carries all open
contexts, outermost first, and then what its own call adds.
-/

namespace NoteDecor.Log

abbrev Context := List (String × Value)

namespace Context

def set (key : String) (v : Value) : Context → Context
  | [] => [(key, v)]
  | e :: r => if e.1 = key then (key, v) :: r else e :: set key v r

def extend (c more : Context) : Context := more.foldl (fun acc e => set e.1 e.2 acc) c

def merge (open_ : List Context) : Context := open_.foldl extend []

def text (c : Context) : String :=
  Text.joinText " " (c.map fun e => e.1 ++ "=" ++ e.2.display)

def isWritable (c : Context) : Bool := c.all fun e => e.2.isWritable

def toValue (c : Context) : Value := .record c

end Context

structure Record where
  level : Level
  message : String
  context : Context
  exception : Bool
  deriving Inhabited, Repr

def Record.make (level : Level) (message : String) (open_ : List Context) (own : Context)
    (exception : Bool) : Record :=
  let context := (Context.merge open_).extend own
  let text := if context.isEmpty then message else message ++ " | " ++ context.text
  ⟨level, text, context, exception⟩

def exceptionContext (own : Context) (kind text : String) : Context :=
  (own.set "exception_type" (.text kind)).set "exception_message" (.text text)

/-- The records made so far, oldest first, and what decides about the next one. Records are made of
values that can be written: own contexts hold texts, lengths and outcomes that were checked, and under
an open context that cannot be written the logger itself fails (`Registry.log`). -/
structure Journal where
  threshold : Level
  contexts : List Context
  records : List Record
  deriving Inhabited, Repr

namespace Journal

def start (threshold : Level) : Journal := ⟨threshold, [], []⟩

def add (j : Journal) (level : Level) (message : String) (own : Context) (exception : Bool) :
    Journal :=
  if j.threshold.admits level then
    { j with records := j.records ++ [.make level message j.contexts own exception] }
  else j

def note (j : Journal) (level : Level) (message : String) (own : Context) : Journal :=
  j.add level message own false

def noteException (j : Journal) (message kind text : String) (own : Context) : Journal :=
  j.add .error message (exceptionContext own kind text) true

def enter (j : Journal) (c : Context) : Journal := { j with contexts := j.contexts ++ [c] }

def leave (j : Journal) : Journal := { j with contexts := j.contexts.dropLast }

end Journal

end NoteDecor.Log
