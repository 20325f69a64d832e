import NoteDecor.Number.Numeral
import NoteDecor.Text.Quoted

/-!
The options of the command line, and what one argument says by itself. A long option may be cut
short where no other begins that way, and its value may stand behind an equals sign; the value of
a short option may follow at once.
-/

namespace NoteDecor.CommandLine

inductive Switch where
  | help
  | version
  | config
  | vault
  | debug
  | logFile
  deriving DecidableEq, Repr, Inhabited

namespace Switch

def names : Switch → List String
  | help => ["-h", "--help"]
  | version => ["-v", "--version"]
  | config => ["-c", "--config"]
  | vault => ["--vault"]
  | debug => ["--debug"]
  | logFile => ["--log-file"]

def label (s : Switch) : String := Text.joinText "/" s.names

def takesValue : Switch → Bool
  | config | vault | logFile => true
  | help | version | debug => false

def leading : List Switch := [help, version, config, vault, debug, logFile]

def following : List Switch := [help]

def named? (table : List Switch) (name : String) : Option Switch :=
  table.find? fun s => s.names.contains name

end Switch

inductive Complaint where
  | ambiguous (argument : String) (names : List String)
  | ignoredValue (s : Switch) (value : String)
  | missingValue (s : Switch)
  | unknownCommand (name : String)
  | missing (what : String)
  | unrecognized (arguments : List String)
  deriving DecidableEq, Repr

def Complaint.message : Complaint → String
  | ambiguous argument names =>
    "ambiguous option: " ++ argument ++ " could match " ++ Text.joinText ", " names
  | ignoredValue s value =>
    "argument " ++ s.label ++ ": ignored explicit argument " ++ Text.quoted value
  | missingValue s => "argument " ++ s.label ++ ": expected one argument"
  | unknownCommand name => "argument command: invalid choice: " ++ Text.quoted name ++
      " (choose from 'check', 'evaluate')"
  | missing what => "the following arguments are required: " ++ what
  | unrecognized arguments => "unrecognized arguments: " ++ Text.joinText " " arguments

abbrev Given := Option (List Char)

/-- What an argument says: itself, that only plain ones follow, an option under one of its names,
or an option that nobody knows. -/
inductive Mark where
  | plain
  | divider
  | switch (name : String) (s : Switch) (given : Given)
  | unknown
  deriving DecidableEq, Repr

namespace Mark

def cut (s : List Char) : String × Given :=
  (String.ofList (s.takeWhile (· != '=')),
    match s.dropWhile (· != '=') with
    | [] => none
    | _ :: r => some r)

def isDigits (s : List Char) : Bool :=
  !s.isEmpty && s.all fun c => (Numeral.decimalDigit? c).isSome

/-- Numbers below zero look like options and are none. A line break may end them. -/
def isNegative (s : List Char) : Bool :=
  match s with
  | '-' :: r =>
    let r := if r.getLast? = some '\n' then r.dropLast else r
    isDigits r || match r.dropWhile fun c => (Numeral.decimalDigit? c).isSome with
      | '.' :: ds => isDigits ds
      | _ => false
  | _ => false

/-- The options that a long name may be short for, under their full names. -/
def completions (table : List Switch) (start : String) : List (String × Switch) :=
  table.flatMap fun s => (s.names.filter (Text.startsWith start)).map (·, s)

def candidates (table : List Switch) (s : List Char) : List Mark :=
  if ['-', '-'].isPrefixOf s then
    let (start, given) := cut s
    (completions table start).map fun c => switch c.1 c.2 given
  else
    let name := String.ofList (s.take 2)
    ((Switch.named? table name).map fun o => switch name o (some (s.drop 2))).toList

def nameOf : Mark → String
  | switch name .. => name
  | _ => ""

def inFull? (table : List Switch) (argument : String) : Option Mark :=
  match Switch.named? table argument with
  | some s => some (switch argument s none)
  | none =>
    let (name, given) := cut argument.toList
    (Switch.named? table name).map fun s => switch name s given

def ofOption (table : List Switch) (argument : String) : Except Complaint Mark :=
  match inFull? table argument with
  | some m => .ok m
  | none =>
    match candidates table argument.toList with
    | [m] => .ok m
    | [] => .ok (if isNegative argument.toList || argument.toList.contains ' ' then plain
        else unknown)
    | ms => .error (.ambiguous argument (ms.map nameOf))

def ofArgument (table : List Switch) (argument : String) : Except Complaint Mark :=
  match argument.toList with
  | '-' :: _ :: _ => ofOption table argument
  | _ => .ok plain

def all (table : List Switch) : List String → Except Complaint (List (String × Mark))
  | [] => .ok []
  | argument :: r =>
    if argument = "--" then .ok ((argument, divider) :: r.map (·, plain))
    else do
      let m ← ofArgument table argument
      return (argument, m) :: (← all table r)

end Mark

end NoteDecor.CommandLine
