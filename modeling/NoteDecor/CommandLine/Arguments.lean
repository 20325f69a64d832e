import NoteDecor.CommandLine.Switch

/-!
The arguments of a call: options first, then a command with what belongs to it. Arguments that
belong to nothing are collected and refused at the end.
-/

namespace NoteDecor.CommandLine

def programName : String := "fmdecorator"

def programVersion : String := "1.0.0"

inductive Command where
  | check
  | evaluate (snapshot : String)
  deriving DecidableEq, Repr

def Command.name : Command → String
  | check => "check"
  | evaluate _ => "evaluate"

/-- An option that takes a value may still be given without one. -/
structure Options where
  config : Option (Option String)
  vault : Option (Option String)
  debug : Bool
  logFile : Option (Option String)
  deriving DecidableEq, Repr, Inhabited

structure Arguments where
  options : Options
  command : Command
  deriving DecidableEq, Repr

/-- Why a call ends before it has begun. A complaint comes with the part of the program that
complains. -/
inductive Ending where
  | help
  | version
  | complaint (program : String) (c : Complaint)
  deriving DecidableEq, Repr

namespace Ending

def code : Ending → Nat
  | help | version => 0
  | complaint .. => 2

def out : Ending → String
  | version => programName ++ " " ++ programVersion ++ "\n"
  | _ => ""

def err : Ending → String
  | complaint program c => program ++ ": error: " ++ c.message ++ "\n"
  | _ => ""

end Ending

namespace Arguments

/-- Options in one argument: those without a value, and a last one that may have or want one. -/
structure Cluster where
  flags : List Switch
  last : Switch
  value : Option String
  deriving DecidableEq, Repr

def Cluster.after (s : Switch) (k : Cluster) : Cluster := { k with flags := s :: k.flags }

/-- What follows a short option that takes no value is more short options. -/
def cluster (table : List Switch) (isShort : Bool) : Switch → List Char →
    Except Complaint Cluster
  | s, [] => if s.takesValue then .ok ⟨[], s, some ""⟩ else .error (.ignoredValue s "")
  | s, c :: r =>
    let value := String.ofList (c :: r)
    if s.takesValue then .ok ⟨[], s, some value⟩
    else if !isShort then .error (.ignoredValue s value)
    else match Switch.named? table (String.ofList ['-', c]), r with
      | none, _ => .error (.ignoredValue s value)
      | some next, [] => .ok ⟨[s], next, none⟩
      | some next, r => (cluster table isShort next r).map (.after s)

def clusterOf (table : List Switch) (name : String) (s : Switch) (given : Given) :
    Except Complaint Cluster :=
  match given with
  | none => .ok ⟨[], s, none⟩
  | some cs => cluster table (!Text.startsWith "--" name) s cs

def valueOf? (value : String) : Option String := if value = "--" then none else some value

def apply (o : Options) (value : String) : Switch → Except Ending Options
  | .help => .error .help
  | .version => .error .version
  | .config => .ok { o with config := some (valueOf? value) }
  | .vault => .ok { o with vault := some (valueOf? value) }
  | .debug => .ok { o with debug := true }
  | .logFile => .ok { o with logFile := some (valueOf? value) }

def applyAll (o : Options) (k : Cluster) (value : String) : Except Ending Options := do
  apply (← k.flags.foldlM (fun o s => apply o "" s) o) value k.last

def helpEnding (program name : String) (s : Switch) (given : Given) : Ending :=
  match clusterOf Switch.following name s given with
  | .ok _ => .help
  | .error c => .complaint program c

def readCheck (program : String) : List (String × Mark) → Except Ending (List String)
  | [] => .ok []
  | (_, .switch name s given) :: _ => .error (helpEnding program name s given)
  | (argument, _) :: r => do return argument :: (← readCheck program r)

/-- The first plain argument names the snapshot; a divider right before or behind it is dropped.
Yields the snapshot and the arguments left over. -/
def readEvaluate (program : String) : Option String → List (String × Mark) →
    Except Ending (String × List String)
  | some file, [] => .ok (file, [])
  | none, [] => .error (.complaint program (.missing "FILE"))
  | _, (_, .switch name s given) :: _ => .error (helpEnding program name s given)
  | none, (file, .plain) :: (_, .divider) :: r => readEvaluate program (some file) r
  | none, (file, .plain) :: r => readEvaluate program (some file) r
  | none, (_, .divider) :: (file, .plain) :: r => readEvaluate program (some file) r
  | file, (argument, _) :: r => do
    let (file, left) ← readEvaluate program file r
    return (file, argument :: left)

def readCommand (name : String) (arguments : List String) :
    Except Ending (Command × List String) := do
  let program := programName ++ " " ++ name
  let marked := (Mark.all Switch.following arguments).mapError (.complaint program)
  if name = "check" then return (.check, ← readCheck program (← marked))
  else if name = "evaluate" then
    let (file, left) ← readEvaluate program none (← marked)
    return (.evaluate file, left)
  else throw (.complaint programName (.unknownCommand name))

def readLeading (o : Options) : List (String × Mark) → Except Ending (Arguments × List String)
  | [] => .error (.complaint programName (.missing "command"))
  | (name, .plain) :: r => do
    let (command, left) ← readCommand name (r.map (·.1))
    return (⟨o, command⟩, left)
  | (name, .divider) :: _ :: _ => .error (.complaint programName (.unknownCommand name))
  | (argument, .divider) :: r | (argument, .unknown) :: r => do
    let (a, left) ← readLeading o r
    return (a, argument :: left)
  | (_, .switch name s given) :: r => do
    let k ← (clusterOf Switch.leading name s given).mapError (.complaint programName)
    match k.value with
    | some value => readLeading (← applyAll o k value) r
    | none =>
      if k.last.takesValue then
        match r with
        | (value, .plain) :: r => readLeading (← applyAll o k value) r
        | _ => throw (.complaint programName (.missingValue k.last))
      else readLeading (← applyAll o k "") r

end Arguments

def noOptions : Options := ⟨none, none, false, none⟩

def Arguments.read (arguments : List String) : Except Ending Arguments := do
  let marked ← (Mark.all Switch.leading arguments).mapError (.complaint programName)
  let (a, left) ← readLeading noOptions marked
  if left.isEmpty then return a
  else throw (.complaint programName (.unrecognized left))

end NoteDecor.CommandLine
