import NoteDecor.Engine.Preloading
import NoteDecor.Notice.Template

/-!
Notices about rule files that could not be read. Values stand in a notice as they are; what they
hold is never read as a template.
-/

namespace NoteDecor.Notice

/-- A template may be malformed, or well formed but unsound. -/
inductive Fault where
  | template
  | unsound
  | undefined
  | operand
  deriving DecidableEq, Repr

/-- What a name in a template may stand for. -/
inductive Datum where
  | text (s : String)
  | number (n : Int)
  | truth (b : Bool)
  | nothing
  | warning (w : Warning)
  | warnings (ws : List Warning)
  | loop (index : Nat) (items : List Datum)

abbrev Names := List (String × Datum)

namespace Datum

def warningLiteral (w : Warning) : String :=
  "PreloadWarning(rule_name=" ++ Text.quoted w.ruleName ++ ", file_path=" ++
    Text.quoted w.filePath ++ ", error=" ++ Text.quoted w.error ++ ")"

def display : Datum → String
  | text s => s
  | number n => toString n
  | truth b => if b then "True" else "False"
  | nothing => "None"
  | warning w => warningLiteral w
  | warnings ws => "[" ++ Text.joinText ", " (ws.map warningLiteral) ++ "]"
  | loop index items => s!"<LoopContext {index}/{items.length}>"

def warningField? (w : Warning) (name : String) : Option Datum :=
  if name = "rule_name" then some (text w.ruleName)
  else if name = "file_path" then some (text w.filePath)
  else if name = "error" then some (text w.error)
  else if name = "message" then some (text w.message) else none

/-- A loop counts its rounds from both ends; loops within loops count anew. -/
def loopField? (index : Nat) (items : List Datum) (name : String) : Option Datum :=
  let count := items.length
  match name with
  | "index" => some (number index)
  | "index0" => some (number (index - 1))
  | "revindex" => some (number (count - index + 1))
  | "revindex0" => some (number (count - index))
  | "length" => some (number count)
  | "depth" => some (number 1)
  | "depth0" => some (number 0)
  | "first" => some (truth (index == 1))
  | "last" => some (truth (index == count))
  | "previtem" => if index = 1 then none else items[index - 2]?
  | "nextitem" => items[index]?
  | _ => none

def field? (name : String) : Datum → Option Datum
  | warning w => warningField? w name
  | loop index items => loopField? index items name
  | _ => none

def nth? {α : Type} (xs : List α) (n : Int) : Option α :=
  if 0 ≤ n then xs[n.toNat]? else if n.natAbs ≤ xs.length then xs[xs.length - n.natAbs]? else none

def number? : Datum → Option Int
  | number n => some n
  | truth b => some (if b then 1 else 0)
  | _ => none

def nthPart? (n : Int) : Datum → Option Datum
  | warnings ws => (nth? ws n).map warning
  | text s => (nth? s.toList n).map fun c => text (String.singleton c)
  | _ => none

def item? (d : Datum) : Datum → Option Datum
  | text s => d.field? s
  | i => i.number?.bind d.nthPart?

def defined (d : Option Datum) : Except Fault Datum :=
  match d with
  | some d => .ok d
  | none => .error .undefined

def negated (d : Datum) : Except Fault Datum :=
  match d.number? with
  | some n => .ok (number (-n))
  | none => .error .operand

def length : Datum → Except Fault Datum
  | text s => .ok (number s.length)
  | warnings ws => .ok (number ws.length)
  | loop _ items => .ok (number items.length)
  | _ => .error .operand

def elements : Datum → Except Fault (List Datum)
  | warnings ws => .ok (ws.map warning)
  | text s => .ok (s.toList.map fun c => text (String.singleton c))
  | _ => .error .operand

end Datum

def Names.find? (names : Names) (name : String) : Option Datum :=
  (List.find? (fun n => n.1 == name) names).map (·.2)

def Term.datum (names : Names) : Term → Except Fault Datum
  | name s => Datum.defined (names.find? s)
  | number n => .ok (.number n)
  | truth b => .ok (.truth b)
  | nothing => .ok .nothing
  | field t f => do Datum.defined ((← t.datum names).field? f)
  | item t i => do
    let d ← t.datum names
    Datum.defined (d.item? (← i.datum names))
  | negative t => do (← t.datum names).negated
  | filtered _ t => do (← t.datum names).length

def within (names : Names) (name : String) (items : List Datum) (index : Nat) (d : Datum) : Names :=
  (name, d) :: (Part.loopName, .loop index items) :: names

mutual

def renderPart (names : Names) : Part → Except Fault String
  | .text s => .ok s
  | .output t => do return (← t.datum names).display
  | .each name items body => do
    let ds ← (← items.datum names).elements
    let texts ← (ds.zipIdx 1).mapM fun p => renderAll (within names name ds p.2 p.1) body
    return String.join texts

def renderAll (names : Names) : List Part → Except Fault String
  | [] => .ok ""
  | p :: ps => do
    let s ← renderPart names p
    let r ← renderAll names ps
    return s ++ r

end

def defaultTemplate : String :=
  "⚠️ File Metadata Decorator\n" ++
  "\x7b% for warning in warnings %\x7d\n" ++
  "Failed to load rule file for \"\x7b\x7b warning.rule_name \x7d\x7d\": " ++
  "\x7b\x7b warning.file_path \x7d\x7d\n" ++
  "\x7b\x7b warning.error \x7d\x7d\n" ++
  "\x7b% endfor %\x7d"

def dropLastBreaks (s : String) : String := String.ofList (Text.dropLast '\n' s.toList)

def render (ws : List Warning) (template : String) : Except Fault String :=
  if ws.isEmpty then .ok ""
  else match Template.ofText? (if template = "" then defaultTemplate else template) with
    | none => .error .template
    | some parts => do
      if !Part.allSound parts then throw .unsound
      return dropLastBreaks (← renderAll [("warnings", .warnings ws)] parts)

def default (ws : List Warning) : Except Fault String := render ws defaultTemplate

end NoteDecor.Notice
