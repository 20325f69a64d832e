import NoteDecor.Rule.Settings
import NoteDecor.Yaml.Document

/-!
Criteria as users type them: tokens one to a line, and frontmatter as one document.
-/

namespace NoteDecor.Criteria

/-- Scalars with an impossible value are a fault of their own. -/
inductive TextFault where
  | malformed
  | scalar (f : Yaml.Fault)
  | shape (f : Fault)
  deriving Repr

def TextFault.message : TextFault → String
  | .malformed => "Invalid JSON: " ++ Yaml.Fault.message .malformed
  | .scalar f => f.message
  | .shape f => f.message

def parseTokens (text : String) : List String :=
  (Text.splitText '\n' text).filter (· != "")

def parseFrontmatter (text : String) : Except TextFault Entries :=
  if (Text.trim text.toList).isEmpty then .ok []
  else match Yaml.load text.toList with
    | .ok v => (checkFrontmatter v).mapError .shape
    | .error .malformed => .error .malformed
    | .error f => .error (.scalar f)

def updateFrontmatter (c : Criteria) (text : String) : Except TextFault Criteria := do
  return .make c.tags c.paths c.titles (← parseFrontmatter text)

end NoteDecor.Criteria
