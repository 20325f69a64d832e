import NoteDecor.Frontmatter
import NoteDecor.Rule.Basic
import NoteDecor.Snapshot

/-!
Deciding whether a document meets a rule's criteria. Tokens with a mark in front exclude, and any
one that fits settles the matter; of the others one that fits is enough.
-/

namespace NoteDecor

structure Polarity where
  positive : List String
  negative : List String
  deriving DecidableEq, Repr

def excluded? (token : String) : Option String :=
  match token.toList with
  | '!' :: r => some (String.ofList r)
  | _ => none

def Polarity.ofTokens (tokens : List String) : Polarity :=
  ⟨tokens.filter fun t => (excluded? t).isNone, tokens.filterMap excluded?⟩

/-- Why a document is matched or not; for frontmatter, under which key. -/
inductive Verdict where
  | excluded
  | tag
  | path
  | title
  | frontmatter (key : Value)
  | unmatched
  deriving Repr

namespace Verdict

def isMatch : Verdict → Bool
  | excluded | unmatched => false
  | _ => true

def name : Verdict → String
  | excluded => "negative matched"
  | tag => "tag matched"
  | path => "path matched"
  | title => "title matched"
  | frontmatter _ => "frontmatter matched"
  | unmatched => "no matched"

def readsFrontmatter : Verdict → Bool
  | frontmatter _ | unmatched => true
  | _ => false

def details (s : Snapshot) : Verdict → List (String × Value)
  | frontmatter key => [("path", .text s.path), ("key", key)]
  | unmatched => [("path", .text s.path), ("title", .text s.title)]
  | _ => [("path", .text s.path)]

end Verdict

namespace Snapshot

def hasTag (s : Snapshot) (tag : String) : Bool := s.tags.contains tag
def liesUnder (s : Snapshot) (start : String) : Bool := Text.startsWith start s.path
def isTitled (s : Snapshot) (part : String) : Bool := Text.contains part s.title

end Snapshot

def Criteria.verdict (c : Criteria) (s : Snapshot) : Verdict :=
  let tags := Polarity.ofTokens c.tags
  let paths := Polarity.ofTokens c.paths
  let titles := Polarity.ofTokens c.titles
  if tags.negative.any s.hasTag || paths.negative.any s.liesUnder ||
    titles.negative.any s.isTitled then .excluded
  else if tags.positive.any s.hasTag then .tag
  else if paths.positive.any s.liesUnder then .path
  else if titles.positive.any s.isTitled then .title
  -- a key that is no value is taken for no key
  else match (Frontmatter.firstMatchingKey c.frontmatter s.frontmatter).filter (!·.isNull) with
    | some key => .frontmatter key
    | none => .unmatched

end NoteDecor
