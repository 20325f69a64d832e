import NoteDecor.Proofs.Rule.Format
import NoteDecor.Rule.CriteriaText

/-! How typed criteria fail. A text is read to its end, and then its entries are looked through in
their order, each key before its value; the first thing that is not as it should be decides what is
said. It is bad input as long as it can be shown, and as long as every scalar of the text has a value
at all. -/

namespace NoteDecor.Criteria
open Value

/-- The code of a text that is bad input as such. -/
def TextFault.code? : TextFault → Option Nat
  | .malformed => some 1
  | .scalar _ => none
  | .shape f => if Rule.isNumberFault f then none else some 1

def unfit? (v : Value) : Option Value := if isScalar v && v.isWritable then none else some v

def objection? (e : Value × Value) : Option Value :=
  match e.1 with
  | .text _ => (Rule.parts e.2).findSome? unfit?
  | k => some k

def FailsAt (x : Except Fault Unit) : Option Value → Prop
  | none => x = .ok ()
  | some w => ∃ f, x = .error f ∧ (Rule.isNumberFault f = true ↔ w.isWritable = false)

theorem refuse_failsAt {f : Fault} (hf : Rule.isNumberFault f = false) (v : Value) :
    FailsAt (refuse f v) (some v) := by
  refine ⟨_, rfl, ?_⟩
  cases hv : v.isWritable with
  | true => simp [hf]
  | false => simp [Rule.isNumberFault]

theorem checkScalar_failsAt {f : Fault} (hf : Rule.isNumberFault f = false) (v : Value) :
    FailsAt (checkScalar f v) (unfit? v) := by
  unfold checkScalar unfit?
  split
  · exact rfl
  · exact refuse_failsAt hf v

theorem FailsAt.forM {α : Type} {check : α → Except Fault Unit} {pick : α → Option Value}
    (h : ∀ x, FailsAt (check x) (pick x)) (xs : List α) :
    FailsAt (xs.forM check) (xs.findSome? pick) := by
  induction xs with
  | nil => exact rfl
  | cons x xs ih =>
    have hx := h x
    rw [List.findSome?_cons]
    change FailsAt (check x >>= fun _ => xs.forM check) _
    cases hpick : pick x with
    | none =>
      rw [hpick] at hx
      rw [show check x = .ok () from hx]
      exact ih
    | some w =>
      rw [hpick] at hx
      obtain ⟨f, hf, hw⟩ := hx
      rw [hf]
      exact ⟨f, rfl, hw⟩

theorem checkValue_failsAt (key : String) (v : Value) :
    FailsAt (checkValue key v) ((Rule.parts v).findSome? unfit?) := by
  unfold checkValue Rule.parts
  cases v.items? with
  | some vs => exact .forM (fun w => checkScalar_failsAt (f := .item key w) rfl w) vs
  | none =>
    rw [Option.getD_none, List.findSome?_singleton]
    exact checkScalar_failsAt (f := .value key v) rfl v

theorem checkEntry_failsAt (e : Value × Value) : FailsAt (checkEntry e) (objection? e) := by
  unfold checkEntry objection?
  cases e.1 with
  | text key => exact checkValue_failsAt key e.2
  | _ => exact refuse_failsAt rfl _

def firstObjection? (es : Entries) : Option Value := es.findSome? objection?

theorem checkEntries_failsAt (es : Entries) : FailsAt (es.forM checkEntry) (firstObjection? es) :=
  .forM checkEntry_failsAt es

def isBlank (text : String) : Bool := (Text.trim text.toList).isEmpty

/-- A text that stands for criteria: a blank one for none, any other for the mapping in it, if there
is nothing to object to. -/
inductive Accepted (text : String) : Entries → Prop
  | blank : isBlank text = true → Accepted text []
  | mapping {v : Value} {es : Entries} : isBlank text = false → Yaml.load text.toList = .ok v →
      v.entries? = some es → firstObjection? es = none → Accepted text es

/-- A text that is bad input: it is malformed, it holds something other than a mapping, or what is
objected to can be shown. -/
inductive Refused (text : String) : Prop
  | malformed : isBlank text = false → Yaml.load text.toList = .error .malformed → Refused text
  | other {v : Value} : isBlank text = false → Yaml.load text.toList = .ok v →
      v.entries? = none → Refused text
  | unfit {v w : Value} {es : Entries} : isBlank text = false → Yaml.load text.toList = .ok v →
      v.entries? = some es → firstObjection? es = some w → w.isWritable = true → Refused text

/-- A text that fails without being bad input: a scalar in it has no value, or a number that is
objected to is too long to be written. -/
inductive Unforeseen (text : String) : Prop
  | scalar {f : Yaml.Fault} : isBlank text = false → Yaml.load text.toList = .error f →
      f ≠ .malformed → Unforeseen text
  | number {v w : Value} {es : Entries} : isBlank text = false →
      Yaml.load text.toList = .ok v → v.entries? = some es → firstObjection? es = some w →
      w.isWritable = false → Unforeseen text

section Parsing

variable {text : String}

theorem parseFrontmatter_of_blank (h : isBlank text = true) : parseFrontmatter text = .ok [] := by
  unfold isBlank at h
  rw [parseFrontmatter, if_pos h]

theorem parseFrontmatter_of_text (h : isBlank text = false) : parseFrontmatter text =
    match Yaml.load text.toList with
    | .ok v => (checkFrontmatter v).mapError .shape
    | .error .malformed => .error .malformed
    | .error f => .error (.scalar f) := by
  unfold isBlank at h
  unfold parseFrontmatter
  exact if_neg (Bool.not_eq_true _ ▸ h)

theorem checkFrontmatter_of_entries {v : Value} {es : Entries} (h : v.entries? = some es) :
    checkFrontmatter v = (es.forM checkEntry).map fun _ => es := by
  unfold checkFrontmatter
  rw [h]
  dsimp only
  cases es.forM checkEntry <;> rfl

theorem Accepted.parse_eq {es : Entries} (h : Accepted text es) :
    parseFrontmatter text = .ok es := by
  cases h with
  | blank hblank => exact parseFrontmatter_of_blank hblank
  | mapping hblank hload hes hfirst =>
    have hpasses := checkEntries_failsAt es
    rw [hfirst] at hpasses
    rw [parseFrontmatter_of_text hblank, hload]
    dsimp only
    rw [checkFrontmatter_of_entries hes, show es.forM checkEntry = .ok () from hpasses]
    rfl

theorem parseFrontmatter_of_objection {v w : Value} {es : Entries} (hblank : isBlank text = false)
    (hload : Yaml.load text.toList = .ok v) (hes : v.entries? = some es)
    (hfirst : firstObjection? es = some w) : ∃ f, parseFrontmatter text = .error (.shape f) ∧
      (Rule.isNumberFault f = true ↔ w.isWritable = false) := by
  have hfails := checkEntries_failsAt es
  rw [hfirst] at hfails
  obtain ⟨f, hf, hnumber⟩ := hfails
  refine ⟨f, ?_, hnumber⟩
  rw [parseFrontmatter_of_text hblank, hload]
  dsimp only
  rw [checkFrontmatter_of_entries hes, hf]
  rfl

theorem Refused.parse_eq (h : Refused text) :
    ∃ f, parseFrontmatter text = .error f ∧ f.code? = some 1 := by
  cases h with
  | malformed hblank hload =>
    refine ⟨.malformed, ?_, rfl⟩
    rw [parseFrontmatter_of_text hblank, hload]
  | @other v hblank hload hes =>
    refine ⟨.shape (.notMapping v.kind), ?_, rfl⟩
    rw [parseFrontmatter_of_text hblank, hload]
    dsimp only [checkFrontmatter]
    rw [hes]
    rfl
  | unfit hblank hload hes hfirst hw =>
    obtain ⟨f, hf, hnumber⟩ := parseFrontmatter_of_objection hblank hload hes hfirst
    refine ⟨_, hf, ?_⟩
    rw [TextFault.code?, if_neg]
    rw [hnumber, hw]
    nofun

theorem Unforeseen.parse_eq (h : Unforeseen text) :
    ∃ f, parseFrontmatter text = .error f ∧ f.code? = none := by
  cases h with
  | @scalar f hblank hload hf =>
    refine ⟨.scalar f, ?_, rfl⟩
    rw [parseFrontmatter_of_text hblank, hload]
    cases f with
    | malformed => exact absurd rfl hf
    | _ => rfl
  | number hblank hload hes hfirst hw =>
    obtain ⟨f, hf, hnumber⟩ := parseFrontmatter_of_objection hblank hload hes hfirst
    exact ⟨_, hf, if_pos (hnumber.2 hw)⟩

end Parsing

end NoteDecor.Criteria
