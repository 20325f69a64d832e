import NoteDecor.Proofs.Settings.Reloading
import NoteDecor.Proofs.Settings.Sound
import NoteDecor.Proofs.Value.Contents
import NoteDecor.Proofs.Workspace.FailedReload

/-! Loading one settings file. A file that can be loaded fills one layer with the mapping in it, under
the root of all settings, and its place is known from then on. Every other file leaves the settings
as they were; most are refused for what is wrong with them as settings files, the others fail
before that can be said. -/

namespace NoteDecor

namespace Settings
open Value

/-- The place that a path leads to, and the octets there. -/
structure Offers (d : Disk) (shown : String) (place : Disk.Place) (content : List UInt8) :
    Prop where
  leads : placeOf d shown = .ok place
  found : ∃ kind, d.find place = .ok kind ∧ Disk.contentOf kind = .ok content

/-- The mapping in a settings file. A file with nothing in it holds an empty one. -/
inductive Holds (content : List UInt8) : Value → Prop
  | nothing {cs : List Char} : Yaml.decode content = .ok cs → Yaml.load cs = .ok .null →
      Holds content (.map [])
  | mapping {cs : List Char} {v : Value} : Yaml.decode content = .ok cs → Yaml.load cs = .ok v →
      v.entries?.isSome = true → Holds content v

def absences : List Disk.Fault := [.missing, .notFolder, .nullInName, .unencodable]

/-- Why a file is refused, with what is said of it: it is not there, it cannot be read, its text is
malformed, if only as far as it is text, or it holds something other than a mapping. -/
inductive Refused (d : Disk) (shown : String) : FileFault → Prop
  | absent {place : Disk.Place} {f : Disk.Fault} : placeOf d shown = .ok place →
      d.find place = .error f → f ∈ absences → Refused d shown (.notFound shown)
  | unreadable {place : Disk.Place} {kind : Disk.Kind} {f : Disk.Fault} :
      placeOf d shown = .ok place → d.find place = .ok kind → Disk.contentOf kind = .error f →
      Refused d shown (.unreadable shown (f.message (d.nameOf place)))
  | malformed {place : Disk.Place} {content : List UInt8} {cs : List Char} :
      Offers d shown place content → Yaml.decode content = .ok cs →
      Yaml.load cs = .error .malformed → Refused d shown (.malformed shown)
  | early {place : Disk.Place} {content : List UInt8} : Offers d shown place content →
      Yaml.readText d.late content = .error none → Refused d shown (.malformed shown)
  | other {place : Disk.Place} {content : List UInt8} {cs : List Char} {v : Value} :
      Offers d shown place content → Yaml.decode content = .ok cs → Yaml.load cs = .ok v →
      v.isNull = false → v.entries? = none → Refused d shown (.notMapping shown)

/-- Why a file fails before anything can be said of it as a settings file: its path names a user
without a home or cannot be looked up, its octets are no text, or a scalar in it is impossible. -/
inductive Unforeseen (d : Disk) (shown : String) : FileFault → Prop
  | homeless : d.expand? (Path.ofString shown) = none → Unforeseen d shown .noHome
  | unnamable {p q : Path} {f : Disk.Fault} : d.expand? (Path.ofString shown) = some p →
      badName? p = some (f, q) → Unforeseen d shown (.system f q.text)
  | unfindable {place : Disk.Place} {f : Disk.Fault} : placeOf d shown = .ok place →
      d.find place = .error f → f ∉ absences → Unforeseen d shown (.system f (d.nameOf place))
  | undecodable {place : Disk.Place} {content : List UInt8} {f : Text.Utf8.Fault} :
      Offers d shown place content → Yaml.readText d.late content = .error (some f) →
      Unforeseen d shown (.undecodable f)
  | scalar {place : Disk.Place} {content : List UInt8} {cs : List Char} {f : Yaml.Fault} :
      Offers d shown place content → Yaml.decode content = .ok cs → Yaml.load cs = .error f →
      f ≠ .malformed → Unforeseen d shown (.scalar f)

variable {d : Disk} {shown : String} {place : Disk.Place}

theorem placeOf_eq_error {f : FileFault} : placeOf d shown = .error f ↔
    (d.expand? (Path.ofString shown) = none ∧ f = .noHome) ∨
    ∃ p g q, d.expand? (Path.ofString shown) = some p ∧ badName? p = some (g, q) ∧
      f = .system g q.text := by
  unfold placeOf
  cases hexpand : d.expand? (Path.ofString shown) with
  | none => simp [eq_comm]
  | some p =>
    cases hbad : badName? p with
    | none => simp [hbad]
    | some b => simp [hbad, eq_comm, Prod.ext_iff]

theorem presence_error (f : Disk.Fault) : Disk.presence (.error f) =
    if f ∈ absences then .ok none else .error f := by
  cases f <;> rfl

theorem readAt_of_error {f : Disk.Fault} (h : d.find place = .error f) :
    readAt d place shown = .error
      (if f ∈ absences then .notFound shown else .system f (d.nameOf place)) := by
  unfold readAt
  rw [h, presence_error]
  split <;> rfl

theorem readAt_of_kind {kind : Disk.Kind} (h : d.find place = .ok kind) :
    readAt d place shown = (do
      parse d.late shown (← (Disk.contentOf kind).mapError fun f =>
        .unreadable shown (f.message (d.nameOf place)))) := by
  unfold readAt
  rw [h]
  rfl

theorem Offers.readAt_eq {content : List UInt8} (h : Offers d shown place content) :
    readAt d place shown = parse d.late shown content := by
  obtain ⟨kind, hfind, hcontent⟩ := h.found
  rw [readAt_of_kind hfind, hcontent]
  rfl

theorem readText_of_decoded {content : List UInt8} {cs : List Char}
    (h : Yaml.decode content = .ok cs) (late : List UInt8 → Option Text.Utf8.Fault) :
    Yaml.readText late content = .ok cs := by
  rw [Yaml.readText, h]
  rfl

theorem parse_of_decoded {late : List UInt8 → Option Text.Utf8.Fault} {content : List UInt8}
    {cs : List Char} (h : Yaml.decode content = .ok cs) : parse late shown content =
      match Yaml.load cs with
      | .error .malformed => .error (.malformed shown)
      | .error f => .error (.scalar f)
      | .ok v =>
        match (if v.isNull then Value.map [] else v).entries? with
        | some es => .ok (underRoot es (if v.isNull then .map [] else v))
        | none => .error (.notMapping shown) := by
  unfold parse
  rw [readText_of_decoded h]
  rfl

theorem eq_null_of_isNull {v : Value} (h : v.isNull = true) : v = .null := by
  cases v with
  | null => rfl
  | _ => cases h

theorem isNull_of_entries? {v : Value} (h : v.entries?.isSome = true) : v.isNull = false := by
  cases v with
  | null => cases h
  | _ => rfl

theorem Holds.sound {content : List UInt8} {v : Value} (h : Holds content v) : v.Sound := by
  cases h with
  | nothing => exact sound_of_ends rfl
  | mapping _ hload => exact Yaml.load_sound hload

theorem Holds.parse_eq {content : List UInt8} {v : Value} (h : Holds content v)
    (late : List UInt8 → Option Text.Utf8.Fault) (shown : String) :
    ∃ es, v.entries? = some es ∧ parse late shown content = .ok (underRoot es v) := by
  cases h with
  | nothing hdecode hload =>
    refine ⟨[], rfl, ?_⟩
    rw [parse_of_decoded hdecode, hload]
    rfl
  | mapping hdecode hload hentries =>
    obtain ⟨es, hes⟩ := Option.isSome_iff_exists.1 hentries
    refine ⟨es, hes, ?_⟩
    rw [parse_of_decoded hdecode, hload]
    simp only [isNull_of_entries? hentries, Bool.false_eq_true, if_false, hes]

section Loading

variable {c : Settings} {s : Source}

theorem loadFile_of_placeOf_error {f : FileFault} (h : placeOf d shown = .error f) :
    c.loadFile d shown s = .error f :=
  bind_eq_error.2 (.inl h)

theorem loadFile_of_readAt_error {f : FileFault} (h : placeOf d shown = .ok place)
    (hread : readAt d place shown = .error f) : c.loadFile d shown s = .error f :=
  bind_eq_error.2 (.inr ⟨place, h, bind_eq_error.2 (.inl hread)⟩)

theorem Refused.loadFile_eq {f : FileFault} (h : Refused d shown f) :
    c.loadFile d shown s = .error f := by
  cases h with
  | absent hplace hfind hf =>
    refine loadFile_of_readAt_error hplace ?_
    rw [readAt_of_error hfind, if_pos hf]
  | unreadable hplace hfind hcontent =>
    refine loadFile_of_readAt_error hplace ?_
    rw [readAt_of_kind hfind, hcontent]
    rfl
  | malformed ho hdecode hload =>
    refine loadFile_of_readAt_error ho.leads ?_
    rw [ho.readAt_eq, parse_of_decoded hdecode, hload]
  | early ho hearly =>
    refine loadFile_of_readAt_error ho.leads (ho.readAt_eq.trans ?_)
    unfold parse
    rw [hearly]
    rfl
  | other ho hdecode hload hnull hes =>
    refine loadFile_of_readAt_error ho.leads ?_
    rw [ho.readAt_eq, parse_of_decoded hdecode, hload]
    simp only [hnull, Bool.false_eq_true, if_false, hes]

theorem Unforeseen.loadFile_eq {f : FileFault} (h : Unforeseen d shown f) :
    c.loadFile d shown s = .error f := by
  cases h with
  | homeless hexpand => exact loadFile_of_placeOf_error (placeOf_eq_error.2 (.inl ⟨hexpand, rfl⟩))
  | unnamable hexpand hbad =>
    exact loadFile_of_placeOf_error (placeOf_eq_error.2 (.inr ⟨_, _, _, hexpand, hbad, rfl⟩))
  | unfindable hplace hfind hf =>
    refine loadFile_of_readAt_error hplace ?_
    rw [readAt_of_error hfind, if_neg hf]
  | undecodable ho hdecode =>
    refine loadFile_of_readAt_error ho.leads (ho.readAt_eq.trans ?_)
    unfold parse
    rw [hdecode]
    rfl
  | @scalar place content cs f ho hdecode hload hf =>
    refine loadFile_of_readAt_error ho.leads ?_
    rw [ho.readAt_eq, parse_of_decoded hdecode, hload]
    cases f with
    | malformed => exact absurd rfl hf
    | _ => rfl

end Loading

theorem Offers.cases {content : List UInt8} (h : Offers d shown place content) :
    (∃ v, Holds content v) ∨ ∃ f, Refused d shown f ∨ Unforeseen d shown f := by
  cases hdecode : Yaml.decode content with
  | error g =>
    obtain ⟨f, hf⟩ : ∃ f, Yaml.readText d.late content = .error f := by
      rw [Yaml.readText, hdecode]
      exact ⟨_, rfl⟩
    cases f with
    | none => exact .inr ⟨_, .inl (.early h hf)⟩
    | some f => exact .inr ⟨_, .inr (.undecodable h hf)⟩
  | ok cs =>
    cases hload : Yaml.load cs with
    | error f =>
      by_cases hf : f = .malformed
      · subst hf
        exact .inr ⟨_, .inl (.malformed h hdecode hload)⟩
      · exact .inr ⟨_, .inr (.scalar h hdecode hload hf)⟩
    | ok v =>
      cases hnull : v.isNull with
      | true =>
        cases eq_null_of_isNull hnull
        exact .inl ⟨_, .nothing hdecode hload⟩
      | false =>
        cases hes : v.entries? with
        | none => exact .inr ⟨_, .inl (.other h hdecode hload hnull hes)⟩
        | some es => exact .inl ⟨v, .mapping hdecode hload (by rw [hes]; rfl)⟩

end Settings

namespace Workspace
open Settings

variable {w : Workspace} {d : Disk} {shown : String} {s : Source}

end Workspace

end NoteDecor
