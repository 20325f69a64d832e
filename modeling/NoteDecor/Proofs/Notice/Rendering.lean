import Mathlib.Data.List.Forall2
import NoteDecor.Notice.Render
import NoteDecor.Proofs.Steps

/-! Which templates have a text for all warnings: those that name nothing but what is there, go
through warnings only, and ask for nothing but fields of a warning. The notice that stands ready is
one of them. -/

namespace NoteDecor.Notice

inductive Shape where
  | warnings
  | warning
  | plain
  deriving DecidableEq

def Shape.Covers : Shape → Datum → Prop
  | warnings, .warnings _ | warning, .warning _ | plain, _ => True
  | _, _ => False

abbrev Shapes := List (String × Shape)

def Shapes.find? (shapes : Shapes) (name : String) : Option Shape :=
  (List.find? (fun n => n.1 == name) shapes).map (·.2)

def Term.shape? (shapes : Shapes) : Term → Option Shape
  | .name s => shapes.find? s
  | .field t f =>
    if t.shape? shapes = some .warning ∧ f ∈ ["rule_name", "file_path", "error", "message"] then
      some .plain
    else none
  | _ => none

def Shapes.within (shapes : Shapes) (name : String) : Shapes :=
  (name, .warning) :: (Part.loopName, .plain) :: shapes

mutual

def Part.fits (shapes : Shapes) : Part → Bool
  | .text _ => true
  | .output t => (t.shape? shapes).isSome
  | .each name items body =>
    items.shape? shapes = some .warnings && Part.allFit (shapes.within name) body

def Part.allFit (shapes : Shapes) : List Part → Bool
  | [] => true
  | p :: ps => p.fits shapes && Part.allFit shapes ps

end

def Names.Fit (names : Names) (shapes : Shapes) : Prop :=
  List.Forall₂ (fun n k => n.1 = k.1 ∧ k.2.Covers n.2) names shapes

theorem Names.Fit.find? {names : Names} {shapes : Shapes} (h : names.Fit shapes) {s : String}
    {shape : Shape} (hs : shapes.find? s = some shape) :
    ∃ d, names.find? s = some d ∧ shape.Covers d := by
  induction h with
  | nil => cases hs
  | @cons n k _ _ hn _ ih =>
    unfold Shapes.find? at hs
    unfold Names.find?
    rw [List.find?_cons] at hs ⊢
    rw [hn.1]
    cases hk : k.1 == s with
    | true =>
      simp only [hk] at hs ⊢
      cases hs
      exact ⟨n.2, rfl, hn.2⟩
    | false =>
      simp only [hk] at hs ⊢
      exact ih hs

theorem warningField?_isSome {f : String}
    (hf : f ∈ ["rule_name", "file_path", "error", "message"]) (w : Warning) :
    ∃ d, (Datum.warning w).field? f = some d := by
  simp only [List.mem_cons, List.not_mem_nil, or_false] at hf
  rcases hf with rfl | rfl | rfl | rfl <;> exact ⟨_, rfl⟩

theorem Term.datum_of_shape {names : Names} {shapes : Shapes} (h : names.Fit shapes) :
    ∀ {t : Term} {shape : Shape}, t.shape? shapes = some shape →
      ∃ d, t.datum names = .ok d ∧ shape.Covers d := by
  intro t
  induction t with
  | name s =>
    intro shape hs
    obtain ⟨d, hd, hc⟩ := h.find? hs
    refine ⟨d, ?_, hc⟩
    rw [Term.datum, hd]
    rfl
  | field t f ih =>
    intro shape hs
    rw [Term.shape?] at hs
    split at hs
    · next hf =>
      cases hs
      obtain ⟨d, hd, hc⟩ := ih hf.1
      cases d with
      | warning w =>
        obtain ⟨d', hd'⟩ := warningField?_isSome hf.2 w
        refine ⟨d', ?_, trivial⟩
        rw [Term.datum, hd]
        change Datum.defined ((Datum.warning w).field? f) = _
        rw [hd']
        rfl
      | _ => cases hc
    · cases hs
  | _ => intro shape hs; cases hs

theorem Names.Fit.within {names : Names} {shapes : Shapes} (h : names.Fit shapes) (name : String)
    (items : List Datum) (index : Nat) (w : Warning) :
    (Notice.within names name items index (.warning w)).Fit (shapes.within name) :=
  .cons ⟨rfl, trivial⟩ (.cons ⟨rfl, trivial⟩ h)

mutual

theorem renderPart_of_fits : ∀ (p : Part) {names : Names} {shapes : Shapes}, names.Fit shapes →
    p.fits shapes = true → ∃ s, renderPart names p = .ok s
  | .text s, names, shapes, h, hp => ⟨s, by rw [renderPart]⟩
  | .output t, names, shapes, h, hp => by
    obtain ⟨shape, hs⟩ := Option.isSome_iff_exists.1 hp
    obtain ⟨d, hd, -⟩ := Term.datum_of_shape h hs
    refine ⟨d.display, ?_⟩
    rw [renderPart, hd]
    rfl
  | .each name items body, names, shapes, h, hp => by
    rw [Part.fits, Bool.and_eq_true, decide_eq_true_eq] at hp
    obtain ⟨d, hd, hc⟩ := Term.datum_of_shape h hp.1
    cases d with
    | warnings ws =>
      -- Every round has its warning under the name that the body was checked with.
      have hrounds : ∀ p ∈ (ws.map Datum.warning).zipIdx 1, ∃ text,
          renderAll (Notice.within names name (ws.map Datum.warning) p.2 p.1) body = .ok text := by
        intro p hmem
        obtain ⟨w, -, hw⟩ := List.mem_map.1 (List.fst_mem_of_mem_zipIdx hmem)
        rw [← hw]
        exact renderAll_of_fits body (h.within name _ p.2 w) hp.2
      obtain ⟨texts, htexts⟩ := exists_mapM_eq_ok hrounds
      rw [renderPart, hd]
      refine ⟨String.join texts, ?_⟩
      exact bind_eq_ok.2 ⟨_, rfl, bind_eq_ok.2 ⟨_, rfl, bind_eq_ok.2 ⟨texts, htexts, rfl⟩⟩⟩
    | _ => cases hc

theorem renderAll_of_fits : ∀ (ps : List Part) {names : Names} {shapes : Shapes},
    names.Fit shapes → Part.allFit shapes ps = true → ∃ s, renderAll names ps = .ok s
  | [], names, shapes, h, hp => ⟨"", by rw [renderAll]⟩
  | p :: ps, names, shapes, h, hp => by
    rw [Part.allFit, Bool.and_eq_true] at hp
    obtain ⟨s, hs⟩ := renderPart_of_fits p h hp.1
    obtain ⟨r, hr⟩ := renderAll_of_fits ps h hp.2
    refine ⟨s ++ r, ?_⟩
    rw [renderAll, hs, hr]
    rfl

end

def isSafe (template : String) : Bool :=
  match Template.ofText? template with
  | some parts => Part.allSound parts && Part.allFit [("warnings", .warnings)] parts
  | none => false

theorem render_of_isSafe {template : String} (h : isSafe template = true) (hne : template ≠ "")
    (ws : List Warning) : ∃ s, render ws template = .ok s := by
  unfold render
  split
  · exact ⟨"", rfl⟩
  · unfold isSafe at h
    split at h
    · next parts hparts =>
      rw [Bool.and_eq_true] at h
      have hnames : Names.Fit [("warnings", .warnings ws)] [("warnings", .warnings)] :=
        .cons ⟨rfl, trivial⟩ .nil
      obtain ⟨s, hs⟩ := renderAll_of_fits parts hnames h.2
      rw [hparts]
      refine ⟨dropLastBreaks s, ?_⟩
      simp only [h.1, hs]
      rfl
    · cases h

theorem default_ok (ws : List Warning) : ∃ s, Notice.default ws = .ok s :=
  render_of_isSafe (by decide +kernel) (by decide) ws

end NoteDecor.Notice
