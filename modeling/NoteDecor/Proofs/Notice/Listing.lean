import Mathlib.Data.List.Forall2
import NoteDecor.Notice.Render
import NoteDecor.Proofs.Steps

/-! The text of the notice that stands ready: a heading, and for each warning a line with its
message and one with its error. Its template is read in three steps, each of them by evaluation. -/

namespace NoteDecor.Notice

deriving instance DecidableEq for Template.Piece

def heading : String := "⚠️ File Metadata Decorator\n"

def listed (w : Warning) : String := w.message ++ "\n" ++ w.error ++ "\n"

def listing (ws : List Warning) : String :=
  dropLastBreaks (heading ++ String.join (ws.map listed))

def warningField (name : String) : Term := .field (.name "warning") name

def warningParts : List Part :=
  [.text "Failed to load rule file for \"", .output (warningField "rule_name"), .text "\": ",
    .output (warningField "file_path"), .text "\n", .output (warningField "error"), .text "\n"]

def defaultPieces : List Template.Piece :=
  [.text heading.toList, .mark " for warning in warnings ".toList,
    .text "Failed to load rule file for \"".toList, .output " warning.rule_name ".toList,
    .text "\": ".toList, .output " warning.file_path ".toList,
    .text "\n".toList, .output " warning.error ".toList, .text "\n".toList,
    .mark " endfor ".toList]

theorem pieces_default : Template.pieces ((Template.body defaultTemplate).length + 1) []
    (Template.body defaultTemplate) = some defaultPieces := by
  decide +kernel

theorem wordsOf_marks : [" for warning in warnings ", " endfor "].map
    (fun s => Term.wordsOf s.toList) =
      [[.name "for", .name "warning", .name "in", .name "warnings"], [.name "endfor"]] := by
  decide +kernel

theorem ofWords?_outputs : [" warning.rule_name ", " warning.file_path ", " warning.error "].map
    (fun s => Term.ofWords? (Term.wordsOf s.toList)) =
      [some (warningField "rule_name"), some (warningField "file_path"),
        some (warningField "error")] := by
  decide +kernel

theorem ofWords?_warnings : Term.ofWords? [.name "warnings"] = some (.name "warnings") := by
  decide +kernel

theorem ofText?_default : Template.ofText? defaultTemplate =
    some [.text heading, .each "warning" (.name "warnings") warningParts] := by
  have hmarks := wordsOf_marks
  have houtputs := ofWords?_outputs
  simp only [List.map_cons, List.map_nil, List.cons.injEq, and_true] at hmarks houtputs
  obtain ⟨hfor, hend⟩ := hmarks
  obtain ⟨hname, hpath, herror⟩ := houtputs
  unfold Template.ofText?
  dsimp only
  rw [pieces_default]
  simp only [defaultPieces, Template.nest, hfor, hend, hname, hpath, herror, ofWords?_warnings,
    Option.bind_eq_bind, Option.bind_some, String.ofList_toList, List.reverse_cons,
    List.reverse_nil, List.nil_append, List.cons_append]
  rfl

variable {names : Names}

theorem renderPart_text (s : String) : renderPart names (.text s) = .ok s := by
  rw [renderPart]

theorem renderAll_eq_join {ps : List Part} {texts : List String}
    (h : List.Forall₂ (fun p text => renderPart names p = .ok text) ps texts) :
    renderAll names ps = .ok (String.join texts) := by
  induction h with
  | nil => rw [renderAll, String.join_nil]
  | cons hp _ ih =>
    rw [renderAll, hp, ih, String.join_cons]
    rfl

theorem renderPart_warningField (items : List Datum) (index : Nat) (w : Warning) {f : String}
    {d : Datum} (hd : Datum.warningField? w f = some d) :
    renderPart (within names "warning" items index (.warning w)) (.output (warningField f)) =
      .ok d.display := by
  have hw : Term.datum (within names "warning" items index (.warning w)) (.name "warning") =
      .ok (.warning w) := rfl
  have hf : Term.datum (within names "warning" items index (.warning w)) (warningField f) =
      .ok d := by
    rw [warningField, Term.datum, hw]
    change Datum.defined (Datum.warningField? w f) = _
    rw [hd]
    rfl
  rw [renderPart, hf]
  rfl

theorem warningField?_named (w : Warning) :
    Datum.warningField? w "rule_name" = some (.text w.ruleName) ∧
    Datum.warningField? w "file_path" = some (.text w.filePath) ∧
    Datum.warningField? w "error" = some (.text w.error) := by
  simp [Datum.warningField?]

theorem renderAll_warningParts (items : List Datum) (index : Nat) (w : Warning) :
    renderAll (within names "warning" items index (.warning w)) warningParts = .ok (listed w) := by
  obtain ⟨hname, hpath, herror⟩ := warningField?_named w
  have htexts : List.Forall₂
      (fun p text => renderPart (within names "warning" items index (.warning w)) p = .ok text)
      warningParts ["Failed to load rule file for \"", w.ruleName, "\": ", w.filePath, "\n", w.error,
        "\n"] :=
    .cons (renderPart_text _) <| .cons (renderPart_warningField items index w hname) <|
    .cons (renderPart_text _) <| .cons (renderPart_warningField items index w hpath) <|
    .cons (renderPart_text _) <| .cons (renderPart_warningField items index w herror) <|
    .cons (renderPart_text _) .nil
  rw [renderAll_eq_join htexts]
  rfl

theorem mapM_rounds (items : List Datum) (ws : List Warning) (k : Nat) :
    ((ws.map Datum.warning).zipIdx k).mapM
      (fun p => renderAll (within names "warning" items p.2 p.1) warningParts) =
      .ok (ws.map listed) := by
  induction ws generalizing k with
  | nil => rfl
  | cons w ws ih =>
    rw [List.map_cons, List.zipIdx_cons]
    exact mapM_cons_eq_ok.2 ⟨_, _, renderAll_warningParts items k w, ih (k + 1), rfl⟩

theorem default_eq_listing {ws : List Warning} (h : ws ≠ []) :
    Notice.default ws = .ok (listing ws) := by
  have hloop : renderPart [("warnings", .warnings ws)]
      (.each "warning" (.name "warnings") warningParts) =
        .ok (String.join (ws.map listed)) := by
    rw [renderPart]
    exact bind_eq_ok.2 ⟨_, rfl, bind_eq_ok.2 ⟨_, rfl, bind_eq_ok.2 ⟨_, mapM_rounds _ ws 1, rfl⟩⟩⟩
  have hsound : Part.allSound [.text heading, .each "warning" (.name "warnings") warningParts] =
      true := by
    decide +kernel
  have hall := renderAll_eq_join (.cons (renderPart_text heading) (.cons hloop .nil))
  unfold Notice.default render
  rw [if_neg (by simpa using h), if_neg (by decide), ofText?_default]
  simp only [hsound, hall, String.join_cons, String.join_nil, String.append_empty]
  rfl

end NoteDecor.Notice
