import NoteDecor.Proofs.Steps
import NoteDecor.Proofs.Value.Fields
import NoteDecor.Proofs.Value.Freezing
import NoteDecor.Snapshot

/-! A snapshot that is written down and read again. Path, title and frontmatter come back as they
were, but one more mark is taken from each tag: what was read with two marks in front has lost both
of them after one cycle. -/

namespace NoteDecor.Snapshot
open Value

theorem readPath_ne {es : Entries} {path : String} (h : readPath es = .ok path) : path ≠ "" := by
  unfold readPath at h
  split at h
  · split at h
    · cases h
    · next hne =>
        cases h
        exact hne
  · cases h

theorem ofEntries_eq_ok {es : Entries} {s : Snapshot} :
    ofEntries es = .ok s ↔ ∃ path tags frontmatter title,
      readPath es = .ok path ∧ readTags es = .ok tags ∧ readFrontmatter es = .ok frontmatter ∧
      readTitle es = .ok title ∧ tags.all isWritable = true ∧ endsEach frontmatter = true ∧
      build path (tags.map display) frontmatter title = s := by
  unfold ofEntries
  simp only [bind_eq_ok]
  constructor
  · rintro ⟨path, hp, tags, ht, fm, hf, title, htt, hrest⟩
    split at hrest
    · cases hrest
    · split at hrest
      · cases hrest
      · next hw he =>
          cases hrest
          exact ⟨path, tags, fm, title, hp, ht, hf, htt, by simpa using hw, by simpa using he, rfl⟩
  · rintro ⟨path, tags, fm, title, hp, ht, hf, htt, hw, he, rfl⟩
    refine ⟨path, hp, tags, ht, fm, hf, title, htt, ?_⟩
    simp only [hw, he]
    rfl

structure WasRead (s : Snapshot) : Prop where
  path_ne : s.path ≠ ""
  frozen : freezeEntries s.frontmatter = s.frontmatter
  ends : endsEach s.frontmatter = true

theorem wasRead_of_ofEntries {es : Entries} {s : Snapshot} (h : ofEntries es = .ok s) :
    s.WasRead := by
  obtain ⟨path, tags, fm, title, hp, -, -, -, -, he, rfl⟩ := ofEntries_eq_ok.1 h
  refine ⟨readPath_ne hp, freezeEntries_freezeEntries fm, ?_⟩
  rw [build, ← endsEach_thawEntries, thawEntries_freezeEntries, endsEach_thawEntries]
  exact he

theorem readPath_toEntries {s : Snapshot} (h : s.path ≠ "") : readPath s.toEntries = .ok s.path := by
  have hp : s.toEntries.field? "path" = some (text s.path) := rfl
  rw [readPath, hp]
  exact if_neg h

theorem readTags_toEntries (s : Snapshot) : readTags s.toEntries = .ok (s.tags.map text) := by
  have ht : s.toEntries.field? "tags" = some (texts s.tags) := rfl
  rw [readTags, ht, Option.getD_some, texts, list_orElse]
  rfl

theorem readFrontmatter_toEntries (s : Snapshot) :
    readFrontmatter s.toEntries = .ok (thawEntries s.frontmatter) := by
  have hf : s.toEntries.field? "frontmatter" = some (map (thawEntries s.frontmatter)) := rfl
  rw [readFrontmatter, hf, Option.getD_some, map_orElse]
  rfl

theorem readTitle_toEntries (s : Snapshot) : readTitle s.toEntries = .ok (some s.title) := rfl

theorem ofEntries_toEntries {s : Snapshot} (h : s.WasRead) :
    ofEntries s.toEntries = .ok { s with tags := s.tags.map bareTag } := by
  refine ofEntries_eq_ok.2 ⟨s.path, s.tags.map text, thawEntries s.frontmatter, some s.title,
    readPath_toEntries h.path_ne, readTags_toEntries s, readFrontmatter_toEntries s,
    readTitle_toEntries s, all_isWritable_text s.tags, ?_, ?_⟩
  · rw [endsEach_thawEntries]
    exact h.ends
  · rw [build, map_display_text, freezeEntries_thawEntries, h.frozen, Option.getD_some]

theorem bareTag_cases (tag : String) :
    (∃ r, tag.toList = '#' :: r ∧ bareTag tag = String.ofList r) ∨
    ((∀ r, tag.toList ≠ '#' :: r) ∧ bareTag tag = tag) := by
  unfold bareTag
  split
  · next r hr => exact .inl ⟨r, hr, rfl⟩
  · next hno => exact .inr ⟨hno, rfl⟩

theorem startsWith_unmarked {tag : String} (h : ∀ r, tag.toList ≠ '#' :: r) (marks : List Char) :
    Text.startsWith (String.ofList ('#' :: marks)) tag = false := by
  unfold Text.startsWith
  rw [String.toList_ofList]
  cases hl : tag.toList with
  | nil => rfl
  | cons c r =>
    have hc : '#' ≠ c := fun hc => h r (hc ▸ hl)
    simp [List.isPrefixOf, hc]

theorem bareTag_eq_self_iff (tag : String) :
    bareTag tag = tag ↔ Text.startsWith "#" tag = false := by
  rcases bareTag_cases tag with ⟨r, hr, hbare⟩ | ⟨hno, hbare⟩
  · have hne : String.ofList r ≠ tag := by
      intro he
      rw [← he, String.toList_ofList] at hr
      exact List.cons_ne_self _ _ hr.symm
    simp [hbare, hne, Text.startsWith, hr]
  · exact iff_of_true hbare (startsWith_unmarked hno [])

theorem startsWith_bareTag (tag : String) :
    Text.startsWith "#" (bareTag tag) = Text.startsWith "##" tag := by
  rcases bareTag_cases tag with ⟨r, hr, hbare⟩ | ⟨hno, hbare⟩
  · simp [hbare, Text.startsWith, hr]
  · rw [hbare]
    exact (startsWith_unmarked hno []).trans (startsWith_unmarked hno ['#']).symm

theorem map_bareTag_eq_self_iff (tags : List String) :
    tags.map bareTag = tags ↔ ∀ tag ∈ tags, Text.startsWith "#" tag = false := by
  have hid : tags.map bareTag = tags ↔ tags.map bareTag = tags.map id := by rw [List.map_id]
  rw [hid, List.map_inj_left]
  simp only [id_eq, bareTag_eq_self_iff]

/-- What was read from data comes back from one cycle of writing and reading with a mark less on
each tag, and therefore the same exactly if no tag of the data has two marks in front. -/
theorem ofValue_toValue {v : Value} {s : Snapshot} (h : ofValue v = .ok s) :
    ofValue s.toValue = .ok { s with tags := s.tags.map bareTag } ∧
    ∃ es tags, v.entries? = some es ∧ readTags es = .ok tags ∧
      (ofValue s.toValue = .ok s ↔ ∀ t ∈ tags, Text.startsWith "##" t.display = false) := by
  unfold ofValue at h
  split at h
  · next es hes =>
      have hcycle : ofValue s.toValue = .ok { s with tags := s.tags.map bareTag } :=
        ofEntries_toEntries (wasRead_of_ofEntries h)
      obtain ⟨path, tags, fm, title, -, ht, -, -, -, -, rfl⟩ := ofEntries_eq_ok.1 h
      -- The tags of the snapshot have lost one mark already: what is taken now was the second.
      refine ⟨hcycle, es, tags, hes, ht, ?_⟩
      have hsame : ofValue (build path (tags.map display) fm title).toValue =
          .ok (build path (tags.map display) fm title) ↔
          ((tags.map display).map bareTag).map bareTag = (tags.map display).map bareTag := by
        rw [hcycle]
        simp [build]
      rw [hsame, map_bareTag_eq_self_iff]
      simp only [List.forall_mem_map, startsWith_bareTag]
  · cases h

def twiceMarked : Value := .record [("path", .text "x.md"), ("tags", .texts ["##work"])]

theorem ofValue_toValue_marked : ∃ s, ofValue twiceMarked = .ok s ∧ s.tags = ["#work"] ∧
    ofValue s.toValue = .ok { s with tags := ["work"] } := by
  have h : ofValue twiceMarked = .ok ⟨"x.md", "x", ["#work"], []⟩ := by rfl
  exact ⟨_, h, rfl, (ofValue_toValue h).1⟩

theorem ofValue_toValue_ne : ∃ s, ofValue twiceMarked = .ok s ∧ ofValue s.toValue ≠ .ok s := by
  refine ⟨⟨"x.md", "x", ["#work"], []⟩, rfl, ?_⟩
  have hcycle : ofValue (toValue ⟨"x.md", "x", ["#work"], []⟩) = .ok ⟨"x.md", "x", ["work"], []⟩ :=
    rfl
  rw [hcycle]
  simp

end NoteDecor.Snapshot
