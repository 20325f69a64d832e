import NoteDecor.Engine.Evaluation
import NoteDecor.Proofs.Log.Journal
import NoteDecor.Proofs.Match.Frontmatter
import NoteDecor.Proofs.Value.Merging

/-! Which documents criteria match. Whatever excludes a document comes before all that would include
it, and it takes more tokens of the one kind to lose a match and more of the other to gain one; how
often a token stands in a list, and where, is of no account. -/

namespace NoteDecor

def IsExcluding (token : String) : Prop := ∃ x, token = "!" ++ x

def Bars (tokens : List String) (fits : String → Prop) : Prop := ∃ x, "!" ++ x ∈ tokens ∧ fits x

def Admits (tokens : List String) (fits : String → Prop) : Prop :=
  ∃ t ∈ tokens, ¬ IsExcluding t ∧ fits t

theorem excluded?_eq_some_iff {token x : String} :
    excluded? token = some x ↔ token = "!" ++ x := by
  have hlist : token = "!" ++ x ↔ token.toList = '!' :: x.toList := by
    rw [← String.toList_inj, String.toList_append]
    rfl
  rw [hlist]
  unfold excluded?
  split
  · next r hr =>
    rw [hr, Option.some.injEq, List.cons.injEq, ← String.toList_inj, String.toList_ofList]
    simp
  · next hno =>
    refine iff_of_false (by simp) ?_
    intro hx
    exact hno _ hx

theorem excluded?_eq_none_iff {token : String} : excluded? token = none ↔ ¬ IsExcluding token := by
  unfold IsExcluding
  rw [Option.eq_none_iff_forall_ne_some, not_exists]
  simp only [ne_eq, excluded?_eq_some_iff]

namespace Polarity

theorem any_negative_iff {tokens : List String} {p : String → Bool} {fits : String → Prop}
    (hp : ∀ x, p x = true ↔ fits x) :
    (ofTokens tokens).negative.any p = true ↔ Bars tokens fits := by
  unfold ofTokens Bars
  simp only [List.any_eq_true, List.mem_filterMap, excluded?_eq_some_iff, hp]
  constructor
  · rintro ⟨x, ⟨token, hmem, rfl⟩, hx⟩
    exact ⟨x, hmem, hx⟩
  · rintro ⟨x, hmem, hx⟩
    exact ⟨x, ⟨_, hmem, rfl⟩, hx⟩

theorem any_positive_iff {tokens : List String} {p : String → Bool} {fits : String → Prop}
    (hp : ∀ x, p x = true ↔ fits x) :
    (ofTokens tokens).positive.any p = true ↔ Admits tokens fits := by
  unfold ofTokens Admits
  simp only [List.any_eq_true, List.mem_filter, Option.isNone_iff_eq_none, excluded?_eq_none_iff,
    hp, and_assoc]

end Polarity

namespace Snapshot

def Tagged (s : Snapshot) (tag : String) : Prop := tag ∈ s.tags
def Under (s : Snapshot) (start : String) : Prop := start.toList <+: s.path.toList
def Titled (s : Snapshot) (part : String) : Prop := part.toList <:+: s.title.toList

theorem hasTag_iff (s : Snapshot) (tag : String) : s.hasTag tag = true ↔ s.Tagged tag := by
  simp [hasTag, Tagged]

theorem liesUnder_iff (s : Snapshot) (start : String) : s.liesUnder start = true ↔ s.Under start :=
  Text.startsWith_iff start s.path

theorem isTitled_iff (s : Snapshot) (part : String) : s.isTitled part = true ↔ s.Titled part :=
  Text.occurs_iff part.toList s.title.toList

end Snapshot

namespace Criteria

variable {c c' : Criteria} {s : Snapshot} {v : Verdict} {kind : String → Prop}

def Excludes (c : Criteria) (s : Snapshot) : Prop :=
  Bars c.tags s.Tagged ∨ Bars c.paths s.Under ∨ Bars c.titles s.Titled

def FitsTag (c : Criteria) (s : Snapshot) : Prop := Admits c.tags s.Tagged
def FitsPath (c : Criteria) (s : Snapshot) : Prop := Admits c.paths s.Under
def FitsTitle (c : Criteria) (s : Snapshot) : Prop := Admits c.titles s.Titled

def FitsFrontmatter (c : Criteria) (s : Snapshot) : Prop :=
  (∃ e ∈ c.frontmatter, Frontmatter.Agrees s.frontmatter e) ∧
    ¬ Frontmatter.IsFirst c.frontmatter s.frontmatter .null

/-- Nothing excludes the document, and something includes it. -/
def Matches (c : Criteria) (s : Snapshot) : Prop :=
  ¬ c.Excludes s ∧ (c.FitsTag s ∨ c.FitsPath s ∨ c.FitsTitle s ∨ c.FitsFrontmatter s)

structure Silent (c : Criteria) (s : Snapshot) : Prop where
  excludes : ¬ c.Excludes s
  tag : ¬ c.FitsTag s
  path : ¬ c.FitsPath s
  title : ¬ c.FitsTitle s

/-- It is up to the frontmatter, and a number that is too long is met in it. -/
def IsStuck (c : Criteria) (s : Snapshot) : Prop :=
  c.Silent s ∧ Frontmatter.IsBlocked c.frontmatter s.frontmatter

/-- The first reason that holds, in the order in which they are looked at. -/
inductive Decided (c : Criteria) (s : Snapshot) : Verdict → Prop
  | excluded (hx : c.Excludes s) : Decided c s .excluded
  | tag (hx : ¬ c.Excludes s) (htag : c.FitsTag s) : Decided c s .tag
  | path (hx : ¬ c.Excludes s) (htag : ¬ c.FitsTag s) (hpath : c.FitsPath s) : Decided c s .path
  | title (hx : ¬ c.Excludes s) (htag : ¬ c.FitsTag s) (hpath : ¬ c.FitsPath s)
      (htitle : c.FitsTitle s) : Decided c s .title
  | frontmatter {key : Value} (hsilent : c.Silent s)
      (hkey : Frontmatter.IsFirst c.frontmatter s.frontmatter key) (hnull : key.isNull = false) :
      Decided c s (.frontmatter key)
  | unmatched (hsilent : c.Silent s) (hnone : ¬ c.FitsFrontmatter s) : Decided c s .unmatched

theorem excludes_iff :
    ((Polarity.ofTokens c.tags).negative.any s.hasTag ||
      (Polarity.ofTokens c.paths).negative.any s.liesUnder ||
      (Polarity.ofTokens c.titles).negative.any s.isTitled) = true ↔ c.Excludes s := by
  unfold Excludes
  rw [Bool.or_eq_true, Bool.or_eq_true, or_assoc, Polarity.any_negative_iff s.hasTag_iff,
    Polarity.any_negative_iff s.liesUnder_iff, Polarity.any_negative_iff s.isTitled_iff]

theorem fitsTag_iff : (Polarity.ofTokens c.tags).positive.any s.hasTag = true ↔ c.FitsTag s :=
  Polarity.any_positive_iff s.hasTag_iff

theorem fitsPath_iff : (Polarity.ofTokens c.paths).positive.any s.liesUnder = true ↔ c.FitsPath s :=
  Polarity.any_positive_iff s.liesUnder_iff

theorem fitsTitle_iff :
    (Polarity.ofTokens c.titles).positive.any s.isTitled = true ↔ c.FitsTitle s :=
  Polarity.any_positive_iff s.isTitled_iff

theorem matchingKey_eq_some_iff {key : Value} :
    (Frontmatter.firstMatchingKey c.frontmatter s.frontmatter).filter (!·.isNull) = some key ↔
      Frontmatter.IsFirst c.frontmatter s.frontmatter key ∧ key.isNull = false := by
  rw [Option.filter_eq_some_iff, Frontmatter.firstMatchingKey_eq_some_iff, Bool.not_eq_true']

theorem exists_matchingKey_iff :
    (∃ key, Frontmatter.IsFirst c.frontmatter s.frontmatter key ∧ key.isNull = false) ↔
      c.FitsFrontmatter s := by
  unfold FitsFrontmatter
  rw [← Frontmatter.exists_firstMatchingKey_iff]
  simp only [← Frontmatter.firstMatchingKey_eq_some_iff]
  cases Frontmatter.firstMatchingKey c.frontmatter s.frontmatter with
  | none => simp
  | some key => cases key <;> simp [Value.isNull]

theorem matchingKey_eq_none_iff :
    (Frontmatter.firstMatchingKey c.frontmatter s.frontmatter).filter (!·.isNull) = none ↔
      ¬ c.FitsFrontmatter s := by
  rw [← exists_matchingKey_iff, Option.eq_none_iff_forall_ne_some, not_exists]
  simp only [ne_eq, matchingKey_eq_some_iff]

theorem decided_verdict (c : Criteria) (s : Snapshot) : c.Decided s (c.verdict s) := by
  unfold verdict
  dsimp only
  split_ifs with hx htag hpath htitle
  · exact .excluded (excludes_iff.1 hx)
  all_goals rw [excludes_iff] at hx
  · exact .tag hx (fitsTag_iff.1 htag)
  all_goals rw [fitsTag_iff] at htag
  · exact .path hx htag (fitsPath_iff.1 hpath)
  all_goals rw [fitsPath_iff] at hpath
  · exact .title hx htag hpath (fitsTitle_iff.1 htitle)
  rw [fitsTitle_iff] at htitle
  have hsilent : c.Silent s := ⟨hx, htag, hpath, htitle⟩
  split
  · next key hkey =>
    obtain ⟨hfirst, hnull⟩ := matchingKey_eq_some_iff.1 hkey
    exact .frontmatter hsilent hfirst hnull
  · next hnone => exact .unmatched hsilent (matchingKey_eq_none_iff.1 hnone)

theorem Silent.verdict_eq (h : c.Silent s) :
    c.verdict s = ((Frontmatter.firstMatchingKey c.frontmatter s.frontmatter).filter
      (!·.isNull)).elim .unmatched .frontmatter := by
  unfold verdict
  rw [if_neg (mt excludes_iff.1 h.excludes), if_neg (mt fitsTag_iff.1 h.tag),
    if_neg (mt fitsPath_iff.1 h.path), if_neg (mt fitsTitle_iff.1 h.title)]
  cases (Frontmatter.firstMatchingKey c.frontmatter s.frontmatter).filter (!·.isNull) <;> rfl

theorem Decided.verdict_eq (h : c.Decided s v) : c.verdict s = v := by
  cases h with
  | excluded hx =>
    unfold verdict
    rw [if_pos (excludes_iff.2 hx)]
  | tag hx htag =>
    unfold verdict
    rw [if_neg (mt excludes_iff.1 hx), if_pos (fitsTag_iff.2 htag)]
  | path hx htag hpath =>
    unfold verdict
    rw [if_neg (mt excludes_iff.1 hx), if_neg (mt fitsTag_iff.1 htag),
      if_pos (fitsPath_iff.2 hpath)]
  | title hx htag hpath htitle =>
    unfold verdict
    rw [if_neg (mt excludes_iff.1 hx), if_neg (mt fitsTag_iff.1 htag),
      if_neg (mt fitsPath_iff.1 hpath), if_pos (fitsTitle_iff.2 htitle)]
  | frontmatter hsilent hkey hnull =>
    rw [hsilent.verdict_eq, matchingKey_eq_some_iff.2 ⟨hkey, hnull⟩, Option.elim_some]
  | unmatched hsilent hnone =>
    rw [hsilent.verdict_eq, matchingKey_eq_none_iff.2 hnone, Option.elim_none]

theorem isMatch_verdict_iff : (c.verdict s).isMatch = true ↔ c.Matches s := by
  have hdecided := decided_verdict c s
  generalize c.verdict s = v at hdecided ⊢
  unfold Matches
  cases hdecided with
  | excluded hx => simp [Verdict.isMatch, hx]
  | tag hx htag => simp [Verdict.isMatch, hx, htag]
  | path hx htag hpath => simp [Verdict.isMatch, hx, hpath]
  | title hx htag hpath htitle => simp [Verdict.isMatch, hx, htitle]
  | frontmatter hsilent hkey hnull =>
    have hfits := exists_matchingKey_iff.1 ⟨_, hkey, hnull⟩
    simp [Verdict.isMatch, hsilent.excludes, hfits]
  | unmatched hsilent hnone =>
    simp [Verdict.isMatch, hsilent.tag, hsilent.path, hsilent.title, hnone]

theorem readsFrontmatter_verdict_iff : (c.verdict s).readsFrontmatter = true ↔ c.Silent s := by
  have hdecided := decided_verdict c s
  generalize c.verdict s = v at hdecided ⊢
  cases hdecided with
  | excluded hx => exact iff_of_false nofun fun hsilent => hsilent.excludes hx
  | tag hx htag => exact iff_of_false nofun fun hsilent => hsilent.tag htag
  | path hx htag hpath => exact iff_of_false nofun fun hsilent => hsilent.path hpath
  | title hx htag hpath htitle => exact iff_of_false nofun fun hsilent => hsilent.title htitle
  | frontmatter hsilent hkey hnull => exact iff_of_true rfl hsilent
  | unmatched hsilent hnone => exact iff_of_true rfl hsilent

theorem isStuck_iff : ((c.verdict s).readsFrontmatter &&
    Frontmatter.isObstructed c.frontmatter s.frontmatter) = true ↔ c.IsStuck s := by
  unfold IsStuck
  rw [Bool.and_eq_true, readsFrontmatter_verdict_iff, Frontmatter.isObstructed_iff]

theorem silent_make (frontmatter : Entries) (s : Snapshot) :
    (make [] [] [] frontmatter).Silent s := by
  constructor <;> simp [Excludes, FitsTag, FitsPath, FitsTitle, Bars, Admits, make]

def Adds (kind : String → Prop) (ts ts' : List String) : Prop :=
  (∀ t ∈ ts, t ∈ ts') ∧ ∀ t ∈ ts', t ∈ ts ∨ kind t

structure Extended (kind : String → Prop) (c c' : Criteria) : Prop where
  tags : Adds kind c.tags c'.tags
  paths : Adds kind c.paths c'.paths
  titles : Adds kind c.titles c'.titles
  frontmatter : c'.frontmatter = c.frontmatter

section Adding

variable {ts ts' : List String} {fits : String → Prop}

theorem Adds.bars (h : Adds kind ts ts') (hb : Bars ts fits) : Bars ts' fits := by
  obtain ⟨x, hx, hfits⟩ := hb
  exact ⟨x, h.1 _ hx, hfits⟩

theorem Adds.admits (h : Adds kind ts ts') (ha : Admits ts fits) : Admits ts' fits := by
  obtain ⟨t, ht, hplain, hfits⟩ := ha
  exact ⟨t, h.1 t ht, hplain, hfits⟩

theorem Adds.bars_of (h : Adds kind ts ts') (hk : ∀ t, kind t → ¬ IsExcluding t)
    (hb : Bars ts' fits) : Bars ts fits := by
  obtain ⟨x, hx, hfits⟩ := hb
  rcases h.2 _ hx with hold | hnew
  · exact ⟨x, hold, hfits⟩
  · exact absurd ⟨x, rfl⟩ (hk _ hnew)

theorem Adds.admits_of (h : Adds kind ts ts') (hk : ∀ t, kind t → IsExcluding t)
    (ha : Admits ts' fits) : Admits ts fits := by
  obtain ⟨t, ht, hplain, hfits⟩ := ha
  rcases h.2 t ht with hold | hnew
  · exact ⟨t, hold, hplain, hfits⟩
  · exact absurd (hk t hnew) hplain

end Adding

namespace Extended

theorem excludes (h : Extended kind c c') (hx : c.Excludes s) : c'.Excludes s :=
  hx.imp h.tags.bars (Or.imp h.paths.bars h.titles.bars)

theorem excludes_of (h : Extended kind c c') (hk : ∀ t, kind t → ¬ IsExcluding t)
    (hx : c'.Excludes s) : c.Excludes s :=
  hx.imp (h.tags.bars_of hk) (Or.imp (h.paths.bars_of hk) (h.titles.bars_of hk))

theorem fitsFrontmatter_iff (h : Extended kind c c') :
    c'.FitsFrontmatter s ↔ c.FitsFrontmatter s := by
  unfold FitsFrontmatter
  rw [h.frontmatter]

theorem matches_of_plain (h : Extended kind c c') (hk : ∀ t, kind t → ¬ IsExcluding t)
    (hm : c.Matches s) : c'.Matches s := by
  obtain ⟨hx, hfits⟩ := hm
  refine ⟨fun hx' => hx (h.excludes_of hk hx'), ?_⟩
  exact hfits.imp h.tags.admits
    (Or.imp h.paths.admits (Or.imp h.titles.admits h.fitsFrontmatter_iff.2))

theorem matches_of_excluding (h : Extended kind c c') (hk : ∀ t, kind t → IsExcluding t)
    (hm : c'.Matches s) : c.Matches s := by
  obtain ⟨hx, hfits⟩ := hm
  refine ⟨fun hx' => hx (h.excludes hx'), ?_⟩
  exact hfits.imp (h.tags.admits_of hk) (Or.imp (h.paths.admits_of hk)
    (Or.imp (h.titles.admits_of hk) h.fitsFrontmatter_iff.1))

theorem silent (h : Extended kind c c') (hs : c'.Silent s) : c.Silent s where
  excludes := fun hx => hs.excludes (h.excludes hx)
  tag := fun ht => hs.tag (h.tags.admits ht)
  path := fun hp => hs.path (h.paths.admits hp)
  title := fun ht => hs.title (h.titles.admits ht)

theorem silent_of_excluding (h : Extended kind c c') (hk : ∀ t, kind t → IsExcluding t)
    (hx : ¬ c'.Excludes s) (hs : c.Silent s) : c'.Silent s where
  excludes := hx
  tag := fun ht => hs.tag (h.tags.admits_of hk ht)
  path := fun hp => hs.path (h.paths.admits_of hk hp)
  title := fun ht => hs.title (h.titles.admits_of hk ht)

theorem isStuck_of_silent (h : Extended kind c c') (hc : c.IsStuck s) (hs : c'.Silent s) :
    c'.IsStuck s := by
  refine ⟨hs, ?_⟩
  rw [h.frontmatter]
  exact hc.2

theorem isStuck (h : Extended kind c c') (hc : c'.IsStuck s) : c.IsStuck s := by
  refine ⟨h.silent hc.1, ?_⟩
  rw [← h.frontmatter]
  exact hc.2

theorem decided (h : Extended (fun _ => False) c c') (hc : c.Decided s v) : c'.Decided s v := by
  have hx : c'.Excludes s → c.Excludes s := h.excludes_of nofun
  have htag : c'.FitsTag s → c.FitsTag s := h.tags.admits_of nofun
  have hpath : c'.FitsPath s → c.FitsPath s := h.paths.admits_of nofun
  cases hc with
  | excluded he => exact .excluded (h.excludes he)
  | tag he ht => exact .tag (mt hx he) (h.tags.admits ht)
  | path he ht hp => exact .path (mt hx he) (mt htag ht) (h.paths.admits hp)
  | title he ht hp htitle =>
    exact .title (mt hx he) (mt htag ht) (mt hpath hp) (h.titles.admits htitle)
  | frontmatter hsilent hkey hnull =>
    refine .frontmatter (h.silent_of_excluding nofun (mt hx hsilent.excludes) hsilent) ?_ hnull
    rw [h.frontmatter]
    exact hkey
  | unmatched hsilent hnone =>
    refine .unmatched (h.silent_of_excluding nofun (mt hx hsilent.excludes) hsilent) ?_
    rw [h.fitsFrontmatter_iff]
    exact hnone

end Extended

end Criteria

namespace Engine
open Criteria

variable {e : Engine} {c c' : Criteria} {s : Snapshot} {v : Verdict} {kind : String → Prop}

theorem note_eq (e : Engine) (level : Log.Level) (message : String) (own : Log.Context) :
    e.note level message own = { e with
      journal := { e.journal with
        records := e.journal.records ++ if e.journal.threshold.admits level
          then [.make level message e.journal.contexts own false] else [] } } := by
  unfold note Log.Journal.note
  rw [Log.Journal.add_eq]

theorem evaluateCriteria_of_stuck (h : c.IsStuck s) :
    e.evaluateCriteria c s = (e, .error (.misuse .unwritable)) := by
  unfold evaluateCriteria
  exact if_pos (isStuck_iff.2 h)

theorem evaluateCriteria_of_not_stuck (h : ¬ c.IsStuck s) :
    e.evaluateCriteria c s = (e.note .debug (c.verdict s).name ((c.verdict s).details s),
      .ok (if (c.verdict s).isMatch then some .empty else none)) := by
  unfold evaluateCriteria
  exact if_neg (mt isStuck_iff.1 h)

open Classical in
theorem evaluateCriteria_result (e : Engine) (c : Criteria) (s : Snapshot) :
    (e.evaluateCriteria c s).2 = if c.IsStuck s then .error (.misuse .unwritable)
      else .ok (if c.Matches s then some .empty else none) := by
  by_cases h : c.IsStuck s
  · rw [evaluateCriteria_of_stuck h, if_pos h]
  · rw [evaluateCriteria_of_not_stuck h, if_neg h]
    simp only [isMatch_verdict_iff]

theorem evaluateCriteria_eq_ok_some_iff :
    (e.evaluateCriteria c s).2 = .ok (some .empty) ↔ c.Matches s ∧ ¬ c.IsStuck s := by
  rw [evaluateCriteria_result]
  split_ifs <;> simp [*]

theorem evaluateCriteria_eq_ok_none_iff :
    (e.evaluateCriteria c s).2 = .ok none ↔ ¬ c.Matches s ∧ ¬ c.IsStuck s := by
  rw [evaluateCriteria_result]
  split_ifs <;> simp [*]

theorem evaluateCriteria_eq_error_iff :
    (e.evaluateCriteria c s).2 = .error (.misuse .unwritable) ↔ c.IsStuck s := by
  rw [evaluateCriteria_result]
  split_ifs <;> simp [*]

theorem evaluateCriteria_of_found {key : Value} (h : c.Silent s) (hnull : key.isNull = false)
    (hfound : Frontmatter.search c.frontmatter s.frontmatter = .ok (some key)) :
    e.evaluateCriteria c s = (e.note .debug "frontmatter matched"
      [("path", .text s.path), ("key", key)], .ok (some .empty)) := by
  by_cases hblocked : Frontmatter.IsBlocked c.frontmatter s.frontmatter
  · rw [Frontmatter.search_of_isBlocked hblocked] at hfound
    cases hfound
  · rw [Frontmatter.search_of_not_isBlocked hblocked, Except.ok.injEq] at hfound
    have hdecided : c.Decided s (.frontmatter key) :=
      .frontmatter h (Frontmatter.firstMatchingKey_eq_some_iff.1 hfound) hnull
    rw [evaluateCriteria_of_not_stuck fun hs => hblocked hs.2, hdecided.verdict_eq]
    rfl

theorem evaluateCriteria_rearranged (h : Extended (fun _ => False) c c') :
    e.evaluateCriteria c' s = e.evaluateCriteria c s := by
  have hv : c'.verdict s = c.verdict s := (h.decided (decided_verdict c s)).verdict_eq
  unfold evaluateCriteria
  rw [hv, h.frontmatter]

theorem evaluateCriteria_of_excluding (h : Extended IsExcluding c c')
    (hm : (e.evaluateCriteria c' s).2 = .ok (some .empty)) :
    (e.evaluateCriteria c s).2 = .ok (some .empty) := by
  rw [evaluateCriteria_eq_ok_some_iff] at hm ⊢
  obtain ⟨hmatches, hstuck⟩ := hm
  have hk : ∀ t, IsExcluding t → IsExcluding t := fun _ ht => ht
  refine ⟨h.matches_of_excluding hk hmatches, ?_⟩
  intro hc
  exact hstuck (h.isStuck_of_silent hc (h.silent_of_excluding hk hmatches.1 hc.1))

theorem evaluateCriteria_of_plain (h : Extended (¬ IsExcluding ·) c c')
    (hm : (e.evaluateCriteria c s).2 = .ok (some .empty)) :
    (e.evaluateCriteria c' s).2 = .ok (some .empty) := by
  rw [evaluateCriteria_eq_ok_some_iff] at hm ⊢
  exact ⟨h.matches_of_plain (fun _ ht => ht) hm.1, mt h.isStuck hm.2⟩

/-- Criteria yield an outcome exactly if they match, and none exactly if they do not, unless no
token decides and a number that is too long is met in the frontmatter first. What decided is the
one record that is added. Tokens may change places and be repeated; tokens that exclude make no
match, and the others take none away. -/
theorem evaluateCriteria_decides (e : Engine) (c : Criteria) (s : Snapshot) :
    ((e.evaluateCriteria c s).2 = .ok (some .empty) ↔ c.Matches s ∧ ¬ c.IsStuck s) ∧
    ((e.evaluateCriteria c s).2 = .ok none ↔ ¬ c.Matches s ∧ ¬ c.IsStuck s) ∧
    ((e.evaluateCriteria c s).2 = .error (.misuse .unwritable) ↔ c.IsStuck s) ∧
    (c.IsStuck s → (e.evaluateCriteria c s).1 = e) ∧
    (∀ v, c.Decided s v → ¬ c.IsStuck s →
      (e.evaluateCriteria c s).1 = { e with
        journal := { e.journal with
          records := e.journal.records ++ if e.journal.threshold.admits .debug
            then [.make .debug v.name e.journal.contexts (v.details s) false] else [] } }) ∧
    (∃ v, c.Decided s v ∧ ∀ w, c.Decided s w → w = v) ∧
    (∀ c', Extended (fun _ => False) c c' → e.evaluateCriteria c' s = e.evaluateCriteria c s) ∧
    (∀ c', Extended IsExcluding c c' → (e.evaluateCriteria c' s).2 = .ok (some .empty) →
      (e.evaluateCriteria c s).2 = .ok (some .empty)) ∧
    ∀ c', Extended (¬ IsExcluding ·) c c' → (e.evaluateCriteria c s).2 = .ok (some .empty) →
      (e.evaluateCriteria c' s).2 = .ok (some .empty) := by
  refine ⟨evaluateCriteria_eq_ok_some_iff, evaluateCriteria_eq_ok_none_iff,
    evaluateCriteria_eq_error_iff, ?_, ?_, ⟨c.verdict s, decided_verdict c s, ?_⟩,
    fun _ => evaluateCriteria_rearranged, fun _ => evaluateCriteria_of_excluding,
    fun _ => evaluateCriteria_of_plain⟩
  · intro h
    rw [evaluateCriteria_of_stuck h]
  · intro v hv h
    rw [evaluateCriteria_of_not_stuck h, hv.verdict_eq]
    exact note_eq ..
  · intro w hw
    exact hw.verdict_eq.symm

def eitherKey : Criteria := .make [] [] [] [(.text "b", .int 1), (.text "a", .int 1)]

def longNumbered : Snapshot :=
  ⟨"x.md", "x", [], [(.text "a", .int 1), (.text "b", Frontmatter.tooLong)]⟩

theorem evaluateCriteria_longNumbered : eitherKey.Matches longNumbered ∧
    ((start [] .debug).evaluateCriteria eitherKey longNumbered).2 =
      .error (.misuse .unwritable) := by
  have hsilent : eitherKey.Silent longNumbered := silent_make ..
  have hagrees : Frontmatter.Agrees longNumbered.frontmatter (.text "a", .int 1) :=
    ⟨.int 1, Entries.get?_text _ "a", "1", List.mem_cons_self, List.mem_cons_self⟩
  have hblocks : Frontmatter.Blocks longNumbered.frontmatter (.text "b", .int 1) :=
    ⟨Frontmatter.tooLong, Entries.get?_text _ "b", fun h => Frontmatter.not_legible_tooLong h.2⟩
  refine ⟨⟨hsilent.excludes, .inr (.inr (.inr ⟨⟨_, ?_, hagrees⟩, ?_⟩))⟩, ?_⟩
  · exact List.mem_cons_of_mem _ List.mem_cons_self
  · rintro ⟨before, v, after, hsplit, -, -⟩
    have hmem : (Value.null, v) ∈ eitherKey.frontmatter := by simp [hsplit]
    simp [eitherKey, make, Value.freezeEntries] at hmem
  · refine evaluateCriteria_eq_error_iff.2 ⟨hsilent, [], _, _, rfl, hblocks, ?_⟩
    simp

end Engine

end NoteDecor
