import Mathlib.Data.List.Nodup
import NoteDecor.Proofs.Json.Building
import NoteDecor.Proofs.Json.Tabs
import NoteDecor.Proofs.Rule.CriteriaText
import NoteDecor.Proofs.Settings.EnvironmentValues

/-! Criteria typed as a JSON object. They are what the object stands for, unless it holds one of a few
things that are taken in another way. -/

namespace NoteDecor.Json
open Yaml

def IsUnpaired (ps : List Piece) : Prop := ps.IsChain fun p q => p.pair? q = none

theorem charsOf_of_unpaired {ps : List Piece} (h : IsUnpaired ps) :
    charsOf ps = ps.map Piece.char := by
  induction ps with
  | nil => rfl
  | cons p ps ih =>
    cases ps with
    | nil => rfl
    | cons q ps =>
      obtain ⟨hpair, hrest⟩ := List.isChain_cons_cons.1 h
      rw [charsOf, hpair]
      exact congrArg (p.char :: ·) (ih hrest)

theorem isHalf_ofCodePoint (n : Nat) : isHalf (Text.ofCodePoint n) = Text.isHalf n := by
  rw [isHalf, Text.half?_ofCodePoint]
  cases Text.isHalf n <;> rfl

theorem halves_of_pair {p q : Piece} {c : Char} (h : p.pair? q = some c) :
    isHalf p.char = true ∧ isHalf q.char = true ∧ isHalf c = false := by
  cases p with
  | unit a b d e =>
    cases q with
    | unit a' b' d' e' =>
      unfold Piece.pair? at h
      unfold Piece.char
      dsimp only at h ⊢
      generalize codeUnit a b d e = high at h ⊢
      generalize codeUnit a' b' d' e' = low at h ⊢
      split at h
      · next hpair =>
        obtain ⟨hhigh, hhigh', hlow, hlow'⟩ := hpair
        rw [← Option.some.inj h, isHalf_ofCodePoint, isHalf_ofCodePoint, isHalf_ofCodePoint]
        refine ⟨Text.isHalf_iff.2 ⟨hhigh, by omega⟩, Text.isHalf_iff.2 ⟨by omega, hlow'⟩, ?_⟩
        rw [Bool.eq_false_iff, Ne, Text.isHalf_iff]
        omega
      · cases h
    | plain c hc => cases h
    | short e => cases h
  | plain c hc => cases h
  | short e => cases h

theorem halves_charsOf (ps : List Piece) :
    (charsOf ps).countP isHalf ≤ (ps.map Piece.char).countP isHalf := by
  induction ps using charsOf.induct with
  | case1 => exact Nat.le_refl 0
  | case2 p => exact Nat.le_refl _
  | case3 p q ps c hpair ih =>
    rw [charsOf, hpair]
    simp only [List.map_cons, List.countP_cons, (halves_of_pair hpair).2.2]
    simp only [Bool.false_eq_true, if_false]
    omega
  | case4 p q ps hpair ih =>
    rw [charsOf, hpair, List.map_cons, List.countP_cons, List.countP_cons]
    exact Nat.add_le_add_right ih _

/-- Two halves that are joined leave fewer of them. -/
theorem isUnpaired_of_halves {ps : List Piece}
    (h : (charsOf ps).countP isHalf = (ps.map Piece.char).countP isHalf) : IsUnpaired ps := by
  induction ps with
  | nil => exact .nil
  | cons p ps ih =>
    cases ps with
    | nil => exact .singleton p
    | cons q ps =>
      cases hpair : p.pair? q with
      | none =>
        rw [charsOf, hpair, List.map_cons, List.countP_cons, List.countP_cons] at h
        exact List.isChain_cons_cons.2 ⟨hpair, ih (Nat.add_right_cancel h)⟩
      | some c =>
        obtain ⟨hfirst, hsecond, hjoined⟩ := halves_of_pair hpair
        have hle := halves_charsOf ps
        rw [charsOf, hpair] at h
        simp only [List.map_cons, List.countP_cons, hfirst, hsecond, hjoined] at h
        simp only [Bool.false_eq_true, if_false, if_true] at h
        omega

/-- A string that means the same in both languages. -/
structure IsVerbatim (ps : List Piece) : Prop where
  unpaired : IsUnpaired ps
  unfolded : IsUnfolded ps

theorem readChars_eq_charsOf_iff {ps : List Piece} : readChars ps = charsOf ps ↔ IsVerbatim ps := by
  constructor
  · intro h
    have hunpaired : IsUnpaired ps := isUnpaired_of_halves (by rw [← h, halves_readChars])
    rw [charsOf_of_unpaired hunpaired] at h
    exact ⟨hunpaired, readChars_eq_map_iff.1 h⟩
  · intro h
    rw [charsOf_of_unpaired h.unpaired, readChars_eq_map_iff.2 h.unfolded]

/-- A scalar that means the same in both languages. -/
def Scalar.IsPortable : Scalar → Prop
  | string ps => IsVerbatim ps
  | number n => n.isWhole = true ∨ n.isDecimal = true
  | truth _ => True

theorem Scalar.read_eq_value_iff (x : Scalar) : x.read = x.value ↔ x.IsPortable := by
  cases x with
  | string ps =>
    rw [read, value, Value.text.injEq, String.ofList_inj]
    exact readChars_eq_charsOf_iff
  | number n =>
    change n.read = n.value ↔ _
    rw [Number.read]
    split
    · next h => exact iff_of_true rfl (Bool.or_eq_true_iff.1 h)
    · next h =>
      refine iff_of_false ?_ (mt Bool.or_eq_true_iff.2 h)
      intro h
      unfold Number.value at h
      split at h <;> cases h
  | truth b => exact iff_of_true rfl trivial

theorem natOf_lt (ds : List (Fin 10)) : natOf ds < Nat.pow 10 ds.length := by
  have hfold (n : Nat) : (ds.map Fin.val).foldl (fun n d => n * 10 + d) n <
      (n + 1) * 10 ^ ds.length := by
    induction ds generalizing n with
    | nil => simp
    | cons d ds ih =>
      have hd := d.isLt
      have hstep : (n * 10 + d.val + 1) * 10 ^ ds.length ≤ (n + 1) * 10 ^ (d :: ds).length := by
        rw [List.length_cons, Nat.pow_succ', ← Nat.mul_assoc]
        exact Nat.mul_le_mul_right _ (by omega)
      exact Nat.lt_of_lt_of_le (ih (n * 10 + d.val)) hstep
  have h := hfold 0
  rw [Nat.zero_add, Nat.one_mul] at h
  exact h

theorem Scalar.ne_malformed {x : Scalar} {f : Yaml.Fault} (h : x.fault? = some f) :
    f ≠ .malformed := by
  cases x with
  | number n =>
    rw [fault?, Number.fault?] at h
    split at h
    · rw [← Option.some.inj h]
      intro hf
      cases hf
    · cases h
  | string ps => cases h
  | truth b => cases h

theorem isWritable_value {n : Number} (hw : n.isWhole = true) (h : n.fault? = none) :
    n.value.isWritable = true := by
  have hshort : n.whole.length ≤ Numeral.decimalLimit := by
    rw [Number.fault?, hw, Bool.true_and] at h
    by_contra hlong
    rw [decide_eq_true (Nat.lt_of_not_le hlong)] at h
    cases h
  have hpow {i j : Nat} (h : i ≤ j) : Nat.pow 10 i ≤ Nat.pow 10 j :=
    Nat.pow_le_pow_right (by decide) h
  have hlt : natOf n.whole < Nat.pow 10 Numeral.decimalLimit :=
    Nat.lt_of_lt_of_le (natOf_lt n.whole) (hpow hshort)
  have habs : (Binary64.signed n.isNegative (natOf n.whole)).natAbs = natOf n.whole := by
    unfold Binary64.signed
    split
    · rw [Int.natAbs_neg, Int.natAbs_natCast]
    · exact Int.natAbs_natCast _
  rw [Number.value, if_pos hw, Value.isWritable, Value.writable, Numeral.isWritable, habs]
  exact decide_eq_true hlt

theorem unfit?_read {x : Scalar} (h : x.fault? = none) : Criteria.unfit? x.read = none := by
  have hfit : Criteria.isScalar x.read = true ∧ x.read.isWritable = true := by
    cases x with
    | string ps => exact ⟨rfl, rfl⟩
    | number n =>
      rw [Scalar.read, Number.read]
      split
      · cases hw : n.isWhole with
        | true =>
          refine ⟨?_, isWritable_value hw h⟩
          rw [Number.value, if_pos hw]
          rfl
        | false =>
          rw [Number.value, hw]
          exact ⟨rfl, rfl⟩
      · exact ⟨rfl, rfl⟩
    | truth b => exact ⟨rfl, rfl⟩
  rw [Criteria.unfit?, hfit.1, hfit.2]
  rfl

theorem items?_read (x : Scalar) : x.read.items? = none := by
  cases x with
  | string ps => rfl
  | number n =>
    rw [Scalar.read, Number.read, Number.value]
    split
    · split <;> rfl
    · rfl
  | truth b => rfl

theorem parts_valueBy (d : Datum) : Rule.parts (d.valueBy Scalar.read) = d.scalars.map Scalar.read := by
  cases d with
  | scalar x =>
    rw [Datum.valueBy, Rule.parts, items?_read]
    rfl
  | array xs => rfl

theorem mem_lastOfEach {ps : List (String × Value)} {e : Value × Value} (h : e ∈ lastOfEach ps) :
    ∃ p ∈ ps, e = (.text p.1, p.2) := by
  obtain ⟨p, hp, rfl⟩ := List.mem_map.1 h
  exact ⟨p, mem_of_mem_foldl_assign hp, rfl⟩

namespace Document

variable {d : Document}

def scalars (d : Document) : List Scalar := d.members.parts.flatMap fun m => m.datum.scalars

theorem mem_readingOrder {x : Scalar} : x ∈ d.readingOrder ↔ x ∈ d.scalars := by
  simp only [readingOrder, scalars, List.mem_append, List.mem_flatMap]
  rw [← exists_or]
  refine exists_congr fun m => ?_
  rw [← and_or_left]
  refine and_congr_right fun _ => ?_
  cases m.datum <;> simp [Datum.outer, Datum.inner, Datum.scalars]

theorem firstObjection?_read (h : ∀ x ∈ d.scalars, x.fault? = none) :
    Criteria.firstObjection? d.read = none := by
  rw [Criteria.firstObjection?, List.findSome?_eq_none_iff]
  intro e he
  rw [read_eq] at he
  obtain ⟨p, hp, rfl⟩ := mem_lastOfEach he
  obtain ⟨m, hm, rfl⟩ := List.mem_map.1 hp
  change (Rule.parts (m.datum.valueBy Scalar.read)).findSome? Criteria.unfit? = none
  rw [parts_valueBy, List.findSome?_map, List.findSome?_eq_none_iff]
  exact fun x hx => unfit?_read (h x (List.mem_flatMap.2 ⟨m, hm, hx⟩))

theorem not_isBlank : Criteria.isBlank (String.ofList d.text) = false := by
  have hbrace : '\x7b' ∈ d.text := List.mem_append_right _ (.head _)
  have hmem := Text.mem_strip hbrace (p := Text.isBlank) (by decide)
  rw [Criteria.isBlank, String.toList_ofList, Text.trim]
  cases htrim : Text.strip Text.isBlank d.text with
  | nil =>
    rw [htrim] at hmem
    cases hmem
  | cons c r => rfl

/-- Strings and numbers that mean the same in both languages. -/
structure IsPortable (d : Document) : Prop where
  keys : ∀ m ∈ d.members.parts, IsVerbatim m.key
  scalars : ∀ x ∈ d.scalars, x.IsPortable

/-- No two keys are the same, neither as they are meant nor as they are read. -/
structure IsKeyedOnce (d : Document) : Prop where
  meant : (d.members.parts.map fun m => charsOf m.key).Nodup
  read : (d.members.parts.map fun m => readChars m.key).Nodup

theorem entriesBy_of_nodup {key : List Piece → List Char} (value : Scalar → Value)
    (h : (d.members.parts.map fun m => key m.key).Nodup) : d.entriesBy key value =
      d.members.parts.map fun m => (.text (String.ofList (key m.key)), m.datum.valueBy value) := by
  have hnames : ((([] : List (String × Value)) ++ d.members.parts.map fun m =>
      (String.ofList (key m.key), m.datum.valueBy value)).map Prod.fst).Nodup := by
    have hinjective : Function.Injective String.ofList := fun _ _ heq => String.ofList_inj.1 heq
    have hnodup := List.Nodup.map hinjective h
    rw [List.map_map] at hnodup
    rw [List.nil_append, List.map_map]
    exact hnodup
  have hfold := foldl_assign_of_nodup hnames
  rw [List.foldl_map, List.nil_append] at hfold
  rw [entriesBy, hfold, Entries.fields, List.map_map]
  rfl

theorem valueBy_eq_iff {f g : Scalar → Value} {x : Datum} :
    x.valueBy f = x.valueBy g ↔ ∀ y ∈ x.scalars, f y = g y := by
  cases x with
  | scalar y => exact (List.forall_mem_singleton (p := fun y => f y = g y)).symm
  | array ys =>
    rw [Datum.valueBy, Datum.valueBy, Value.list.injEq, List.map_inj_left]
    rfl

theorem forall_scalars {P : Scalar → Prop} :
    (∀ x ∈ d.scalars, P x) ↔ ∀ m ∈ d.members.parts, ∀ x ∈ m.datum.scalars, P x := by
  rw [scalars, List.forall_mem_flatMap]

theorem read_eq_entries (h : d.IsPortable) : d.read = d.entries := by
  unfold read entries entriesBy
  congr 1
  refine List.foldl_ext _ _ _ fun es m hm => ?_
  have hvalue : m.datum.valueBy Scalar.read = m.datum.valueBy Scalar.value :=
    valueBy_eq_iff.2 fun x hx =>
      x.read_eq_value_iff.2 (forall_scalars.1 h.scalars m hm x hx)
  rw [readChars_eq_charsOf_iff.2 (h.keys m hm), hvalue]

theorem read_eq_entries_iff (hd : d.IsKeyedOnce) : d.read = d.entries ↔ d.IsPortable := by
  refine ⟨fun h => ?_, read_eq_entries⟩
  rw [read, entries, entriesBy_of_nodup _ hd.read, entriesBy_of_nodup _ hd.meant,
    List.map_inj_left] at h
  refine ⟨fun m hm => ?_, forall_scalars.2 fun m hm x hx => ?_⟩
  · have hkey := congrArg Prod.fst (h m hm)
    rw [Value.text.injEq, String.ofList_inj] at hkey
    exact readChars_eq_charsOf_iff.1 hkey
  · have hvalue := congrArg Prod.snd (h m hm)
    exact x.read_eq_value_iff.1 (valueBy_eq_iff.1 hvalue x hx)

/-- A document that can be read: every character is one that may stand in a text, there are no tabs
between the parts and no markers in the strings, and every key is in one line and near its colon. -/
structure IsReadable (d : Document) : Prop where
  allowed : ∀ x ∈ d.text, isAllowed x = true
  legible : d.IsLegible
  near : ∀ m ∈ d.members.parts, m.isNear = true

/-- Every whole number is short enough to be read. -/
def IsShort (d : Document) : Prop := ∀ x ∈ d.scalars, x.fault? = none

theorem load_text (hread : d.IsReadable) (hshort : d.IsShort) :
    Yaml.load d.text = .ok (.map d.read) := by
  have hfault : d.readingOrder.findSome? Scalar.fault? = none :=
    List.findSome?_eq_none_iff.2 fun x hx => hshort x (mem_readingOrder.1 hx)
  unfold Yaml.load
  rw [ofText_text hread.legible hread.allowed, ofTokens?_tokens hread.near]
  exact ofGraph_nodes hfault

theorem load_text_of_long (hread : d.IsReadable) (hlong : ¬ d.IsShort) :
    ∃ x ∈ d.scalars, ∃ f, x.fault? = some f ∧ Yaml.load d.text = .error f := by
  cases hfault : d.readingOrder.findSome? Scalar.fault? with
  | none =>
    refine absurd (fun x hx => ?_) hlong
    exact List.findSome?_eq_none_iff.1 hfault x (mem_readingOrder.2 hx)
  | some f =>
    obtain ⟨x, hx, hf⟩ := List.exists_of_findSome?_eq_some hfault
    refine ⟨x, mem_readingOrder.1 hx, f, hf, ?_⟩
    unfold Yaml.load
    rw [ofText_text hread.legible hread.allowed, ofTokens?_tokens hread.near]
    exact ofGraph_nodes_of_fault hfault

theorem load_text_of_unreadable (hread : ¬ d.IsReadable) :
    Yaml.load d.text = .error .malformed := by
  have hnodes : Node.ofTokens? (Token.ofText d.text) = .error .malformed := by
    by_cases hallowed : ∀ x ∈ d.text, isAllowed x = true
    · by_cases hlegible : d.IsLegible
      · have hfar : ∃ m ∈ d.members.parts, m.isNear = false := by
          by_contra hnone
          refine hread ⟨hallowed, hlegible, fun m hm => ?_⟩
          by_contra hm'
          exact hnone ⟨m, hm, Bool.not_eq_true _ ▸ hm'⟩
        rw [ofText_text hlegible hallowed]
        exact ofTokens?_tokens_of_far hfar
      · exact ofTokens?_of_illegible hlegible hallowed
    · rw [← List.all_eq_true] at hallowed
      unfold Token.ofText
      rw [if_neg hallowed]
      rfl
  unfold Yaml.load
  rw [hnodes]
  rfl

theorem parse_eq (hread : d.IsReadable) (hshort : d.IsShort) :
    Criteria.parseFrontmatter (String.ofList d.text) = .ok d.read := by
  have hload : Yaml.load (String.ofList d.text).toList = .ok (.map d.read) := by
    rw [String.toList_ofList]
    exact load_text hread hshort
  exact (Criteria.Accepted.mapping not_isBlank hload rfl (firstObjection?_read hshort)).parse_eq

theorem parse_of_long (hread : d.IsReadable) (hlong : ¬ d.IsShort) :
    ∃ x ∈ d.scalars, ∃ f, x.fault? = some f ∧
      Criteria.parseFrontmatter (String.ofList d.text) = .error (.scalar f) := by
  obtain ⟨x, hx, f, hf, hload⟩ := load_text_of_long hread hlong
  refine ⟨x, hx, f, hf, ?_⟩
  rw [Criteria.parseFrontmatter_of_text not_isBlank, String.toList_ofList, hload]
  cases f with
  | malformed => exact absurd rfl (Scalar.ne_malformed hf)
  | _ => rfl

theorem parse_of_unreadable (hread : ¬ d.IsReadable) :
    Criteria.parseFrontmatter (String.ofList d.text) = .error .malformed := by
  rw [Criteria.parseFrontmatter_of_text not_isBlank, String.toList_ofList,
    load_text_of_unreadable hread]

/-- An object is taken for what it stands for if it can be read, has no number that is too long, and
means the same in both languages; as long as no key comes twice, only then. Strings with halves that
belong together stay two halves, strings over several lines are folded, and numbers with an exponent
but without a fraction or without a sign in the exponent stay texts. Whatever cannot be read is bad
input, and a number that is too long has no value. -/
theorem parseFrontmatter_text (d : Document) :
    (d.IsReadable → d.IsShort → d.IsPortable →
      Criteria.parseFrontmatter (String.ofList d.text) = .ok d.entries) ∧
    (d.IsKeyedOnce → Criteria.parseFrontmatter (String.ofList d.text) = .ok d.entries →
      d.IsReadable ∧ d.IsShort ∧ d.IsPortable) ∧
    (∀ es, Criteria.parseFrontmatter (String.ofList d.text) = .ok es ↔
      d.IsReadable ∧ d.IsShort ∧ es = d.read) ∧
    (Criteria.parseFrontmatter (String.ofList d.text) = .error .malformed ↔ ¬ d.IsReadable) ∧
    (d.IsReadable → ¬ d.IsShort → ∃ x ∈ d.scalars, ∃ f, x.fault? = some f ∧
      Criteria.parseFrontmatter (String.ofList d.text) = .error (.scalar f)) := by
  have hok (es : Entries) : Criteria.parseFrontmatter (String.ofList d.text) = .ok es ↔
      d.IsReadable ∧ d.IsShort ∧ es = d.read := by
    refine ⟨fun h => ?_, fun ⟨hread, hshort, hes⟩ => hes ▸ parse_eq hread hshort⟩
    by_cases hread : d.IsReadable
    · by_cases hshort : d.IsShort
      · cases h.symm.trans (parse_eq hread hshort)
        exact ⟨hread, hshort, rfl⟩
      · obtain ⟨x, -, f, -, hf⟩ := parse_of_long hread hshort
        cases h.symm.trans hf
    · cases h.symm.trans (parse_of_unreadable hread)
  refine ⟨fun hread hshort hportable => ?_, fun honce h => ?_, hok, ?_, parse_of_long⟩
  · rw [← read_eq_entries hportable]
    exact parse_eq hread hshort
  · obtain ⟨hread, hshort, hentries⟩ := (hok _).1 h
    exact ⟨hread, hshort, (read_eq_entries_iff honce).1 hentries.symm⟩
  · refine ⟨fun h hread => ?_, parse_of_unreadable⟩
    by_cases hshort : d.IsShort
    · cases h.symm.trans (parse_eq hread hshort)
    · obtain ⟨x, -, f, -, hf⟩ := parse_of_long hread hshort
      cases h.symm.trans hf

def ofNumber (n : Number) : Document where
  before := ⟨[], List.forall_mem_nil _⟩
  members := .some ⟨⟨[], List.forall_mem_nil _⟩,
    ⟨[.plain 'a' rfl], ⟨[], List.forall_mem_nil _⟩, ⟨[' '], List.forall_mem_singleton.2 rfl⟩,
      .scalar (.number n)⟩, ⟨[], List.forall_mem_nil _⟩⟩ []
  after := ⟨[], List.forall_mem_nil _⟩

theorem ofNumber_isLegible (n : Number) : (ofNumber n).IsLegible := by
  have hempty : Gap.IsTabless ⟨[], List.forall_mem_nil _⟩ := List.not_mem_nil
  have hspace : Gap.IsTabless ⟨[' '], List.forall_mem_singleton.2 rfl⟩ := by
    intro h
    cases List.mem_singleton.1 h
  have hdatum : Datum.IsLegible (.scalar (.number n)) :=
    ⟨List.forall_mem_singleton.2 trivial, List.forall_mem_nil _⟩
  refine ⟨hempty, ?_, ?_, hempty⟩
  · exact List.forall_mem_singleton.2 ⟨rfl, hempty, hspace, hdatum⟩
  · exact List.forall_mem_cons.2 ⟨hempty, List.forall_mem_singleton.2 hempty⟩

theorem ofNumber_isReadable (n : Number) : (ofNumber n).IsReadable := by
  refine ⟨?_, ofNumber_isLegible n, List.forall_mem_singleton.2 rfl⟩
  have hmarks : ∀ c ∈ numberMarks, isAllowed c = true := List.all_eq_true.1 (by decide)
  let opening : List Char := ['\x7b', '\x22', 'a', '\x22', ':', ' ']
  have hopening : ∀ c ∈ opening, isAllowed c = true := List.all_eq_true.1 (by decide)
  have htext : (ofNumber n).text = opening ++ (n.text ++ ['\x7d']) := by
    simp [ofNumber, text, Listed.text, Spaced.text, moreText, Member.text, stringText, Piece.text,
      Datum.text, Scalar.text, opening]
  rw [htext]
  exact List.forall_mem_append.2 ⟨hopening, List.forall_mem_append.2
    ⟨fun c hc => hmarks c (n.text_marks c hc), List.forall_mem_singleton.2 (by decide)⟩⟩

def fraction : Number := ⟨true, [1], some [5], none, by decide, by decide, by decide⟩

def power : Number :=
  ⟨false, [1], none, some ⟨false, none, [5], by decide⟩, by decide, by decide, by decide⟩

theorem ofNumber_isPortable {n : Number} (hn : n.isWhole = true ∨ n.isDecimal = true) :
    (ofNumber n).IsPortable := by
  have hline : ∀ p ∈ [Piece.plain 'a' rfl], p.endsLine = true → p.char ≠ '\u0085' :=
    List.forall_mem_singleton.2 fun h => by cases h
  exact ⟨List.forall_mem_singleton.2 ⟨.singleton _, hline, .singleton _⟩,
    List.forall_mem_singleton.2 hn⟩

theorem parseFrontmatter_fraction : (ofNumber fraction).IsReadable ∧ (ofNumber fraction).IsShort ∧
    (ofNumber fraction).IsPortable ∧
    Criteria.parseFrontmatter (String.ofList (ofNumber fraction).text) =
      .ok (ofNumber fraction).entries := by
  have hread := ofNumber_isReadable fraction
  have hshort : (ofNumber fraction).IsShort := List.forall_mem_singleton.2 rfl
  have hportable := ofNumber_isPortable (n := fraction) (.inr rfl)
  exact ⟨hread, hshort, hportable, (parseFrontmatter_text _).1 hread hshort hportable⟩

theorem parseFrontmatter_power : String.ofList (ofNumber power).text = "\x7b\"a\": 1e5\x7d" ∧
    (ofNumber power).entries = [(.text "a", .float (.ofNat 100000))] ∧
    Criteria.parseFrontmatter "\x7b\"a\": 1e5\x7d" = .ok [(.text "a", .text "1e5")] := by
  have hshort : (ofNumber power).IsShort := List.forall_mem_singleton.2 rfl
  have htext : String.ofList (ofNumber power).text = "\x7b\"a\": 1e5\x7d" := by decide
  refine ⟨htext, ?_, ?_⟩
  · have hvalue : power.size false = .ofNat 100000 := by decide +kernel
    change [(Value.text "a", Value.float (power.size false))] = _
    rw [hvalue]
  · rw [← htext, parse_eq (ofNumber_isReadable _) hshort]
    rfl

end Document

end NoteDecor.Json
