import NoteDecor.Value.Text

/-! The text of a value that is no text itself is never one of the names that rule settings give a
meaning to. All such texts but those of infinite numbers tell by their first character. -/

namespace NoteDecor

def reservedNames : List String := ["", "individual", "function-file"]

def beginsApart : List Char → Bool
  | [] => false
  | c :: _ => c != 'i' && c != 'f'

theorem beginsApart_append {s : List Char} (h : beginsApart s = true) (t : List Char) :
    beginsApart (s ++ t) = true := by
  cases s with
  | nil => cases h
  | cons c r => exact h

theorem not_reserved_of_beginsApart {s : String} (h : beginsApart s.toList = true) :
    s ∉ reservedNames := by
  intro hmem
  simp only [reservedNames, List.mem_cons, List.not_mem_nil, or_false] at hmem
  rcases hmem with rfl | rfl | rfl <;> cases h

theorem beginsApart_text_append {s : String} (h : beginsApart s.toList = true) (t : String) :
    beginsApart (s ++ t).toList = true := by
  rw [String.toList_append]
  exact beginsApart_append h t.toList

theorem beginsApart_digit {c : Char} (h : c.isDigit = true) (r : List Char) :
    beginsApart (c :: r) = true := by
  rw [beginsApart, Bool.and_eq_true, bne_iff_ne, bne_iff_ne]
  constructor <;> rintro rfl <;> cases h

theorem beginsApart_digits_append {ds t : List Char} (h : ∀ c ∈ ds, c.isDigit = true)
    (ht : beginsApart t = true) : beginsApart (ds ++ t) = true := by
  cases ds with
  | nil => exact ht
  | cons c r => exact beginsApart_digit (h c List.mem_cons_self) (r ++ t)

theorem beginsApart_digits {ds : List Char} (h : ∀ c ∈ ds, c.isDigit = true) (hne : ds ≠ []) :
    beginsApart ds = true := by
  obtain ⟨c, r, rfl⟩ := List.exists_cons_of_ne_nil hne
  exact beginsApart_digit (h c List.mem_cons_self) r

theorem isDigit_of_mem {n : Nat} {c : Char} (h : c ∈ Nat.toDigits 10 n) : c.isDigit = true :=
  Nat.isDigit_of_mem_toDigits (by decide) (by decide) h

theorem beginsApart_int (n : Int) : beginsApart (toString n).toList = true := by
  rw [Int.toString_eq_repr, Int.repr_eq_if]
  split
  · rw [Nat.toList_repr]
    exact beginsApart_digits (fun c => isDigit_of_mem) Nat.toDigits_ne_nil
  · rw [String.toList_append]
    rfl

theorem beginsApart_padded (width n : Nat) : beginsApart (Calendar.padded width n).toList = true := by
  rw [Calendar.padded, String.toList_ofList]
  refine beginsApart_digits (fun c hc => ?_) (by simp)
  rcases List.mem_append.1 hc with hc | hc
  · rw [List.eq_of_mem_replicate hc]
    rfl
  · exact isDigit_of_mem hc

theorem beginsApart_iso (d : Date) : beginsApart d.iso.toList = true := by
  simp only [Date.iso, String.toList_append, List.append_assoc]
  exact beginsApart_append (beginsApart_padded 4 d.year) _

namespace Binary64

theorem isDigit_of_mem_zeros {n : Int} {c : Char} (h : c ∈ zeros n) : c.isDigit = true := by
  rw [List.eq_of_mem_replicate h]
  rfl

theorem beginsApart_write (l : Layout) {ds : List Char} (h : ∀ c ∈ ds, c.isDigit = true)
    (point : Int) : beginsApart (l.write ds point) = true := by
  have htake : ∀ n, ∀ c ∈ ds.take n, c.isDigit = true := fun n c hc => h c (List.mem_of_mem_take hc)
  unfold Layout.write
  split
  · split
    · rfl
    · split
      · rw [List.append_assoc]
        exact beginsApart_digits_append h
          (beginsApart_digits_append (fun c => isDigit_of_mem_zeros) rfl)
      · exact beginsApart_digits_append (htake _) rfl
  · rw [List.append_assoc]
    refine beginsApart_digits_append (htake 1) ?_
    split <;> rfl

theorem isDigit_of_mem_trimZeros {ds : List Char} (h : ∀ c ∈ ds, c.isDigit = true) :
    ∀ c ∈ trimZeros ds, c.isDigit = true := by
  intro c hc
  have hmem := (List.dropWhile_sublist _).subset (List.mem_reverse.1 hc)
  exact h c (List.mem_reverse.1 hmem)

theorem text_not_reserved (x : Binary64) : plain.text x ∉ reservedNames := by
  cases x with
  | nan => decide
  | infinite s => cases s <;> decide
  | finite s m e =>
    apply not_reserved_of_beginsApart
    have hsign : ∀ t, beginsApart t = true →
        beginsApart ((if s then ['-'] else []) ++ t) = true := by
      intro t ht
      cases s with
      | true => rfl
      | false => exact ht
    unfold Layout.text
    dsimp only
    split
    · rw [String.toList_ofList]
      exact hsign _ rfl
    · rw [String.toList_ofList]
      exact hsign _ (beginsApart_write plain (isDigit_of_mem_trimZeros fun c => isDigit_of_mem) _)

end Binary64

namespace Value

theorem tie_induction {α : Type} {P : α → Prop} {again : Nat → α} {parts : List ((Nat → α) → α)}
    (ha : ∀ n, P (again n)) (hp : ∀ part ∈ parts, ∀ f, (∀ n, P (f n)) → P (part f))
    (fuel : Nat) (above : List Nat) (n : Nat) : P (tie again parts fuel above n) := by
  -- A part may ask for any cell below it, with one more cell above and less fuel.
  induction fuel generalizing above n with
  | zero => exact ha n
  | succ fuel ih =>
    unfold tie
    split
    · exact ha n
    · split
      · next part hpart => exact hp part (List.mem_of_getElem? hpart) _ fun k => ih (n :: above) k
      · exact ha n

theorem againMark_not_reserved (v : Value) : againMark v ∉ reservedNames := by
  unfold againMark
  split <;> decide

theorem quoted_not_reserved (s : String) : Text.quoted s ∉ reservedNames := by
  apply not_reserved_of_beginsApart
  rw [Text.quoted, String.toList_ofList]
  unfold Text.quoteMark
  split <;> rfl

theorem quotedOctets_not_reserved (bs : List UInt8) : Text.quotedOctets bs ∉ reservedNames := by
  apply not_reserved_of_beginsApart
  rw [Text.quotedOctets, String.toList_ofList]
  rfl

theorem dateLiteral_not_reserved (d : Date) : d.literal ∉ reservedNames := by
  apply not_reserved_of_beginsApart
  unfold Date.literal
  simp only [String.toList_append, List.append_assoc]
  exact beginsApart_append rfl _

theorem momentLiteral_not_reserved (m : Moment) : m.literal ∉ reservedNames := by
  apply not_reserved_of_beginsApart
  unfold Moment.literal
  simp only [String.toList_append, List.append_assoc]
  exact beginsApart_append rfl _

theorem beginsApart_braces (s : String) : beginsApart (braces s).toList = true :=
  beginsApart_text_append (beginsApart_text_append (s := "\x7b") rfl s) _

theorem parenthesised_not_reserved (ls : List String) :
    (match ls with
      | [x] => "(" ++ x ++ ",)"
      | ls => "(" ++ listed ls ++ ")") ∉ reservedNames := by
  apply not_reserved_of_beginsApart
  split <;> exact beginsApart_text_append (beginsApart_text_append rfl _) _

mutual

theorem write_not_reserved {f : Nat → String} (hf : ∀ n, f n ∉ reservedNames) :
    ∀ v : Value, write v f ∉ reservedNames
  | null => by
    change "None" ∉ _
    decide
  | bool b => by
    change (if b then "True" else "False") ∉ _
    cases b <;> decide
  | int n => not_reserved_of_beginsApart (beginsApart_int n)
  | float x => Binary64.text_not_reserved x
  | text s => quoted_not_reserved s
  | bytes bs => quotedOctets_not_reserved bs
  | date d => dateLiteral_not_reserved d
  | moment m => momentLiteral_not_reserved m
  | list xs => not_reserved_of_beginsApart
    (beginsApart_text_append (beginsApart_text_append rfl _) _)
  | tuple xs => parenthesised_not_reserved (writeAll xs f)
  | set xs => by
    change (if xs.isEmpty then "set()" else braces (listed (writeAll xs f))) ∉ _
    split
    · decide
    · exact not_reserved_of_beginsApart (beginsApart_braces _)
  | map es => not_reserved_of_beginsApart (beginsApart_braces _)
  | sealed es => not_reserved_of_beginsApart
    (beginsApart_text_append (beginsApart_text_append rfl _) _)
  | badge c t s => by
    apply not_reserved_of_beginsApart
    change beginsApart ("DecorationElement(class_name=" ++ write c f ++ ", text=" ++ write t f ++
      ", style=" ++ write s f ++ ")").toList = true
    simp only [String.toList_append, List.append_assoc]
    rfl
  | outcome c e => by
    apply not_reserved_of_beginsApart
    change beginsApart ("EvaluationResult(class_names=" ++ write c f ++ ", elements=" ++
      write e f ++ ")").toList = true
    simp only [String.toList_append, List.append_assoc]
    rfl
  | cell n => hf n
  | knot cells n => tie_induction (P := (· ∉ reservedNames)) (fun k => againMark_not_reserved _)
    (writers_not_reserved cells) _ _ _

theorem writers_not_reserved :
    ∀ cells : List Value, ∀ part ∈ writers cells, ∀ f : Nat → String,
      (∀ n, f n ∉ reservedNames) → part f ∉ reservedNames
  | [], part, hp => by cases hp
  | x :: xs, part, hp => by
    intro f hf
    rcases List.mem_cons.1 hp with rfl | hp
    · exact write_not_reserved hf x
    · exact writers_not_reserved xs part hp f hf

end

theorem literal_not_reserved (v : Value) : v.literal ∉ reservedNames :=
  write_not_reserved (fun _ => againMark_not_reserved null) v

theorem display_not_reserved {v : Value} (h : v.text? = none) : v.display ∉ reservedNames := by
  unfold display
  split
  · cases h
  · next d => exact not_reserved_of_beginsApart (beginsApart_iso d)
  · next m =>
    apply not_reserved_of_beginsApart
    simp only [Moment.iso, String.toList_append, List.append_assoc]
    exact beginsApart_append (beginsApart_iso m.date) _
  · exact not_reserved_of_beginsApart (beginsApart_braces _)
  · exact literal_not_reserved v

theorem eq_text_of_display {v : Value} {name : String} (h : v.display = name)
    (hname : name ∈ reservedNames) : v = text name := by
  cases ht : v.text? with
  | none =>
    rw [← h] at hname
    exact absurd hname (display_not_reserved ht)
  | some s =>
    cases v <;> cases ht
    exact congrArg text h

end Value

end NoteDecor
