import NoteDecor.Value.Freeze

/-! Freezing and thawing look at nothing but which containers hold what, so that whichever comes
first leaves no trace behind the other. -/

namespace NoteDecor.Value

mutual

theorem freeze_thaw : ∀ v : Value, freeze (thaw v) = freeze v
  | map es | sealed es => congrArg sealed (freezeEntries_thawEntries es)
  | list xs | tuple xs => congrArg tuple (freezeList_thawList xs)
  | null | bool _ | int _ | float _ | text _ | bytes _ | date _ | moment _ | set _ | badge ..
  | outcome .. | cell _ | knot .. => rfl

theorem freezeList_thawList : ∀ xs : List Value, freezeList (thawList xs) = freezeList xs
  | [] => rfl
  | x :: xs => by
    rw [thawList, freezeList, freezeList, freeze_thaw x, freezeList_thawList xs]

theorem freezeEntries_thawEntries :
    ∀ es : Entries, freezeEntries (thawEntries es) = freezeEntries es
  | [] => rfl
  | (k, v) :: r => by
    rw [thawEntries, freezeEntries, freezeEntries, freeze_thaw v, freezeEntries_thawEntries r]

end

mutual

theorem thaw_freeze : ∀ v : Value, thaw (freeze v) = thaw v
  | map es | sealed es => congrArg map (thawEntries_freezeEntries es)
  | list xs | tuple xs => congrArg list (thawList_freezeList xs)
  | null | bool _ | int _ | float _ | text _ | bytes _ | date _ | moment _ | set _ | badge ..
  | outcome .. | cell _ | knot .. => rfl

theorem thawList_freezeList : ∀ xs : List Value, thawList (freezeList xs) = thawList xs
  | [] => rfl
  | x :: xs => by
    rw [freezeList, thawList, thawList, thaw_freeze x, thawList_freezeList xs]

theorem thawEntries_freezeEntries :
    ∀ es : Entries, thawEntries (freezeEntries es) = thawEntries es
  | [] => rfl
  | (k, v) :: r => by
    rw [freezeEntries, thawEntries, thawEntries, thaw_freeze v, thawEntries_freezeEntries r]

end

theorem freezeEntries_freezeEntries (es : Entries) :
    freezeEntries (freezeEntries es) = freezeEntries es := by
  rw [← freezeEntries_thawEntries (freezeEntries es), thawEntries_freezeEntries,
    freezeEntries_thawEntries]

theorem thawEntries_thawEntries (es : Entries) : thawEntries (thawEntries es) = thawEntries es := by
  rw [← thawEntries_freezeEntries (thawEntries es), freezeEntries_thawEntries,
    thawEntries_freezeEntries]

mutual

theorem ends_thaw : ∀ v : Value, (thaw v).ends = v.ends
  | map es | sealed es => endsEach_thawEntries es
  | list xs | tuple xs => endsAll_thawList xs
  | null | bool _ | int _ | float _ | text _ | bytes _ | date _ | moment _ | set _ | badge ..
  | outcome .. | cell _ | knot .. => rfl

theorem endsAll_thawList : ∀ xs : List Value, endsAll (thawList xs) = endsAll xs
  | [] => rfl
  | x :: xs => by
    rw [thawList, endsAll, endsAll, ends_thaw x, endsAll_thawList xs]

theorem endsEach_thawEntries : ∀ es : Entries, endsEach (thawEntries es) = endsEach es
  | [] => rfl
  | (k, v) :: r => by
    rw [thawEntries, endsEach, endsEach, ends_thaw v, endsEach_thawEntries r]

end

theorem endsAll_iff {xs : List Value} : endsAll xs = true ↔ ∀ x ∈ xs, x.ends = true := by
  induction xs with
  | nil => simp [endsAll]
  | cons x xs ih => rw [endsAll, Bool.and_eq_true, ih, List.forall_mem_cons]

theorem endsEach_iff {es : Entries} : endsEach es = true ↔ ∀ e ∈ es, e.2.ends = true := by
  induction es with
  | nil => simp [endsEach]
  | cons e r ih => rw [endsEach, Bool.and_eq_true, ih, List.forall_mem_cons]

theorem opened_of_ends {v : Value} (h : v.ends = true) : v.opened = v := by
  cases v with
  | knot _ _ => cases h
  | _ => rfl

theorem ends_of_mem_items {v w : Value} {vs : List Value} (h : v.ends = true)
    (hvs : v.items? = some vs) (hw : w ∈ vs) : w.ends = true := by
  unfold items? at hvs
  rw [opened_of_ends h] at hvs
  cases v with
  | list xs | tuple xs =>
    cases hvs
    exact endsAll_iff.1 h w hw
  | _ => cases hvs

theorem endsEach_of_entries {v : Value} {es : Entries} (h : v.ends = true)
    (hes : v.entries? = some es) : endsEach es = true := by
  unfold entries? at hes
  rw [opened_of_ends h] at hes
  cases v with
  | map fs | «sealed» fs =>
    cases hes
    exact h
  | _ => cases hes

end NoteDecor.Value
