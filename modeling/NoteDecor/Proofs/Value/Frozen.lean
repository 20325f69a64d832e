import NoteDecor.Proofs.Value.Freezing
import NoteDecor.Value.Equal

/-! The two shapes that freezing and thawing lead to. In a frozen value nothing that holds others can
be changed; a thawed one holds its parts in plain lists and mappings. Each shape is kept by its own
direction and comes back from a way there and back. -/

namespace NoteDecor.Value

mutual

/-- No list and no mapping that can be changed is held by the value, at any depth. What a rule
function built is no container, and is looked at as one thing. -/
def isFrozen : Value → Bool
  | list _ | map _ | knot .. => false
  | tuple xs | set xs => allFrozen xs
  | sealed es => eachFrozen es
  | _ => true

def allFrozen : List Value → Bool
  | [] => true
  | x :: xs => isFrozen x && allFrozen xs

def eachFrozen : Entries → Bool
  | [] => true
  | (k, v) :: r => isFrozen k && isFrozen v && eachFrozen r

end

mutual

/-- No tuple and no sealed mapping is held by the value as an element or under a key, at any depth. -/
def isThawed : Value → Bool
  | tuple _ | sealed _ | knot .. => false
  | list xs => allThawed xs
  | map es => eachThawed es
  | _ => true

def allThawed : List Value → Bool
  | [] => true
  | x :: xs => isThawed x && allThawed xs

def eachThawed : Entries → Bool
  | [] => true
  | (_, v) :: r => isThawed v && eachThawed r

end

mutual

/-- Whether the keys of all mappings and the members of all sets in the value can be keys. Nothing
else is ever stored there, although the type would allow it. -/
def isKeyed : Value → Bool
  | list xs | tuple xs => allKeyed xs
  | set xs => allKeys xs
  | map es | sealed es => eachKeyed es
  | _ => true

def allKeyed : List Value → Bool
  | [] => true
  | x :: xs => isKeyed x && allKeyed xs

def eachKeyed : Entries → Bool
  | [] => true
  | (k, v) :: r => canBeKey k && isKeyed v && eachKeyed r

end

mutual

theorem isFrozen_of_canBeKey : ∀ {v : Value}, v.canBeKey = true → v.isFrozen = true
  | tuple _, h => allFrozen_of_allKeys h
  | null, _ | bool _, _ | int _, _ | float _, _ | text _, _ | bytes _, _ | date _, _
  | moment _, _ => rfl

theorem allFrozen_of_allKeys : ∀ {xs : List Value}, allKeys xs = true → allFrozen xs = true
  | [], _ => rfl
  | x :: xs, h => by
    obtain ⟨hx, hxs⟩ := Bool.and_eq_true_iff.1 h
    rw [allFrozen, isFrozen_of_canBeKey hx, allFrozen_of_allKeys hxs]
    rfl

end

mutual

theorem isFrozen_freeze : ∀ {v : Value}, v.ends = true → v.isKeyed = true →
    (freeze v).isFrozen = true
  | map _, h, hk | sealed _, h, hk => eachFrozen_freezeEntries h hk
  | list _, h, hk | tuple _, h, hk => allFrozen_freezeList h hk
  | set _, _, hk => allFrozen_of_allKeys hk
  | null, _, _ | bool _, _, _ | int _, _, _ | float _, _, _ | text _, _, _ | bytes _, _, _
  | date _, _, _ | moment _, _, _ | badge .., _, _ | outcome .., _, _ | cell _, _, _ => rfl

theorem allFrozen_freezeList : ∀ {xs : List Value}, endsAll xs = true → allKeyed xs = true →
    allFrozen (freezeList xs) = true
  | [], _, _ => rfl
  | x :: xs, h, hk => by
    obtain ⟨hx, hxs⟩ := Bool.and_eq_true_iff.1 h
    obtain ⟨hkx, hkxs⟩ := Bool.and_eq_true_iff.1 hk
    rw [freezeList, allFrozen, isFrozen_freeze hx hkx, allFrozen_freezeList hxs hkxs]
    rfl

theorem eachFrozen_freezeEntries : ∀ {es : Entries}, endsEach es = true → eachKeyed es = true →
    eachFrozen (freezeEntries es) = true
  | [], _, _ => rfl
  | (k, v) :: r, h, hk => by
    obtain ⟨hv, hr⟩ := Bool.and_eq_true_iff.1 h
    obtain ⟨hkv, hkr⟩ := Bool.and_eq_true_iff.1 hk
    obtain ⟨hkey, hkv⟩ := Bool.and_eq_true_iff.1 hkv
    rw [freezeEntries, eachFrozen, isFrozen_of_canBeKey hkey, isFrozen_freeze hv hkv,
      eachFrozen_freezeEntries hr hkr]
    rfl

end

mutual

theorem freeze_of_isFrozen : ∀ {v : Value}, v.isFrozen = true → freeze v = v
  | sealed _, h => congrArg sealed (freezeEntries_of_eachFrozen h)
  | tuple _, h => congrArg tuple (freezeList_of_allFrozen h)
  | null, _ | bool _, _ | int _, _ | float _, _ | text _, _ | bytes _, _ | date _, _
  | moment _, _ | set _, _ | badge .., _ | outcome .., _ | cell _, _ => rfl

theorem freezeList_of_allFrozen : ∀ {xs : List Value}, allFrozen xs = true → freezeList xs = xs
  | [], _ => rfl
  | x :: xs, h => by
    obtain ⟨hx, hxs⟩ := Bool.and_eq_true_iff.1 h
    rw [freezeList, freeze_of_isFrozen hx, freezeList_of_allFrozen hxs]

theorem freezeEntries_of_eachFrozen : ∀ {es : Entries}, eachFrozen es = true →
    freezeEntries es = es
  | [], _ => rfl
  | (k, v) :: r, h => by
    obtain ⟨hkv, hr⟩ := Bool.and_eq_true_iff.1 h
    obtain ⟨-, hv⟩ := Bool.and_eq_true_iff.1 hkv
    rw [freezeEntries, freeze_of_isFrozen hv, freezeEntries_of_eachFrozen hr]

end

mutual

theorem isThawed_thaw : ∀ {v : Value}, v.ends = true → (thaw v).isThawed = true
  | map _, h | sealed _, h => eachThawed_thawEntries h
  | list _, h | tuple _, h => allThawed_thawList h
  | null, _ | bool _, _ | int _, _ | float _, _ | text _, _ | bytes _, _ | date _, _
  | moment _, _ | set _, _ | badge .., _ | outcome .., _ | cell _, _ => rfl

theorem allThawed_thawList : ∀ {xs : List Value}, endsAll xs = true →
    allThawed (thawList xs) = true
  | [], _ => rfl
  | x :: xs, h => by
    obtain ⟨hx, hxs⟩ := Bool.and_eq_true_iff.1 h
    rw [thawList, allThawed, isThawed_thaw hx, allThawed_thawList hxs]
    rfl

theorem eachThawed_thawEntries : ∀ {es : Entries}, endsEach es = true →
    eachThawed (thawEntries es) = true
  | [], _ => rfl
  | (k, v) :: r, h => by
    obtain ⟨hv, hr⟩ := Bool.and_eq_true_iff.1 h
    rw [thawEntries, eachThawed, isThawed_thaw hv, eachThawed_thawEntries hr]
    rfl

end

mutual

theorem thaw_of_isThawed : ∀ {v : Value}, v.isThawed = true → thaw v = v
  | map _, h => congrArg map (thawEntries_of_eachThawed h)
  | list _, h => congrArg list (thawList_of_allThawed h)
  | null, _ | bool _, _ | int _, _ | float _, _ | text _, _ | bytes _, _ | date _, _
  | moment _, _ | set _, _ | badge .., _ | outcome .., _ | cell _, _ => rfl

theorem thawList_of_allThawed : ∀ {xs : List Value}, allThawed xs = true → thawList xs = xs
  | [], _ => rfl
  | x :: xs, h => by
    obtain ⟨hx, hxs⟩ := Bool.and_eq_true_iff.1 h
    rw [thawList, thaw_of_isThawed hx, thawList_of_allThawed hxs]

theorem thawEntries_of_eachThawed : ∀ {es : Entries}, eachThawed es = true → thawEntries es = es
  | [], _ => rfl
  | (k, v) :: r, h => by
    obtain ⟨hv, hr⟩ := Bool.and_eq_true_iff.1 h
    rw [thawEntries, thaw_of_isThawed hv, thawEntries_of_eachThawed hr]

end

theorem freeze_freeze (v : Value) : freeze (freeze v) = freeze v := by
  calc
    freeze (freeze v) = freeze (thaw (freeze v)) := (freeze_thaw (freeze v)).symm
    _ = freeze (thaw v) := by rw [thaw_freeze]
    _ = freeze v := freeze_thaw v

/-- A thawed value comes back from freezing as it was, entries in the same order, and any other
value that ends comes back thawed. A frozen value, and so all that freezing yields, comes back from
thawing as it was. Freezing again changes nothing, and nothing that can be changed is held by what
was frozen. -/
theorem thawing_undoes_freezing (v : Value) :
    (v.isThawed = true → thaw (freeze v) = v) ∧
    (v.ends = true → (thaw (freeze v)).isThawed = true) ∧
    (v.isFrozen = true → freeze (thaw v) = v) ∧
    freeze (thaw (freeze v)) = freeze v ∧
    freeze (freeze v) = freeze v ∧
    (v.ends = true → v.isKeyed = true → (freeze v).isFrozen = true) := by
  refine ⟨fun hv => ?_, fun hv => ?_, fun hv => ?_, ?_, freeze_freeze v, isFrozen_freeze⟩
  · rw [thaw_freeze, thaw_of_isThawed hv]
  · rw [thaw_freeze]
    exact isThawed_thaw hv
  · rw [freeze_thaw, freeze_of_isFrozen hv]
  · rw [freeze_thaw, freeze_freeze]

def nested : Value := record [("status", list [record [("since", list [int 1, list []]),
  ("by", null)], text "open"]), ("area", map [])]

def layered : Value := map [(tuple [int 1, text "k"], tuple [list [map [(null, list [])]],
  sealed [(text "a", set [int 1, tuple []])]]), (bool true, list [])]

theorem thawing_undoes_freezing_nested :
    nested.isThawed = true ∧ thaw (freeze nested) = nested ∧
    layered.ends = true ∧ layered.isKeyed = true ∧ (thaw (freeze layered)).isThawed = true ∧
    (freeze layered).isFrozen = true ∧ freeze (thaw (freeze layered)) = freeze layered := by
  have hthawed : nested.isThawed = true := by decide
  have hends : layered.ends = true := by decide
  have hkeyed : layered.isKeyed = true := by decide
  obtain ⟨hback, -⟩ := thawing_undoes_freezing nested
  obtain ⟨-, hagain, -, -, -, hfrozen⟩ := thawing_undoes_freezing layered
  obtain ⟨-, -, hkept, -⟩ := thawing_undoes_freezing (freeze layered)
  exact ⟨hthawed, hback hthawed, hends, hkeyed, hagain hends, hfrozen hends hkeyed,
    hkept (hfrozen hends hkeyed)⟩

end NoteDecor.Value
