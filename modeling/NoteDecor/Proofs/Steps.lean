/-! Steps that may fail, one after another: what the success of the whole says of its parts. -/

namespace NoteDecor

variable {ε ε' α β : Type}

theorem bind_eq_ok {x : Except ε α} {f : α → Except ε β} {b : β} :
    (x >>= f) = .ok b ↔ ∃ a, x = .ok a ∧ f a = .ok b := by
  cases x with
  | error e => simp [bind, Except.bind]
  | ok a => simp [bind, Except.bind]

theorem bind_eq_error {x : Except ε α} {f : α → Except ε β} {e : ε} :
    (x >>= f) = .error e ↔ x = .error e ∨ ∃ a, x = .ok a ∧ f a = .error e := by
  cases x with
  | error e => simp [bind, Except.bind]
  | ok a => simp [bind, Except.bind]

theorem map_eq_ok {x : Except ε α} {f : α → β} {b : β} :
    x.map f = .ok b ↔ ∃ a, x = .ok a ∧ f a = b := by
  cases x with
  | error e => simp [Except.map]
  | ok a => simp [Except.map]

theorem map_eq_error {x : Except ε α} {f : α → β} {e : ε} :
    x.map f = .error e ↔ x = .error e := by
  cases x with
  | error e => simp [Except.map]
  | ok a => simp [Except.map]

@[simp] theorem mapError_error (e : ε) (f : ε → ε') :
    (Except.error e : Except ε α).mapError f = .error (f e) := rfl

@[simp] theorem mapError_ok (a : α) (f : ε → ε') :
    (Except.ok a : Except ε α).mapError f = .ok a := rfl

theorem mapError_eq_ok {x : Except ε α} {f : ε → ε'} {a : α} :
    x.mapError f = .ok a ↔ x = .ok a := by
  cases x with
  | error e => simp
  | ok b => simp

theorem mapError_eq_error {x : Except ε α} {f : ε → ε'} {e' : ε'} :
    x.mapError f = .error e' ↔ ∃ e, x = .error e ∧ f e = e' := by
  cases x with
  | error e => simp
  | ok a => simp

theorem eq_ok_of_isOk {x : Except ε Unit} (h : x.isOk = true) : x = .ok () := by
  cases x with
  | error e => cases h
  | ok u => rfl

theorem eq_error_of_decide [DecidableEq ε] {x : Except ε α} {e : ε}
    (h : (match x with
      | .error f => decide (f = e)
      | .ok _ => false) = true) : x = .error e := by
  cases x with
  | error f => rw [of_decide_eq_true h]
  | ok a => cases h

theorem forM_eq_ok {f : α → Except ε Unit} {xs : List α} :
    xs.forM f = .ok () ↔ ∀ x ∈ xs, f x = .ok () := by
  induction xs with
  | nil => exact iff_of_true rfl (by nofun)
  | cons x xs ih =>
    rw [List.forall_mem_cons, ← ih]
    change (f x >>= fun _ => xs.forM f) = _ ↔ _
    rw [bind_eq_ok]
    exact ⟨fun ⟨_, hx, hxs⟩ => ⟨hx, hxs⟩, fun ⟨hx, hxs⟩ => ⟨(), hx, hxs⟩⟩

theorem mapM_cons_eq_ok {f : α → Except ε β} {x : α} {xs : List α} {ys : List β} :
    (x :: xs).mapM f = .ok ys ↔
      ∃ y rest, f x = .ok y ∧ xs.mapM f = .ok rest ∧ ys = y :: rest := by
  rw [List.mapM_cons]
  simp only [bind_eq_ok, pure, Except.pure, Except.ok.injEq, eq_comm (b := ys)]
  exact ⟨fun ⟨y, hy, rest, hr, h⟩ => ⟨y, rest, hy, hr, h⟩,
    fun ⟨y, rest, hy, hr, h⟩ => ⟨y, hy, rest, hr, h⟩⟩

theorem mapM_mem_left {f : α → Except ε β} {xs : List α} {ys : List β} (h : xs.mapM f = .ok ys)
    {x : α} (hx : x ∈ xs) : ∃ y ∈ ys, f x = .ok y := by
  induction xs generalizing ys with
  | nil => cases hx
  | cons z xs ih =>
    obtain ⟨y, rest, hy, hr, rfl⟩ := mapM_cons_eq_ok.1 h
    rcases List.mem_cons.1 hx with rfl | hx
    · exact ⟨y, List.mem_cons_self, hy⟩
    · obtain ⟨y', hy', hf⟩ := ih hr hx
      exact ⟨y', List.mem_cons_of_mem y hy', hf⟩

theorem mapM_mem_right {f : α → Except ε β} {xs : List α} {ys : List β} (h : xs.mapM f = .ok ys)
    {y : β} (hy : y ∈ ys) : ∃ x ∈ xs, f x = .ok y := by
  induction xs generalizing ys with
  | nil =>
    cases h
    cases hy
  | cons z xs ih =>
    obtain ⟨y', rest, hy', hr, rfl⟩ := mapM_cons_eq_ok.1 h
    rcases List.mem_cons.1 hy with rfl | hy
    · exact ⟨z, List.mem_cons_self, hy'⟩
    · obtain ⟨x, hx, hf⟩ := ih hr hy
      exact ⟨x, List.mem_cons_of_mem z hx, hf⟩

theorem mapM_split (f : α → Except ε β) (xs : List α) :
    (∃ ys, xs.mapM f = .ok ys) ∨
    ∃ done x rest ys e, xs = done ++ x :: rest ∧ done.mapM f = .ok ys ∧ f x = .error e := by
  induction xs with
  | nil => exact .inl ⟨[], rfl⟩
  | cons x xs ih =>
    cases hx : f x with
    | error e => exact .inr ⟨[], x, xs, [], e, rfl, rfl, hx⟩
    | ok y =>
      have hc {ys zs} (h : ys.mapM f = .ok zs) : (x :: ys).mapM f = .ok (y :: zs) := by
        rw [List.mapM_cons, hx, h]
        rfl
      rcases ih with ⟨ys, hys⟩ | ⟨done, z, rest, ys, e, rfl, hys, hz⟩
      · exact .inl ⟨y :: ys, hc hys⟩
      · exact .inr ⟨x :: done, z, rest, y :: ys, e, rfl, hc hys, hz⟩

theorem exists_mapM_eq_ok {f : α → Except ε β} {xs : List α} (h : ∀ x ∈ xs, ∃ y, f x = .ok y) :
    ∃ ys, xs.mapM f = .ok ys := by
  rcases mapM_split f xs with hok | ⟨done, x, rest, ys, e, rfl, -, he⟩
  · exact hok
  · obtain ⟨y, hy⟩ := h x (by simp)
    rw [hy] at he
    cases he

theorem exists_foldlM_eq_ok {f : β → α → Except ε β} {xs : List α}
    (h : ∀ acc, ∀ x ∈ xs, ∃ acc', f acc x = .ok acc') (base : β) :
    ∃ b, xs.foldlM f base = .ok b := by
  induction xs generalizing base with
  | nil => exact ⟨base, rfl⟩
  | cons x xs ih =>
    obtain ⟨acc, hacc⟩ := h base x List.mem_cons_self
    obtain ⟨b, hb⟩ := ih (fun acc y hy => h acc y (List.mem_cons_of_mem x hy)) acc
    refine ⟨b, ?_⟩
    rw [List.foldlM_cons, hacc]
    exact hb

end NoteDecor
