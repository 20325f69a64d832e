import NoteDecor.Proofs.Settings.Likeness
import NoteDecor.Proofs.Value.Storing

/-! The order in which environment variables come. Each of ours stores a value under a key path, and
the settings cannot start if one comes after another whose path leads to its own. They start and
read the same in every order exactly if no path leads to another and all values under one path are
equal. -/

namespace NoteDecor

namespace Settings
open Value

namespace Environment

def binding? (e : String × String) : Option (List String × Value) :=
  (path? e.1).map fun path => (path, value e.2)

def bindings (vars : List (String × String)) : List (List String × Value) := vars.filterMap binding?

theorem collect_eq (vars : List (String × String)) (v : Value) :
    collect vars v = storeAll (bindings vars) v := by
  induction vars generalizing v with
  | nil => rfl
  | cons e r ih =>
    unfold collect
    rw [bindings, List.filterMap_cons, binding?]
    cases path? e.1 with
    | none => exact ih v
    | some path =>
      simp only [Option.map_some, storeAll, List.foldlM_cons]
      exact bind_congr fun w => ih w

theorem value_bare (text : String) :
    (value text).mapping? = none ∧ (value text).Tidy := by
  have hbare {v : Value} (hv : v.entries? = none) (hs : v.same v = true) :
      v.mapping? = none ∧ v.Tidy := ⟨mapping?_of_entries? hv, .leaf hv hs⟩
  unfold value
  dsimp only
  split
  · exact hbare rfl (by decide +kernel)
  · split
    · exact hbare rfl (by decide +kernel)
    · split
      · exact hbare rfl (by simp [same, sameAmount, amount?, Amount.equals])
      · exact hbare rfl (by simp [same])

theorem bindings_leaves {vars : List (String × String)} : Leaves (bindings vars) := by
  intro b hb
  obtain ⟨e, -, he⟩ := List.mem_filterMap.1 hb
  obtain ⟨path, -, rfl⟩ := Option.map_eq_some_iff.1 he
  exact value_bare e.2

theorem path?_ne_nil {name : String} {path : List String} (h : path? name = some path) :
    path ≠ [] := by
  unfold path? at h
  split at h
  · rw [← Option.some.inj h]
    exact Text.splitText_ne_nil '_' _
  · cases h

theorem path_ne_nil {vars : List (String × String)} : ∀ b ∈ bindings vars, b.1 ≠ [] := by
  intro b hb
  obtain ⟨e, -, he⟩ := List.mem_filterMap.1 hb
  obtain ⟨path, hpath, rfl⟩ := Option.map_eq_some_iff.1 he
  exact path?_ne_nil hpath

end Environment

open Environment

def Layers.startWith (v : Value) : Layers :=
  if v.isTrue then Layers.start.set .environment (.record [(root, v)]) else Layers.start

theorem start_eq_ok {d : Disk} {vars : List (String × String)} {c : Settings} :
    start d "" vars = .ok c ↔
      ∃ v, storeAll (bindings vars) (record []) = .ok v ∧ c = ⟨.startWith v, []⟩ := by
  have hlayer (v : Value) (h : storeAll (bindings vars) (record []) = .ok v) :
      start d "" vars = .ok ⟨.startWith v, []⟩ := by
    unfold start layer?
    rw [collect_eq, show map [] = record [] from rfl, h]
    unfold Layers.startWith
    by_cases hv : v.isTrue = true
    · rw [if_pos hv]
      simp only [if_true, bind, Except.bind, pure, Except.pure, hv, mapError_ok]
    · rw [if_neg hv]
      simp only [if_true, bind, Except.bind, pure, Except.pure, hv, mapError_ok]
      rfl
  constructor
  · intro h
    cases hs : storeAll (bindings vars) (record []) with
    | ok v => exact ⟨v, rfl, Except.ok.inj (h.symm.trans (hlayer v hs))⟩
    | error f =>
      unfold start layer? at h
      rw [collect_eq, show map [] = record [] from rfl, hs] at h
      cases h
  · rintro ⟨v, hv, rfl⟩
    exact hlayer v hv

namespace Layers

theorem defaults_tidy : defaults.Tidy := by
  have htext (t : String) : (Value.text t).Tidy := .leaf rfl (by simp [same])
  have hlogging : (record [("level", .text "INFO"), ("file", .null)]).Tidy :=
    .record (by decide) (by simpa using ⟨htext "INFO", .leaf rfl (by decide +kernel)⟩)
  have hloader : (record [("background", .bool true)]).Tidy :=
    .record (by decide) (by simpa using .leaf rfl (by decide +kernel))
  have hrules : (Value.list []).Tidy := .leaf rfl (by decide +kernel)
  refine .record (by decide) (List.forall_mem_singleton.2 (.record (by decide) ?_))
  simpa using ⟨htext ".", hrules, hlogging, hloader⟩

theorem start_tidy : Layers.start.Tidy := by
  intro s w hw
  unfold Layers.start at hw
  split at hw
  · cases hw
    exact ⟨defaults_tidy, _, rfl⟩
  · cases hw

theorem startWith_tidy {v : Value} (hv : v.Tidy) : (startWith v).Tidy := by
  unfold startWith
  split
  · have hsection : (record [(root, v)]).Tidy :=
      .record (List.pairwise_singleton ..) (List.forall_mem_singleton.2 hv)
    exact start_tidy.set hsection .environment
  · exact start_tidy

theorem found_startWith_of_ne {s : Source} (hs : s ≠ .environment) (v : Value)
    (path : List String) : (startWith v).found path s = Layers.start.found path s := by
  unfold startWith
  split
  · rw [found, Layers.set, if_neg hs]
    rfl
  · rfl

theorem found_startWith (fs : List (String × Value)) (path : List String) :
    (startWith (record fs)).found path .environment =
      if fs = [] then .missing else Value.found path (record [(root, record fs)]) := by
  cases fs <;> rfl

theorem eq_nil_iff_found {fs : List (String × Value)} :
    fs = [] ↔ ∀ k, Value.found [k] (record fs) = .missing := by
  constructor
  · rintro rfl k
    rfl
  · intro h
    cases fs with
    | nil => rfl
    | cons f fs =>
      have hf := h f.1
      rw [found_record_cons, valueAt?_cons, if_pos rfl] at hf
      exact absurd hf (found_nil_ne_missing f.2)

theorem startWith_alike {fs gs : List (String × Value)}
    (h : ∀ path, (Value.found path (record fs)).Alike (Value.found path (record gs))) :
    (startWith (record fs)).Alike (startWith (record gs)) := by
  intro path s
  by_cases hs : s = .environment
  · have hmissing (k : String) : Value.found [k] (record fs) = .missing ↔
        Value.found [k] (record gs) = .missing := by
      have hk := h [k]
      generalize Value.found [k] (record fs) = f, Value.found [k] (record gs) = g at hk ⊢
      cases hk <;> simp
    have hnil : fs = [] ↔ gs = [] := by
      rw [eq_nil_iff_found, eq_nil_iff_found]
      exact forall_congr' hmissing
    rw [hs, found_startWith, found_startWith]
    by_cases hfs : fs = []
    · rw [if_pos hfs, if_pos (hnil.1 hfs)]
      exact .missing
    · rw [if_neg hfs, if_neg (mt hnil.2 hfs)]
      cases path with
      | nil => exact .branch
      | cons k ks =>
        rw [found_record_cons, found_record_cons, valueAt?_cons, valueAt?_cons]
        split
        · exact h ks
        · exact .missing
  · rw [found_startWith_of_ne hs, found_startWith_of_ne hs]
    exact start_tidy.found_alike path s

theorem all_startWith {fs : List (String × Value)} (hfs : (record fs).Tidy) {path : List String}
    {a : Value} (hfound : Value.found path (record fs) = .leaf a) {m : Entries}
    (hm : (startWith (record fs)).all = .ok m) : at? (root :: path) (map m) = some a := by
  have hne : fs ≠ [] := by
    rintro rfl
    cases path <;> cases hfound
  have henvironment : (startWith (record fs)).found (root :: path) .environment = .leaf a := by
    rw [found_startWith, if_neg hne, found_record_cons, valueAt?_cons, if_pos rfl]
    exact hfound
  have hhigher : ∀ s ∈ [Source.runtime, .arguments],
      (startWith (record fs)).found (root :: path) s = .missing := by
    simp only [List.forall_mem_cons, List.not_mem_nil, false_implies, implies_true, and_true]
    refine ⟨?_, ?_⟩ <;>
      rw [found_startWith_of_ne (by nofun)] <;>
      rfl
  have htop : (startWith (record fs)).topmost (root :: path) Source.all.reverse = .leaf a := by
    refine (topmost_of_missing hhigher [.environment, .file, .defaults]).trans ?_
    rw [topmost_cons, henvironment]
    rfl
  have hshows := shows_all (startWith_tidy hfs).keyedOnce (root :: path) hm
  rw [htop] at hshows
  exact hshows.1

end Layers

theorem start_ok_iff (d : Disk) (vars : List (String × String)) :
    (∃ c, start d "" vars = .ok c) ↔ Unblocked (bindings vars) := by
  rw [← storeAll_ok_iff bindings_leaves]
  constructor
  · rintro ⟨c, hc⟩
    obtain ⟨v, hv, -⟩ := start_eq_ok.1 hc
    exact ⟨v, hv⟩
  · rintro ⟨v, hv⟩
    exact ⟨_, start_eq_ok.2 ⟨v, hv, rfl⟩⟩

theorem layers_of_start {d : Disk} {vars : List (String × String)} {c : Settings}
    (h : start d "" vars = .ok c) :
    ∃ fs, c.layers = .startWith (record fs) ∧ (record fs).Tidy ∧ ∀ path,
      Value.found path (record fs) =
        (latest (bindings vars) path).getD (Value.found path (record [])) := by
  obtain ⟨v, hv, rfl⟩ := start_eq_ok.1 h
  obtain ⟨fs, rfl, htidy, hfound⟩ := exists_record_storeAll bindings_leaves path_ne_nil hv
  exact ⟨fs, rfl, htidy, hfound⟩

theorem start_alike {d : Disk} {vars vars' : List (String × String)}
    (h : Compatible (bindings vars)) (hperm : vars'.Perm vars) {c c' : Settings}
    (hc : start d "" vars = .ok c) (hc' : start d "" vars' = .ok c') :
    c.layers.ReadsAlike c'.layers := by
  obtain ⟨fs, hl, hfs, hfound⟩ := layers_of_start hc
  obtain ⟨gs, hl', hgs, hfound'⟩ := layers_of_start hc'
  have halike (path : List String) :
      (Value.found path (record fs)).Alike (Value.found path (record gs)) := by
    have hlatest := latest_alike h (hperm.filterMap _) path
    rw [hfound, hfound']
    change Option.Rel Found.Alike _ (latest (bindings vars') path) at hlatest
    generalize latest (bindings vars) path = o, latest (bindings vars') path = o' at hlatest
    cases hlatest with
    | none => exact tidy_nothing.found_alike path
    | some hfg => exact hfg
  rw [hl, hl']
  exact (Layers.startWith_alike halike).readsAlike (Layers.startWith_tidy hfs)
    (Layers.startWith_tidy hgs)

theorem all_of_last {d : Disk} {vars : List (String × String)} {b : List String × Value}
    {bs : List (List String × Value)} (hb : bindings vars = bs ++ [b]) {c : Settings}
    (hc : start d "" vars = .ok c) {m : Entries} (hm : c.layers.all = .ok m) :
    (map m).Tidy ∧ at? (root :: b.1) (map m) = some b.2 := by
  obtain ⟨fs, hl, hfs, hfound⟩ := layers_of_start hc
  rw [hl] at hm
  refine ⟨(Layers.startWith_tidy hfs).merged _ tidy_nothing hm, Layers.all_startWith hfs ?_ hm⟩
  rw [hfound, hb, latest_append_singleton, met_self]
  rfl

theorem exists_perm_append_pair {α : Type} [DecidableEq α] {l : List α} {a b : α} (ha : a ∈ l)
    (hb : b ∈ l) (hab : a ≠ b) : ∃ rest, (rest ++ [a, b]).Perm l := by
  have hb' : b ∈ l.erase a := (List.mem_erase_of_ne hab.symm).2 hb
  refine ⟨(l.erase a).erase b, ?_⟩
  calc (l.erase a).erase b ++ [a, b]
    _ |>.Perm (a :: b :: (l.erase a).erase b) := List.perm_append_comm
    _ |>.Perm (a :: l.erase a) := (List.perm_cons_erase hb').symm.cons a
    _ |>.Perm l := (List.perm_cons_erase ha).symm

theorem bindings_append_pair {x y : String × String} {b c : List String × Value}
    (hx : binding? x = some b) (hy : binding? y = some c) (rest : List (String × String)) :
    bindings (rest ++ [x, y]) = bindings rest ++ [b] ++ [c] := by
  simp [bindings, List.filterMap_append, hx, hy]

theorem compatible_of_every_order {d : Disk} {vars : List (String × String)}
    (h : ∀ vars₁ vars₂, vars₁.Perm vars → vars₂.Perm vars →
      ∃ c₁ c₂, start d "" vars₁ = .ok c₁ ∧ start d "" vars₂ = .ok c₂ ∧
        c₁.layers.ReadsAlike c₂.layers) : Compatible (bindings vars) := by
  intro b hb c hc hbc
  by_cases heq : b = c
  · rw [← heq]
    exact ⟨rfl, (bindings_leaves b hb).2.same_self (bindings_leaves b hb).1⟩
  · obtain ⟨x, hx, hxb⟩ := List.mem_filterMap.1 hb
    obtain ⟨y, hy, hyc⟩ := List.mem_filterMap.1 hc
    have hxy : x ≠ y := by
      rintro rfl
      exact heq (Option.some.inj (hxb.symm.trans hyc))
    obtain ⟨rest, hrest⟩ := exists_perm_append_pair hx hy hxy
    have hswapped : (rest ++ [y, x]).Perm vars :=
      ((List.Perm.swap x y []).append_left rest).trans hrest
    obtain ⟨c₁, c₂, hc₁, hc₂, hreads⟩ := h _ _ hswapped hrest
    have hpath : b.1 = c.1 := by
      by_contra hne
      have hunblocked := (start_ok_iff d _).1 ⟨c₂, hc₂⟩
      rw [bindings_append_pair hxb hyc, unblocked_append_singleton] at hunblocked
      exact hunblocked.2 b (by simp) ⟨hbc, hne⟩
    -- each value is read where its variable comes last
    obtain ⟨m₁, m₂, hm₁, hm₂, hsame⟩ := hreads.all
    obtain ⟨htidy₁, hat₁⟩ := all_of_last (bindings_append_pair hyc hxb rest) hc₁ hm₁
    obtain ⟨htidy₂, hat₂⟩ := all_of_last (bindings_append_pair hxb hyc rest) hc₂ hm₂
    obtain ⟨a, ha, hba⟩ := htidy₁.same_at? htidy₂ hsame hat₁
    rw [hpath, hat₂] at ha
    cases ha
    exact ⟨hpath, hba⟩

/-- The settings start if no variable comes after one whose path leads to its own. They start in
every order of the variables, and read alike in all, if and only if no path leads to another and the
values under one path are equal. -/
theorem start_in_every_order (d : Disk) (vars : List (String × String)) :
    ((∃ c, start d "" vars = .ok c) ↔
      (bindings vars).Pairwise fun b c => ¬ (b.1 <+: c.1 ∧ b.1 ≠ c.1)) ∧
    ((∀ vars₁ vars₂, vars₁.Perm vars → vars₂.Perm vars →
        ∃ c₁ c₂, start d "" vars₁ = .ok c₁ ∧ start d "" vars₂ = .ok c₂ ∧
          c₁.layers.ReadsAlike c₂.layers) ↔
      ∀ b ∈ bindings vars, ∀ c ∈ bindings vars,
        b.1 <+: c.1 → b.1 = c.1 ∧ b.2.same c.2 = true) := by
  refine ⟨start_ok_iff d vars, compatible_of_every_order, fun h vars₁ vars₂ h₁ h₂ => ?_⟩
  have hmoved {vars' : List (String × String)} (hperm : vars'.Perm vars) :
      Compatible (bindings vars') :=
    Compatible.of_mem h fun b hb => (hperm.filterMap _).mem_iff.1 hb
  obtain ⟨c₁, hc₁⟩ := (start_ok_iff d vars₁).2 (hmoved h₁).unblocked
  obtain ⟨c₂, hc₂⟩ := (start_ok_iff d vars₂).2 (hmoved h₂).unblocked
  exact ⟨c₁, c₂, hc₁, hc₂, start_alike (hmoved h₁) (h₂.trans h₁.symm) hc₁ hc₂⟩

def contradicting : List (String × String) :=
  [("FMDECORATOR_LOGGING", "1"), ("FMDECORATOR_LOGGING_LEVEL", "DEBUG")]

theorem start_contradicting :
    start default "" contradicting = .error (.environment .noAssignment) ∧
    ∃ c, start default "" contradicting.reverse = .ok c := by
  have hsection : binding? ("FMDECORATOR_LOGGING", "1") = some (["logging"], .int 1) := by
    rw [binding?, show path? "FMDECORATOR_LOGGING" = some ["logging"] by decide +kernel,
      show value "1" = .int 1 from rfl]
    rfl
  have hwithin : binding? ("FMDECORATOR_LOGGING_LEVEL", "DEBUG") =
      some (["logging", "level"], .text "DEBUG") := by
    have hlevel : value "DEBUG" = .text "DEBUG" := by
      unfold value
      rw [show Text.lower "DEBUG" = "debug" by decide +kernel]
      rfl
    rw [binding?, hlevel,
      show path? "FMDECORATOR_LOGGING_LEVEL" = some ["logging", "level"] by decide +kernel]
    rfl
  have hvars := bindings_append_pair hsection hwithin []
  have hreversed := bindings_append_pair hwithin hsection []
  rw [List.nil_append] at hvars hreversed
  refine ⟨?_, (start_ok_iff default _).2 ?_⟩
  · unfold start layer? contradicting
    rw [collect_eq, hvars]
    rfl
  · change Unblocked (bindings
      [("FMDECORATOR_LOGGING_LEVEL", "DEBUG"), ("FMDECORATOR_LOGGING", "1")])
    rw [hreversed]
    simp [Unblocked, bindings]

end Settings

end NoteDecor
