import Mathlib
import NoteDecor.Proofs.Settings.Precedence
import NoteDecor.Proofs.Workspace.Rejection

/-! The rules of an engine that watches the settings. It takes over what the merged layers hold for
the rules if that is a rule list, and keeps its own rules if not. Unless the layers are masked, this
is the rule list that is looked up under the key path. -/

namespace NoteDecor.Workspace
open Settings Value

variable {h : Host}

def adopted (before : List Rule) (v : Value) : List Rule :=
  match Rule.listOfValue v with
  | .ok rules => rules
  | .error _ => before

theorem adopted_adopted (before : List Rule) (v : Value) :
    adopted (adopted before v) v = adopted before v := by
  unfold adopted
  cases Rule.listOfValue v <;> rfl

theorem adopted_congr {v v' : Value} (h : Rule.listOfValue v = Rule.listOfValue v')
    (before : List Rule) : adopted before v = adopted before v' := by
  rw [adopted, adopted, h]

theorem follow_rules {e : Engine} {merged : Entries} {v : Value} (hv : rulesOf merged = .ok v) :
    (follow h e merged).1.rules = adopted e.rules v := by
  unfold adopted
  cases hl : Rule.listOfValue v with
  | error f =>
    cases hu : f.isUnwritable with
    | true => rw [follow_unwritable hv hl hu]
    | false =>
      rw [follow_refused hv hl hu]
      rfl
  | ok rules => rw [(follow_accepted hv hl).1, Engine.updateRules_rules]

theorem tellEach_engine_of_not_mem {merged : Entries} {xs : List Watcher} (w : Workspace)
    (hx : Watcher.engine ∉ xs) : (tellEach h merged xs w).1.engine = w.engine := by
  induction xs generalizing w with
  | nil => rfl
  | cons x xs ih =>
    cases x with
    | engine => exact absurd List.mem_cons_self hx
    | listener name raises =>
      cases raises with
      | true => rfl
      | false => exact ih _ (List.not_mem_of_not_mem_cons hx)

theorem tellEach_rules {merged : Entries} {xs : List Watcher} {w : Workspace}
    (hok : (tellEach h merged xs w).2 = .ok ()) (hx : Watcher.engine ∈ xs) :
    ∃ v, rulesOf merged = .ok v ∧
      (tellEach h merged xs w).1.engine.rules = adopted w.engine.rules v := by
  induction xs generalizing w with
  | nil => cases hx
  | cons x xs ih =>
    simp only [tellEach] at hok ⊢
    cases x with
    | listener name raises =>
      have hxs : Watcher.engine ∈ xs := (List.mem_cons.1 hx).resolve_left fun he => by cases he
      cases raises with
      | true => cases hok
      | false => exact ih hok hxs
    | engine =>
      cases hf : follow h w.engine merged with | mk e result
      simp only [tell, hf] at hok ⊢
      cases result with
      | error f => cases hok
      | ok u =>
        cases hv : rulesOf merged with
        | error f =>
          rw [follow_without_members hv] at hf
          cases hf
        | ok v =>
          have hrules := follow_rules (h := h) (e := w.engine) hv
          rw [hf] at hrules
          refine ⟨v, rfl, ?_⟩
          -- told once more, it finds the rules that it has
          by_cases hxs : Watcher.engine ∈ xs
          · obtain ⟨v', hv', hr⟩ := ih hok hxs
            rw [hv] at hv'
            cases hv'
            rw [hr, hrules, adopted_adopted]
          · rw [tellEach_engine_of_not_mem _ hxs, hrules]

theorem rulesOf_absent {merged : Entries} {v : Value} (hv : rulesOf merged = .ok v)
    (hm : merged.field? root = none) : v = null := by
  rw [rulesOf, hm] at hv
  cases hv
  rfl

theorem rulesOf_entries {merged : Entries} {p v : Value} (hv : rulesOf merged = .ok v)
    (hm : merged.field? root = some p) : v = (((p.entries?).getD []).field? "rules").getD null := by
  rw [rulesOf, hm, Option.getD_some] at hv
  split at hv
  · next es hes =>
      cases hv
      rw [hes]
      rfl
  · cases hv

theorem entries?_of_mapping? {p : Value} {fs : Entries} (h : p.mapping? = some fs) :
    p.entries? = some fs := by
  unfold entries?
  rw [opened_of_mapping? h]

theorem listOfValue_merged {l : Layers} (hl : l.KeyedOnce) {merged : Entries}
    (hm : l.all = .ok merged) {v : Value} (hv : rulesOf merged = .ok v) :
    (¬ l.Masked → Rule.listOfValue v =
      Rule.listOfValue (l.get "fmdecorator.rules" (list []))) ∧
    (l.Masked → Rule.listOfValue v = Rule.listOfValue l.overlooked) := by
  have hsection := Layers.section_all hl hm
  have hagrees := Section.stacked_agrees l Source.all.reverse
  rw [← hsection] at hagrees
  -- the merged layers hold nothing for the program, a value without members, or a mapping
  cases hroot : merged.field? root with
  | none =>
    rw [hroot] at hagrees
    obtain ⟨-, hsaid⟩ := hagrees
    have hfree : ¬ l.Masked := by
      rw [Layers.Masked, hsaid]
      intro h
      cases h
    refine ⟨fun _ => ?_, fun h => absurd h hfree⟩
    rw [rulesOf_absent hv hroot, Layers.get, Layers.get?_rules hfree, hsaid]
    rfl
  | some p =>
    rw [hroot] at hagrees
    have hv := rulesOf_entries hv hroot
    cases hp : p.mapping? with
    | none =>
      rw [Section.of_bare hp] at hagrees
      obtain ⟨hown, -, hsaid⟩ := hagrees
      refine ⟨fun h => absurd hsaid h, fun _ => ?_⟩
      rw [Layers.overlooked, hown, hv]
      simp only [hp, Option.isSome_none, Bool.false_eq_true, if_false]
    | some fs =>
      rw [Section.of_mapping hp] at hagrees
      obtain ⟨⟨q, gs, hown, hq⟩, hsaid⟩ := hagrees
      rw [entries?_of_mapping? hp, Option.getD_some] at hv
      have hout : outline v = outline ((Source.all.reverse.findSome? l.said?).getD null) := by
        rw [← hsaid, hv]
        cases Entries.field? fs "rules" <;> rfl
      have hlist : Rule.listOfValue v =
          Rule.listOfValue ((Source.all.reverse.findSome? l.said?).getD null) := by
        rw [← listOfValue_outline v, hout, listOfValue_outline]
      refine ⟨fun h => ?_, fun h => ?_⟩
      · rw [hlist, Layers.get, Layers.get?_rules h]
        cases Source.all.reverse.findSome? l.said? <;> rfl
      · rw [hlist, show Source.all.reverse.findSome? l.said? = some null from h,
          Layers.overlooked, hown]
        simp only [hq, Option.isSome_some, if_true, Option.getD_some]

/-- What a change stores holds each text once among the keys of a mapping. -/
def Change.KeyedOnce : Change → Prop
  | .set _ v _ | .replace v _ => v.keyedOnce = true
  | .reload _ => True

theorem Change.made_keyedOnce {c : Settings} {x : Change} (hc : c.layers.KeyedOnce)
    (hx : x.KeyedOnce) : (x.made c).1.layers.KeyedOnce := by
  cases x with
  | set key v s =>
    simp only [made]
    cases hp : c.put key v s with
    | error f => exact hc
    | ok c' =>
      obtain ⟨l, hl, he⟩ := bind_eq_ok.1 hp
      cases he
      exact hc.put hx hl
  | replace v s => exact hc.set hx s
  | reload d =>
    have hr := reloadEach_keyedOnce d c.files hc
    simp only [made, Settings.reloadFiles]
    cases hreload : reloadEach d c.files c with | mk c' result
    rw [hreload] at hr
    cases result <;> exact hr

theorem run_keyedOnce {w : Workspace} {xs : List Change} (hw : w.settings.layers.KeyedOnce)
    (hxs : ∀ x ∈ xs, x.KeyedOnce) : (w.run h xs).settings.layers.KeyedOnce := by
  induction xs generalizing w with
  | nil => exact hw
  | cons x xs ih =>
    refine ih ?_ fun y hy => hxs y (List.mem_cons_of_mem x hy)
    rw [apply_settings]
    exact Change.made_keyedOnce hw (hxs x List.mem_cons_self)

theorem apply_follows {w : Workspace} {x : Change} (hw : w.settings.layers.KeyedOnce)
    (hx : x.KeyedOnce) (he : Watcher.engine ∈ w.watchers) (hok : (w.apply h x).2 = .ok ()) :
    (¬ (w.apply h x).1.settings.layers.Masked → (w.apply h x).1.engine.rules =
      adopted w.engine.rules ((w.apply h x).1.settings.get "fmdecorator.rules" (list []))) ∧
    ((w.apply h x).1.settings.layers.Masked → (w.apply h x).1.engine.rules =
      adopted w.engine.rules (w.apply h x).1.settings.layers.overlooked) := by
  obtain ⟨merged, hm, ht⟩ := apply_ok hok
  have hkeyed : (w.apply h x).1.settings.layers.KeyedOnce := by
    rw [apply_settings]
    exact Change.made_keyedOnce hw hx
  have hok' := hok
  rw [ht] at hok'
  obtain ⟨v, hv, hr⟩ := tellEach_rules hok' he
  rw [← ht] at hr
  obtain ⟨hfree, hmasked⟩ := listOfValue_merged hkeyed hm hv
  refine ⟨fun h => ?_, fun h => ?_⟩
  · rw [hr, adopted_congr (hfree h)]
    rfl
  · rw [hr, adopted_congr (hmasked h)]

theorem start_watches {c : Settings} {threshold : Log.Level} {w : Workspace}
    (hw : start c threshold = .ok w) : w.settings = c ∧ Watcher.engine ∈ w.watchers := by
  obtain ⟨rules, -, he⟩ := bind_eq_ok.1 hw
  cases he
  exact ⟨rfl, List.mem_singleton_self _⟩

/-- An engine that watches the settings, after any changes and one more that returns: unless the layers
are masked, its rules are the configured ones where these are a rule list, and those from before where
they are none. If the layers are masked, it has what they overlook instead. -/
theorem run_follows {w : Workspace} {xs : List Change} {x : Change}
    (hw : w.settings.layers.KeyedOnce) (he : Watcher.engine ∈ w.watchers)
    (hxs : ∀ y ∈ x :: xs, y.KeyedOnce) (hok : ((w.run h xs).apply h x).2 = .ok ()) :
    let before := w.run h xs
    let after := (before.apply h x).1
    (¬ after.settings.layers.Masked →
      (∀ rules, configuredRules after.settings = .ok rules → after.engine.rules = rules) ∧
      ∀ f, configuredRules after.settings = .error f →
        after.engine.rules = before.engine.rules) ∧
    (after.settings.layers.Masked →
      after.engine.rules = adopted before.engine.rules after.settings.layers.overlooked) := by
  intro before after
  have hkeyed : before.settings.layers.KeyedOnce :=
    run_keyedOnce hw fun y hy => hxs y (List.mem_cons_of_mem x hy)
  have hstill : Watcher.engine ∈ before.watchers := by
    rw [run_watchers]
    exact he
  obtain ⟨hfree, hmasked⟩ := apply_follows hkeyed (hxs x List.mem_cons_self) hstill hok
  refine ⟨fun hm => ⟨fun rules hr => ?_, fun f hf => ?_⟩, hmasked⟩
  · have hrules : after.engine.rules = adopted before.engine.rules _ := hfree hm
    unfold configuredRules at hr
    rw [hrules, adopted, hr]
  · have hrules : after.engine.rules = adopted before.engine.rules _ := hfree hm
    unfold configuredRules at hf
    rw [hrules, adopted, hf]

def workRule : Rule := ⟨"1", "Work", true, "", .functionFile "work.py"⟩

def workValue : Value := .record [("id", .text "1"), ("name", .text "Work"),
  ("config", .record [("type", .text "function-file"), ("filePath", .text "work.py")])]

def oneRule : Settings :=
  ⟨Layers.start.set .file (.record [("fmdecorator", .record [("rules", .list [workValue])])]), []⟩

def oneRuleStarted : Workspace :=
  ⟨oneRule, [.engine], .start [workRule] .critical, []⟩

theorem oneRule_start : start oneRule .critical = .ok oneRuleStarted := by cbv

def setRules (v : Value) : Change := .set "fmdecorator.rules" v .runtime

def emptied : Change := .replace (.map []) .runtime

theorem run_follows_emptied : start oneRule .critical = .ok oneRuleStarted ∧
    ((oneRuleStarted.run .idle [setRules (.list [])]).apply .idle emptied).2 = .ok () ∧
    ((oneRuleStarted.run .idle [setRules (.list [])]).apply .idle emptied).1.engine.rules =
      [workRule] := by
  have hc : oneRule.layers.KeyedOnce := Layers.start_keyedOnce.set (by decide) .file
  have hok : ((oneRuleStarted.run .idle [setRules (.list [])]).apply .idle
      emptied).2 = .ok () := eq_ok_of_isOk (by decide +kernel)
  have hconfigured : configuredRules ((oneRuleStarted.run .idle [setRules (.list [])]).apply .idle
      emptied).1.settings = .ok [workRule] := by cbv
  have hsaid : Source.all.reverse.findSome? ((oneRuleStarted.run .idle [setRules (.list [])]).apply
      .idle emptied).1.settings.layers.said? = some (.list [workValue]) := by cbv
  have hxs : ∀ y ∈ [emptied, setRules (.list [])], y.KeyedOnce := by
    simp [Change.KeyedOnce, emptied, setRules, keyedOnce, keyedOnceEach, Entries.names]
  obtain ⟨hstarted, hwatched⟩ := start_watches oneRule_start
  obtain ⟨hfollowed, -⟩ := run_follows (hstarted ▸ hc) hwatched hxs hok
  refine ⟨oneRule_start, hok, (hfollowed ?_).1 [workRule] hconfigured⟩
  rw [Layers.Masked, hsaid]
  intro hnull
  cases hnull

theorem apply_null_unfollowed :
    (oneRuleStarted.apply .idle (setRules .null)).2 = .ok () ∧
    (oneRuleStarted.apply .idle (setRules .null)).1.engine.rules = [] ∧
    configuredRules (oneRuleStarted.apply .idle (setRules .null)).1.settings =
      .ok [workRule] := by
  refine ⟨eq_ok_of_isOk (by decide +kernel), ?_, ?_⟩
  · cbv
  · cbv

end NoteDecor.Workspace
