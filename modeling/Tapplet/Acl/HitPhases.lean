import Tapplet.Lib.Counter
import Tapplet.Acl.Hits

/-!
# What holds while a command runs

The position of the running command says how far the totals are behind what the baselines
have moved: between two counters of a sync, not at all; when the difference of a counter has
been taken, by the hits since it was loaded; when it has been added, by what the baseline is
about to move. A clear goes through its counters and totals one after the other.
-/

namespace Tapplet.Acl.Hits

open Transition

variable {workers : Nat} {s t : State}

/-! ## Places -/

/-- The counter of a worker for a rule. -/
structure Place where
  worker : Nat
  grp : Nat
  rule : Nat

def Place.index (x : Place) : Nat := hitIndex x.worker x.grp (x.rule + 1)

structure Place.Ok (workers : Nat) (x : Place) : Prop where
  worker : x.worker < workers
  grp : x.grp < MAX_RULE_GROUP_CNT
  rule : x.rule < MAX_RULE_PER_GROUP

/-- Two counters do not share a place. -/
theorem hitIndex_inj {w w' g g' r r' : Nat} (hg : g < MAX_RULE_GROUP_CNT)
    (hg' : g' < MAX_RULE_GROUP_CNT) (hr : r < MAX_RULE_PER_GROUP) (hr' : r' < MAX_RULE_PER_GROUP)
    (h : hitIndex w g (r + 1) = hitIndex w' g' (r' + 1)) : w = w' ∧ g = g' ∧ r = r' := by
  simp only [hitIndex, MAX_RULE_GROUP_CNT, MAX_RULE_PER_GROUP, MAX_TUPLE4_RULE_PER_GROUP,
    MAX_TUPLE6_RULE_PER_GROUP] at *
  omega

theorem hitIndex_lt {w g r : Nat} (hw : w < workers) (hg : g < MAX_RULE_GROUP_CNT)
    (hr : r < MAX_RULE_PER_GROUP) :
    hitIndex w g (r + 1) < workers * MAX_RULE_GROUP_CNT * MAX_RULE_PER_GROUP := by
  simp only [hitIndex, MAX_RULE_GROUP_CNT, MAX_RULE_PER_GROUP, MAX_TUPLE4_RULE_PER_GROUP,
    MAX_TUPLE6_RULE_PER_GROUP] at *
  omega

theorem setRule_apply {α : Type*} (f : Nat → Nat → α) (g r g' r' : Nat) (x : α) :
    setRule f g r x g' r' = if g' = g ∧ r' = r then x else f g' r' := by
  by_cases hg : g' = g
  · subst hg
    by_cases hr : r' = r
    · simp [setRule, hr]
    · simp [setRule, hr]
  · simp [setRule, hg]

/-! ## What the total of a rule covers -/

/-- The total of each rule covers what its baselines have moved since the last clear, and `e`
more for each counter. -/
def Ledger (workers : Nat) (s : State) (e : Nat → Nat) : Prop :=
  ∀ g < MAX_RULE_GROUP_CNT, ∀ r < MAX_RULE_PER_GROUP,
    (s.aclRuleHit g r).toNat + s.history.lost g r =
      ∑ w ∈ Finset.range workers,
        (s.history.base (hitIndex w g (r + 1)) - s.history.cleared (hitIndex w g (r + 1)) +
          e (hitIndex w g (r + 1)))

/-- `n` for the counter `i`, and nothing for the others. -/
def owed (i n : Nat) : Nat → Nat := fun j => if j = i then n else 0

theorem owed_zero (i : Nat) : owed i 0 = fun _ => 0 := by
  funext j
  simp [owed]

/-- A total and one of its counters grow by the same number. -/
theorem Ledger.add {e e' : Nat → Nat} (h : Ledger workers s e) {x : Place} (ok : x.Ok workers)
    {d : Nat}
    (total : ∀ g r, (t.aclRuleHit g r).toNat + t.history.lost g r =
      (s.aclRuleHit g r).toNat + s.history.lost g r + if g = x.grp ∧ r = x.rule then d else 0)
    (counter : ∀ j, t.history.base j - t.history.cleared j + e' j =
      s.history.base j - s.history.cleared j + e j + if j = x.index then d else 0) :
    Ledger workers t e' := by
  intro g hg r hr
  have hsplit : ∑ w ∈ Finset.range workers,
        (if hitIndex w g (r + 1) = x.index then d else 0) =
      if g = x.grp ∧ r = x.rule then d else 0 := by
    by_cases hrule : g = x.grp ∧ r = x.rule
    · obtain ⟨rfl, rfl⟩ := hrule
      rw [if_pos ⟨rfl, rfl⟩, Finset.sum_eq_single x.worker]
      · exact if_pos rfl
      · intro w _ hw
        exact if_neg fun hi => hw (hitIndex_inj hg ok.grp hr ok.rule hi).1
      · intro hw
        exact absurd (Finset.mem_range.mpr ok.worker) hw
    · rw [if_neg hrule]
      refine Finset.sum_eq_zero fun w _ => if_neg fun hi => hrule ?_
      exact (hitIndex_inj hg ok.grp hr ok.rule hi).2
  calc (t.aclRuleHit g r).toNat + t.history.lost g r
      = (s.aclRuleHit g r).toNat + s.history.lost g r +
          if g = x.grp ∧ r = x.rule then d else 0 := total g r
    _ = ∑ w ∈ Finset.range workers,
          (s.history.base (hitIndex w g (r + 1)) - s.history.cleared (hitIndex w g (r + 1)) +
            e (hitIndex w g (r + 1)) + if hitIndex w g (r + 1) = x.index then d else 0) := by
        rw [h g hg r hr, ← hsplit, ← Finset.sum_add_distrib]
    _ = _ := Finset.sum_congr rfl fun w _ => (counter _).symm

theorem Ledger.congr {e e' : Nat → Nat} (h : Ledger workers s e)
    (total : ∀ g r, (t.aclRuleHit g r).toNat + t.history.lost g r =
      (s.aclRuleHit g r).toNat + s.history.lost g r)
    (counter : ∀ j, t.history.base j - t.history.cleared j + e' j =
      s.history.base j - s.history.cleared j + e j) :
    Ledger workers t e' := by
  intro g hg r hr
  rw [total, h g hg r hr]
  exact Finset.sum_congr rfl fun w _ => (counter _).symm

/-! ## Where a command stands -/

def syncOps (ts : List Place) : List Op := ts.flatMap fun x => syncCounter x.worker x.grp x.rule

/-- A part of a clear. -/
inductive Block where
  | copy (i : Nat)
  | zero (g r : Nat)
deriving DecidableEq

def Block.ops : Block → List Op
  | .copy i => copyCounter i
  | .zero g r => [.zeroHit g r]

/-- While a clear has the blocks `bs` to do, it has not touched a rule and will not, or the
total of the rule is zero or will be, and so is what each baseline has moved. -/
def Clearing (workers : Nat) (s : State) (bs : List Block) : Prop :=
  ∀ g < MAX_RULE_GROUP_CNT, ∀ r < MAX_RULE_PER_GROUP,
    ((s.aclRuleHit g r).toNat + s.history.lost g r =
        ∑ w ∈ Finset.range workers,
          (s.history.base (hitIndex w g (r + 1)) - s.history.cleared (hitIndex w g (r + 1))) ∧
      .zero g r ∉ bs ∧ ∀ w < workers, .copy (hitIndex w g (r + 1)) ∉ bs) ∨
    ((.zero g r ∈ bs ∨ s.aclRuleHit g r = 0 ∧ s.history.lost g r = 0) ∧
      ∀ w < workers, .copy (hitIndex w g (r + 1)) ∈ bs ∨
        s.history.base (hitIndex w g (r + 1)) = s.history.cleared (hitIndex w g (r + 1)))

/-- The register holds the count of `i` as it was at some time since the baseline moved. -/
structure Loaded (s : State) (i : Nat) : Prop where
  value : s.regs.global = BitVec.ofNat 32 s.history.readAt
  base_le : s.history.base i ≤ s.history.readAt
  le_made : s.history.readAt ≤ s.history.made i

/-- The position of the running command, with what holds there. -/
inductive Phase (workers : Nat) (s : State) : Prop where
  /-- between two counters of a sync, or at the end of a command -/
  | syncing (ts : List Place) (todo : s.todo = syncOps ts) (ok : ∀ x ∈ ts, x.Ok workers)
      (gap : s.history.gap = none) (mode : ts ≠ [] → s.clearing = false)
      (ledger : Ledger workers s fun _ => 0)
  /-- the difference is being taken; hits from now on are lost -/
  | taking (x : Place) (ts : List Place) (ops : List Op)
      (todo : s.todo = ops ++ .addHit x.grp x.rule :: .updateGlobal x.index ::
        .updateOld x.index :: syncOps ts)
      (regs : ops = [.minusOld x.index, .loadHit x.grp x.rule] ∨
        ops = [.loadHit x.grp x.rule] ∧ s.regs.old = s.old x.index ∨
        ops = [] ∧ s.regs.old = s.old x.index ∧ s.regs.hit = s.aclRuleHit x.grp x.rule)
      (okx : x.Ok workers) (ok : ∀ y ∈ ts, y.Ok workers)
      (gap : s.history.gap = some x.index) (mode : s.clearing = false)
      (loaded : Loaded s x.index)
      (ledger : Ledger workers s (owed x.index (s.history.made x.index - s.history.readAt)))
  /-- the difference is in the total, and hits are still lost -/
  | added (x : Place) (ts : List Place)
      (todo : s.todo = .updateGlobal x.index :: .updateOld x.index :: syncOps ts)
      (okx : x.Ok workers) (ok : ∀ y ∈ ts, y.Ok workers)
      (gap : s.history.gap = some x.index) (mode : s.clearing = false)
      (ledger : Ledger workers s
        (owed x.index (s.history.made x.index - s.history.base x.index)))
  /-- the baseline is about to move -/
  | moving (x : Place) (ts : List Place)
      (todo : s.todo = .updateOld x.index :: syncOps ts)
      (ok : ∀ y ∈ ts, y.Ok workers)
      (gap : s.history.gap = none) (mode : s.clearing = false)
      (loaded : Loaded s x.index)
      (ledger : Ledger workers s (owed x.index (s.history.readAt - s.history.base x.index)))
  /-- between two parts of a clear -/
  | clearing (bs : List Block) (todo : s.todo = bs.flatMap Block.ops)
      (gap : s.history.gap = none) (mode : bs ≠ [] → s.clearing = true)
      (rules : Clearing workers s bs)
  /-- a clear is about to move a baseline -/
  | copying (i : Nat) (bs : List Block)
      (todo : s.todo = .updateOld i :: bs.flatMap Block.ops)
      (gap : s.history.gap = none) (mode : s.clearing = true) (loaded : Loaded s i)
      (rules : Clearing workers s (.copy i :: bs))

/-- The counters hold what the history says, modulo their width. -/
structure Sound (workers : Nat) (s : State) : Prop where
  global : ∀ i, s.global i = BitVec.ofNat 32 (s.history.made i)
  old : ∀ i, s.old i = BitVec.ofNat 32 (s.history.base i)
  cleared_le : ∀ i, s.history.cleared i ≤ s.history.base i
  base_le : ∀ i, s.history.base i ≤ s.history.made i
  few : ∀ i, s.history.made i - s.history.base i < 2 ^ 32
  counting : ∀ w ruleId v, s.counting w = some (ruleId, v) →
    w < workers ∧ 1 ≤ ruleId ∧ ruleId ≤ MAX_RULE_PER_GROUP ∧ v = s.global (hitIndex w 0 ruleId)

structure Inv (workers : Nat) (s : State) : Prop where
  sound : Sound workers s
  phase : Phase workers s

theorem inv_init (workers : Nat) : Inv workers .init where
  sound :=
    { global := fun _ => rfl
      old := fun _ => rfl
      cleared_le := fun _ => Nat.le_refl 0
      base_le := fun _ => Nat.le_refl 0
      few := fun _ => Nat.two_pow_pos 32
      counting := by simp [State.init] }
  phase := .syncing [] rfl (by simp) rfl (by simp) (by simp [Ledger, State.init])

/-! ## Entering a command -/

/-- Between two commands the totals cover exactly what the baselines have moved. -/
theorem Phase.ledger (h : Phase workers s) (idle : s.todo = []) :
    Ledger workers s fun _ => 0 := by
  cases h with
  | syncing ts _ _ _ _ ledger => exact ledger
  | taking x ts ops todo => simp [idle] at todo
  | added x ts todo => simp [idle] at todo
  | moving x ts todo => simp [idle] at todo
  | copying i bs todo => simp [idle] at todo
  | clearing bs todo gap mode rules =>
      obtain rfl : bs = [] := by
        cases bs with
        | nil => rfl
        | cons b bs => cases b <;> simp [idle, Block.ops, copyCounter] at todo
      intro g hg r hr
      obtain ⟨hledger, -⟩ | ⟨hzero, hcopy⟩ := rules g hg r hr
      · simpa using hledger
      · obtain ⟨htotal, hlost⟩ : s.aclRuleHit g r = 0 ∧ s.history.lost g r = 0 := by
          simpa using hzero
        have hmoved : ∀ w < workers, s.history.base (hitIndex w g (r + 1)) =
            s.history.cleared (hitIndex w g (r + 1)) := by simpa using hcopy
        rw [htotal, hlost, eq_comm]
        refine Finset.sum_eq_zero fun w hw => ?_
        rw [hmoved w (Finset.mem_range.mp hw)]
        simp

theorem Phase.gap_none (h : Phase workers s) (idle : s.todo = []) : s.history.gap = none := by
  cases h with
  | syncing ts _ _ gap => exact gap
  | taking x ts ops todo => simp [idle] at todo
  | added x ts todo => simp [idle] at todo
  | moving x ts todo => simp [idle] at todo
  | copying i bs todo => simp [idle] at todo
  | clearing bs _ gap => exact gap

/-- What a command does: nothing, all rules, or a rule that exists. -/
theorem runCommand_cases (all : List Op) (rule : Nat → Nat → List Op) (input : List Word) :
    runCommand all rule input = none ∨ runCommand all rule input = some all ∨
      ∃ g < MAX_RULE_GROUP_CNT, ∃ r < MAX_RULE_PER_GROUP,
        runCommand all rule input = some (rule g r) := by
  simp only [runCommand]
  split
  · exact .inl rfl
  split
  · exact .inr (.inl rfl)
  split
  · exact .inl rfl
  split
  · exact .inl rfl
  rename_i hgrp hrule
  exact .inr (.inr ⟨_, by omega, _, by omega, rfl⟩)

/-- The counters that a sync of all rules goes through. -/
def allPlaces (workers : Nat) : List Place :=
  (List.range workers).flatMap fun w =>
    (List.range MAX_RULE_GROUP_CNT).flatMap fun g =>
      (List.range MAX_RULE_PER_GROUP).map fun r => ⟨w, g, r⟩

theorem sfAclStatSyncAll_eq (workers : Nat) :
    sfAclStatSyncAll workers = syncOps (allPlaces workers) := by
  simp only [sfAclStatSyncAll, syncOps, allPlaces, List.flatMap_assoc, List.flatMap_map]

theorem allPlaces_ok : ∀ x ∈ allPlaces workers, x.Ok workers := by
  intro x hx
  simp only [allPlaces, List.mem_flatMap, List.mem_map, List.mem_range] at hx
  obtain ⟨w, hw, g, hg, r, hr, rfl⟩ := hx
  exact ⟨hw, hg, hr⟩

/-- The counters of a rule. -/
def rulePlaces (workers g r : Nat) : List Place :=
  (List.range workers).map fun w => ⟨w, g, r⟩

theorem syncRule_eq (workers g r : Nat) :
    syncRule workers g r = syncOps (rulePlaces workers g r) := by
  simp only [syncRule, syncOps, rulePlaces, List.flatMap_map]

theorem Inv.sync (h : Inv workers s) (idle : s.todo = []) (input : List Word) :
    Inv workers (s.enter false (sfAclStatSyncFn workers input)) := by
  have hledger := h.phase.ledger idle
  have hgap := h.phase.gap_none idle
  have hstart : ∀ ts : List Place, (∀ x ∈ ts, x.Ok workers) →
      Inv workers (s.enter false (some (syncOps ts))) := fun ts ok =>
    { sound := { h.sound with }
      phase := .syncing ts rfl ok hgap (fun _ => rfl) hledger }
  obtain heq | heq | ⟨g, hg, r, hr, heq⟩ := runCommand_cases (sfAclStatSyncAll workers)
    (syncRule workers) input
  · rw [sfAclStatSyncFn, heq]
    exact h
  · rw [sfAclStatSyncFn, heq, sfAclStatSyncAll_eq]
    exact hstart _ allPlaces_ok
  · rw [sfAclStatSyncFn, heq, syncRule_eq]
    refine hstart _ fun x hx => ?_
    obtain ⟨w, hw, rfl⟩ := List.mem_map.mp hx
    exact ⟨List.mem_range.mp hw, hg, hr⟩

/-- The parts of a clear of all rules. -/
def allBlocks (workers : Nat) : List Block :=
  (List.range (workers * MAX_RULE_GROUP_CNT * MAX_RULE_PER_GROUP)).map .copy ++
    (List.range MAX_RULE_GROUP_CNT).flatMap fun g =>
      (List.range MAX_RULE_PER_GROUP).map fun r => .zero g r

theorem clearAll_eq (workers : Nat) : clearAll workers = (allBlocks workers).flatMap Block.ops := by
  simp only [clearAll, allBlocks, List.flatMap_append, List.flatMap_assoc, List.map_eq_flatMap,
    List.flatMap_cons, List.flatMap_nil, List.append_nil, Block.ops]

/-- The parts of a clear of one rule. -/
def ruleBlocks (workers g r : Nat) : List Block :=
  .zero g r :: (List.range workers).map fun w => .copy (hitIndex w g (r + 1))

theorem clearRule_eq (workers g r : Nat) :
    clearRule workers g r = (ruleBlocks workers g r).flatMap Block.ops := by
  simp only [clearRule, ruleBlocks, List.flatMap_cons, List.flatMap_map, Block.ops,
    List.singleton_append]

theorem Ledger.clearing_all (workers : Nat) (s : State) :
    Clearing workers s (allBlocks workers) := by
  intro g hg r hr
  refine .inr ⟨.inl ?_, fun w hw => .inl ?_⟩
  · simp [allBlocks, hg, hr]
  · simpa [allBlocks] using hitIndex_lt hw hg hr

theorem Ledger.clearing_rule (h : Ledger workers s fun _ => 0) {g r : Nat}
    (hg : g < MAX_RULE_GROUP_CNT) (hr : r < MAX_RULE_PER_GROUP) :
    Clearing workers s (ruleBlocks workers g r) := by
  intro g' hg' r' hr'
  by_cases hrule : g' = g ∧ r' = r
  · obtain ⟨rfl, rfl⟩ := hrule
    refine .inr ⟨.inl (by simp [ruleBlocks]), fun w hw => .inl ?_⟩
    simpa [ruleBlocks] using ⟨w, hw, rfl⟩
  · refine .inl ⟨h g' hg' r' hr', ?_, fun w hw hmem => hrule ?_⟩
    · simpa [ruleBlocks] using hrule
    · obtain ⟨w', -, hi⟩ : ∃ w' < workers, hitIndex w' g (r + 1) = hitIndex w g' (r' + 1) := by
        simpa [ruleBlocks] using hmem
      exact (hitIndex_inj hg' hg hr' hr hi.symm).2

theorem Inv.clear (h : Inv workers s) (idle : s.todo = []) (input : List Word) :
    Inv workers (s.enter true (sfAclStatClearFn workers input)) := by
  have hledger := h.phase.ledger idle
  have hgap := h.phase.gap_none idle
  have hstart : ∀ bs : List Block, Clearing workers s bs →
      Inv workers (s.enter true (some (bs.flatMap Block.ops))) := fun bs rules =>
    { sound := { h.sound with }
      phase := .clearing bs rfl hgap (fun _ => rfl) rules }
  obtain heq | heq | ⟨g, hg, r, hr, heq⟩ := runCommand_cases (clearAll workers)
    (clearRule workers) input
  · rw [sfAclStatClearFn, heq]
    exact h
  · rw [sfAclStatClearFn, heq, clearAll_eq]
    exact hstart _ (Ledger.clearing_all workers s)
  · rw [sfAclStatClearFn, heq, clearRule_eq]
    exact hstart _ (hledger.clearing_rule hg hr)

/-! ## Workers -/

theorem Inv.load (h : Inv workers s) {w ruleId : Nat} (hw : w < workers) (hpos : 1 ≤ ruleId)
    (hmax : ruleId ≤ MAX_RULE_PER_GROUP) : Inv workers (s.load w ruleId) where
  sound :=
    { h.sound with
      counting := by
        intro w' r v hv
        by_cases hww : w' = w
        · subst hww
          obtain ⟨rfl, rfl⟩ : ruleId = r ∧ s.global (hitIndex w' 0 ruleId) = v := by
            simpa [State.load] using hv
          exact ⟨hw, hpos, hmax, rfl⟩
        · exact h.sound.counting w' r v (by simpa [State.load, hww] using hv) }
  phase := by
    cases h.phase with
    | syncing ts todo ok gap mode ledger => exact .syncing ts todo ok gap mode ledger
    | taking x ts ops todo regs okx ok gap mode loaded ledger =>
        exact .taking x ts ops todo regs okx ok gap mode ⟨loaded.1, loaded.2, loaded.3⟩ ledger
    | added x ts todo okx ok gap mode ledger => exact .added x ts todo okx ok gap mode ledger
    | moving x ts todo ok gap mode loaded ledger =>
        exact .moving x ts todo ok gap mode ⟨loaded.1, loaded.2, loaded.3⟩ ledger
    | clearing bs todo gap mode rules => exact .clearing bs todo gap mode rules
    | copying i bs todo gap mode loaded rules =>
        exact .copying i bs todo gap mode ⟨loaded.1, loaded.2, loaded.3⟩ rules

/-- The state after the worker has stored the counter `i` of the rule `r`. -/
def State.hit (s : State) (w i r : Nat) : State :=
  { s with
    global := Function.update s.global i (BitVec.ofNat 32 (s.history.made i + 1))
    counting := Function.update s.counting w none
    history := { s.history with
      made := Function.update s.history.made i (s.history.made i + 1)
      lost :=
        if s.history.gap = some i then setRule s.history.lost 0 r (s.history.lost 0 r + 1)
        else s.history.lost } }

/-- A worker stores what it has loaded plus one, and the counter is as it was then. -/
theorem Sound.store_eq (h : Sound workers s) {w ruleId : Nat} {v : BitVec 32}
    (counting : s.counting w = some (ruleId, v)) :
    ∃ r, r < MAX_RULE_PER_GROUP ∧ ruleId = r + 1 ∧ w < workers ∧
      s.store w = s.hit w (hitIndex w 0 (r + 1)) r := by
  obtain ⟨hw, hpos, hmax, rfl⟩ := h.counting w ruleId v counting
  obtain ⟨r, rfl⟩ := Nat.exists_eq_add_of_le' hpos
  refine ⟨r, hmax, rfl, hw, ?_⟩
  simp only [State.store, counting, State.hit, h.global, Counter.ofNat_succ, Nat.add_sub_cancel]

theorem Sound.hit (h : Sound workers s) {w r : Nat} (hr : r < MAX_RULE_PER_GROUP)
    (few : s.history.made (hitIndex w 0 (r + 1)) + 1 -
      s.history.base (hitIndex w 0 (r + 1)) < 2 ^ 32) :
    Sound workers (s.hit w (hitIndex w 0 (r + 1)) r) := by
  obtain ⟨i, hi⟩ : ∃ i, i = hitIndex w 0 (r + 1) := ⟨_, rfl⟩
  rw [← hi] at few ⊢
  refine
    { global := ?_
      old := h.old
      cleared_le := h.cleared_le
      base_le := ?_
      few := ?_
      counting := ?_ }
  · intro j
    by_cases hj : j = i
    · simp [State.hit, hj]
    · simp [State.hit, hj, h.global]
  · intro j
    have hbase := h.base_le j
    by_cases hj : j = i
    · subst hj
      simp only [State.hit, Function.update_self]
      omega
    · simpa [State.hit, hj] using hbase
  · intro j
    have hfew := h.few j
    by_cases hj : j = i
    · subst hj
      simpa [State.hit] using few
    · simpa [State.hit, hj] using hfew
  · intro w' ruleId v hv
    have hww : w' ≠ w := by
      rintro rfl
      simp [State.hit] at hv
    obtain ⟨hw', hpos, hmax, rfl⟩ := h.counting w' ruleId v (by simpa [State.hit, hww] using hv)
    refine ⟨hw', hpos, hmax, ?_⟩
    obtain ⟨r', rfl⟩ := Nat.exists_eq_add_of_le' hpos
    have hne : hitIndex w' 0 (r' + 1) ≠ i := by
      rw [hi]
      exact fun heq => hww (hitIndex_inj (by decide) (by decide) hmax hr heq).1
    simp [State.hit, hne]

/-- A hit is made at its own counter. -/
theorem made_hit_of_ne {w i r j : Nat} (h : i ≠ j) :
    (s.hit w i r).history.made j = s.history.made j := by
  simp only [State.hit, Function.update_of_ne (Ne.symm h)]

/-- A hit leaves the registers behind. -/
theorem Loaded.hit {j : Nat} (h : Loaded s j) (w i r : Nat) : Loaded (s.hit w i r) j where
  value := h.value
  base_le := h.base_le
  le_made := by
    have hle := h.le_made
    by_cases hj : j = i
    · subst hj
      simp only [State.hit, Function.update_self]
      omega
    · simpa [State.hit, hj] using hle

/-- A hit outside the gap changes neither totals nor baselines. -/
theorem Ledger.hit {e : Nat → Nat} (h : Ledger workers s e) {w i r : Nat}
    (free : s.history.gap ≠ some i) : Ledger workers (s.hit w i r) e :=
  h.congr (by simp [State.hit, free]) fun _ => rfl

/-- A hit in the gap is owed to the total, which loses it. -/
theorem Ledger.hit_gap {x : Place} {e e' : Nat → Nat} (h : Ledger workers s e)
    (okx : x.Ok workers) {w r : Nat} (hr : r < MAX_RULE_PER_GROUP)
    (gap : s.history.gap = some x.index) (own : hitIndex w 0 (r + 1) = x.index)
    (more : ∀ j, e' j = e j + if j = x.index then 1 else 0) :
    Ledger workers (s.hit w x.index r) e' := by
  obtain ⟨-, hgrp, hrule⟩ := hitIndex_inj (by decide) okx.grp hr okx.rule own
  refine h.add okx (d := 1) (fun g r' => ?_) fun j => ?_
  · by_cases hthis : g = 0 ∧ r' = r
    · obtain ⟨rfl, rfl⟩ := hthis
      simp only [State.hit, gap, if_true, setRule_apply, ← hgrp, ← hrule, and_self]
      omega
    · simp [State.hit, gap, setRule_apply, hthis, ← hgrp, ← hrule]
  · rw [more]
    simp only [State.hit]
    omega

theorem Clearing.hit {bs : List Block} (h : Clearing workers s bs) {w i r : Nat}
    (gap : s.history.gap = none) : Clearing workers (s.hit w i r) bs := by
  intro g hg r' hr'
  have hlost : (s.hit w i r).history.lost = s.history.lost := by simp [State.hit, gap]
  rw [hlost]
  exact h g hg r' hr'

/-- The counter in the gap is the one that was hit, or it is left alone. -/
theorem Phase.hit (h : Phase workers s) (sound : Sound workers s) {w r : Nat}
    (hr : r < MAX_RULE_PER_GROUP) : Phase workers (s.hit w (hitIndex w 0 (r + 1)) r) := by
  cases h with
  | syncing ts todo ok gap mode ledger =>
      exact .syncing ts todo ok gap mode (ledger.hit (by simp [gap]))
  | taking x ts ops todo regs okx ok gap mode loaded ledger =>
      refine .taking x ts ops todo regs okx ok gap mode (loaded.hit ..) ?_
      by_cases own : hitIndex w 0 (r + 1) = x.index
      · rw [own]
        refine ledger.hit_gap okx hr gap own fun j => ?_
        have hle := loaded.le_made
        by_cases hj : j = x.index
        · simp only [State.hit, owed, hj, if_true, Function.update_self]
          omega
        · simp [owed, hj]
      · rw [made_hit_of_ne own]
        exact ledger.hit (by simpa [gap] using Ne.symm own)
  | added x ts todo okx ok gap mode ledger =>
      refine .added x ts todo okx ok gap mode ?_
      by_cases own : hitIndex w 0 (r + 1) = x.index
      · rw [own]
        refine ledger.hit_gap okx hr gap own fun j => ?_
        have hle := sound.base_le x.index
        by_cases hj : j = x.index
        · simp only [State.hit, owed, hj, if_true, Function.update_self]
          omega
        · simp [owed, hj]
      · rw [made_hit_of_ne own]
        exact ledger.hit (by simpa [gap] using Ne.symm own)
  | moving x ts todo ok gap mode loaded ledger =>
      exact .moving x ts todo ok gap mode (loaded.hit ..) (ledger.hit (by simp [gap]))
  | clearing bs todo gap mode rules => exact .clearing bs todo gap mode (rules.hit gap)
  | copying i bs todo gap mode loaded rules =>
      exact .copying i bs todo gap mode (loaded.hit ..) (rules.hit gap)

theorem Inv.store (h : Inv workers s) {w : Nat} {p : Nat × BitVec 32}
    (counting : s.counting w = some p)
    (few : s.history.made (hitIndex w 0 p.1) + 1 - s.history.base (hitIndex w 0 p.1) < 2 ^ 32) :
    Inv workers (s.store w) := by
  obtain ⟨r, hr, hrule, -, heq⟩ := h.sound.store_eq counting
  rw [hrule] at few
  rw [heq]
  exact ⟨h.sound.hit hr few, h.phase.hit h.sound hr⟩

/-! ## Steps of a command -/

/-- The total takes the difference; a sum that does not fit is lost by multiples of 2^64. -/
theorem toNat_addHit (hit : BitVec 64) (minus : BitVec 32) :
    (hit + minus.setWidth 64).toNat +
        (hit.toNat + (minus.setWidth 64).toNat) / 2 ^ 64 * 2 ^ 64 = hit.toNat + minus.toNat := by
  have hminus : (minus.setWidth 64).toNat = minus.toNat := by
    rw [BitVec.toNat_setWidth]
    exact Nat.mod_eq_of_lt (Nat.lt_of_lt_of_le minus.isLt (by decide))
  rw [BitVec.toNat_add, hminus]
  exact Nat.mod_add_div' ..

/-- Storing the difference turns what is owed since the load into what is owed since the
baseline. -/
theorem Ledger.addHit {x : Place} (sound : Sound workers s) (okx : x.Ok workers)
    (loaded : Loaded s x.index) (old : s.regs.old = s.old x.index)
    (hit : s.regs.hit = s.aclRuleHit x.grp x.rule)
    (h : Ledger workers s (owed x.index (s.history.made x.index - s.history.readAt))) :
    Ledger workers (s.exec (.addHit x.grp x.rule))
      (owed x.index (s.history.made x.index - s.history.base x.index)) := by
  have hfew := sound.few x.index
  have hread := loaded.le_made
  have hbase := loaded.base_le
  have hminus : (s.regs.global - s.regs.old).toNat = s.history.readAt - s.history.base x.index := by
    rw [loaded.value, old, sound.old]
    exact Counter.sub_toNat hbase (by omega)
  refine h.add okx (d := s.history.readAt - s.history.base x.index) (fun g r => ?_) fun j => ?_
  · have htotal := toNat_addHit s.regs.hit (s.regs.global - s.regs.old)
    rw [hminus, hit] at htotal
    by_cases hrule : g = x.grp ∧ r = x.rule
    · obtain ⟨rfl, rfl⟩ := hrule
      simp only [State.exec, setRule_apply, and_self, if_true, hit]
      omega
    · simp [State.exec, setRule_apply, hrule]
  · by_cases hj : j = x.index
    · simp only [State.exec, owed, hj, if_true]
      omega
    · simp [State.exec, owed, hj]

/-- The baseline moves to the count that was loaded. -/
theorem Sound.updateOld {i : Nat} (h : Sound workers s) (loaded : Loaded s i) :
    Sound workers (s.exec (.updateOld i)) := by
  have hread := loaded.le_made
  have hbase := loaded.base_le
  refine
    { global := h.global
      old := ?_
      cleared_le := ?_
      base_le := ?_
      few := ?_
      counting := h.counting }
  · intro j
    by_cases hj : j = i
    · simp [State.exec, hj, loaded.value]
    · simp [State.exec, hj, h.old]
  · intro j
    have hle := h.cleared_le j
    by_cases hj : j = i
    · subst hj
      cases hmode : s.clearing
      · simp only [State.exec, hmode, Function.update_self]
        simp only [Bool.false_eq_true, if_false]
        omega
      · simp [State.exec, hmode]
    · cases hmode : s.clearing <;> simpa [State.exec, hmode, hj] using hle
  · intro j
    have hle := h.base_le j
    by_cases hj : j = i
    · subst hj
      simpa [State.exec] using hread
    · simpa [State.exec, hj] using hle
  · intro j
    have hfew := h.few j
    by_cases hj : j = i
    · subst hj
      simp only [State.exec, Function.update_self]
      omega
    · simpa [State.exec, hj] using hfew

@[simp] theorem syncOps_nil : syncOps [] = [] := rfl

theorem syncOps_cons (x : Place) (ts : List Place) :
    syncOps (x :: ts) = .minusGlobal x.index :: .minusOld x.index :: .loadHit x.grp x.rule ::
      .addHit x.grp x.rule :: .updateGlobal x.index :: .updateOld x.index :: syncOps ts := rfl

theorem State.command_cons {op : Op} {ops : List Op} (todo : s.todo = op :: ops) :
    s.command = { s.exec op with todo := ops } := by
  simp only [State.command, todo]

/-- Loading a count does not change what is known of the counters. -/
theorem Sound.of_same (h : Sound workers s) (global : t.global = s.global) (old : t.old = s.old)
    (counting : t.counting = s.counting) (made : t.history.made = s.history.made)
    (base : t.history.base = s.history.base) (cleared : t.history.cleared = s.history.cleared) :
    Sound workers t where
  global := by rw [global, made]; exact h.global
  old := by rw [old, base]; exact h.old
  cleared_le := by rw [cleared, base]; exact h.cleared_le
  base_le := by rw [base, made]; exact h.base_le
  few := by rw [made, base]; exact h.few
  counting := by rw [counting, global]; exact h.counting

/-- The parts of a sync one after the other. -/
theorem Inv.syncing (sound : Sound workers s) {x : Place} {ts : List Place}
    (todo : s.todo = syncOps (x :: ts)) (ok : ∀ y ∈ x :: ts, y.Ok workers)
    (mode : s.clearing = false) (ledger : Ledger workers s fun _ => 0) :
    Inv workers s.command := by
  rw [State.command_cons (todo.trans (syncOps_cons x ts))]
  refine ⟨sound.of_same rfl rfl rfl rfl rfl rfl, ?_⟩
  refine .taking x ts [.minusOld x.index, .loadHit x.grp x.rule] rfl (.inl rfl) (ok x (by simp))
    (fun y hy => ok y (by simp [hy])) rfl mode ⟨sound.global x.index, sound.base_le _, le_rfl⟩ ?_
  have hnone : owed x.index (s.history.made x.index - s.history.made x.index) = fun _ => 0 := by
    rw [Nat.sub_self, owed_zero]
  exact hnone ▸ ledger

theorem Inv.taking (sound : Sound workers s) {x : Place} {ts : List Place} {ops : List Op}
    (todo : s.todo = ops ++ .addHit x.grp x.rule :: .updateGlobal x.index ::
      .updateOld x.index :: syncOps ts)
    (regs : ops = [.minusOld x.index, .loadHit x.grp x.rule] ∨
      ops = [.loadHit x.grp x.rule] ∧ s.regs.old = s.old x.index ∨
      ops = [] ∧ s.regs.old = s.old x.index ∧ s.regs.hit = s.aclRuleHit x.grp x.rule)
    (okx : x.Ok workers) (ok : ∀ y ∈ ts, y.Ok workers) (gap : s.history.gap = some x.index)
    (mode : s.clearing = false) (loaded : Loaded s x.index)
    (ledger : Ledger workers s (owed x.index (s.history.made x.index - s.history.readAt))) :
    Inv workers s.command := by
  obtain ⟨hvalue, hbase, hmade⟩ := loaded
  obtain rfl | ⟨rfl, old⟩ | ⟨rfl, old, hit⟩ := regs
  · rw [State.command_cons todo]
    exact ⟨sound.of_same rfl rfl rfl rfl rfl rfl, .taking x ts [.loadHit x.grp x.rule] rfl
      (.inr (.inl ⟨rfl, rfl⟩)) okx ok gap mode ⟨hvalue, hbase, hmade⟩ ledger⟩
  · rw [State.command_cons todo]
    exact ⟨sound.of_same rfl rfl rfl rfl rfl rfl, .taking x ts [] rfl
      (.inr (.inr ⟨rfl, old, rfl⟩)) okx ok gap mode ⟨hvalue, hbase, hmade⟩ ledger⟩
  · rw [State.command_cons todo]
    have hledger := ledger.addHit sound okx ⟨hvalue, hbase, hmade⟩ old hit
    exact ⟨sound.of_same rfl rfl rfl rfl rfl rfl, .added x ts rfl okx ok gap mode hledger⟩

theorem Inv.added (sound : Sound workers s) {x : Place} {ts : List Place}
    (todo : s.todo = .updateGlobal x.index :: .updateOld x.index :: syncOps ts)
    (ok : ∀ y ∈ ts, y.Ok workers) (mode : s.clearing = false)
    (ledger : Ledger workers s
      (owed x.index (s.history.made x.index - s.history.base x.index))) :
    Inv workers s.command := by
  rw [State.command_cons todo]
  exact ⟨sound.of_same rfl rfl rfl rfl rfl rfl, .moving x ts rfl ok rfl mode
    ⟨sound.global x.index, sound.base_le _, le_rfl⟩ ledger⟩

/-- The baseline moves by what was owed to the total. -/
theorem Inv.moving (sound : Sound workers s) {x : Place} {ts : List Place}
    (todo : s.todo = .updateOld x.index :: syncOps ts) (ok : ∀ y ∈ ts, y.Ok workers)
    (gap : s.history.gap = none) (mode : s.clearing = false) (loaded : Loaded s x.index)
    (ledger : Ledger workers s (owed x.index (s.history.readAt - s.history.base x.index))) :
    Inv workers s.command := by
  rw [State.command_cons todo]
  refine ⟨(sound.updateOld loaded).of_same rfl rfl rfl rfl rfl rfl,
    .syncing ts rfl ok gap (fun _ => mode) (ledger.congr (fun _ _ => rfl) fun j => ?_)⟩
  have hread := loaded.base_le
  have hcleared := sound.cleared_le x.index
  by_cases hj : j = x.index
  · simp only [State.exec, mode, owed, hj, if_true, Bool.false_eq_true, if_false,
      Function.update_self]
    omega
  · simp [State.exec, mode, owed, hj]

theorem flatMap_blockOps_cons (b : Block) (bs : List Block) :
    (b :: bs).flatMap Block.ops = b.ops ++ bs.flatMap Block.ops := rfl

/-- The rule whose total is zeroed is one that the clear goes through. -/
theorem Clearing.zero {bs : List Block} {g r : Nat} (h : Clearing workers s (.zero g r :: bs)) :
    Clearing workers (s.exec (.zeroHit g r)) bs := by
  intro g' hg' r' hr'
  obtain ⟨hledger, hzero, hcopy⟩ | ⟨hzero, hcopy⟩ := h g' hg' r' hr'
  · have hrule : ¬(g' = g ∧ r' = r) := by
      rintro ⟨rfl, rfl⟩
      simp at hzero
    refine .inl ⟨?_, by simp_all, fun w hw => by simpa using hcopy w hw⟩
    simpa [State.exec, setRule_apply, hrule] using hledger
  · refine .inr ⟨?_, fun w hw => by simpa [State.exec] using hcopy w hw⟩
    by_cases hrule : g' = g ∧ r' = r
    · exact .inr (by simp [State.exec, setRule_apply, hrule])
    · refine hzero.imp (fun hmem => ?_) fun htotal => ?_
      · simpa [hrule] using hmem
      · simpa [State.exec, setRule_apply, hrule] using htotal

/-- A baseline that has been copied has moved nothing since the clear. -/
theorem Clearing.copy {bs : List Block} {i : Nat} (h : Clearing workers s (.copy i :: bs))
    (mode : s.clearing = true) : Clearing workers (s.exec (.updateOld i)) bs := by
  intro g hg r hr
  obtain ⟨hledger, hzero, hcopy⟩ | ⟨hzero, hcopy⟩ := h g hg r hr
  · have hi : ∀ w < workers, hitIndex w g (r + 1) ≠ i := by
      rintro w hw rfl
      exact hcopy w hw (by simp)
    refine .inl ⟨?_, by simpa using hzero, fun w hw => ?_⟩
    · rw [State.exec, hledger]
      refine Finset.sum_congr rfl fun w hw => ?_
      simp [mode, hi w (Finset.mem_range.mp hw)]
    · have hmem := hcopy w hw
      simp only [List.mem_cons, Block.copy.injEq, hi w hw, false_or] at hmem
      exact hmem
  · refine .inr ⟨by simpa [State.exec] using hzero, fun w hw => ?_⟩
    by_cases hi : hitIndex w g (r + 1) = i
    · exact .inr (by simp [State.exec, mode, hi])
    · have hmoved := hcopy w hw
      simp only [List.mem_cons, Block.copy.injEq, hi, false_or] at hmoved
      simpa [State.exec, mode, hi] using hmoved

theorem Inv.clearing (sound : Sound workers s) {b : Block} {bs : List Block}
    (todo : s.todo = (b :: bs).flatMap Block.ops) (gap : s.history.gap = none)
    (mode : s.clearing = true) (rules : Clearing workers s (b :: bs)) :
    Inv workers s.command := by
  rw [flatMap_blockOps_cons] at todo
  cases b with
  | copy i =>
      rw [State.command_cons todo]
      exact ⟨sound.of_same rfl rfl rfl rfl rfl rfl, .copying i bs rfl rfl mode
        ⟨sound.global i, sound.base_le i, le_rfl⟩ rules⟩
  | zero g r =>
      rw [State.command_cons todo]
      exact ⟨sound.of_same rfl rfl rfl rfl rfl rfl, .clearing bs rfl gap (fun _ => mode)
        rules.zero⟩

theorem Inv.copying (sound : Sound workers s) {i : Nat} {bs : List Block}
    (todo : s.todo = .updateOld i :: bs.flatMap Block.ops) (gap : s.history.gap = none)
    (mode : s.clearing = true) (loaded : Loaded s i)
    (rules : Clearing workers s (.copy i :: bs)) : Inv workers s.command := by
  rw [State.command_cons todo]
  exact ⟨(sound.updateOld loaded).of_same rfl rfl rfl rfl rfl rfl,
    .clearing bs rfl gap (fun _ => mode) (rules.copy mode)⟩

theorem Inv.command (h : Inv workers s) (busy : s.todo ≠ []) : Inv workers s.command := by
  obtain ⟨sound, phase⟩ := h
  cases phase with
  | syncing ts todo ok gap mode ledger =>
      cases ts with
      | nil => exact absurd todo busy
      | cons x ts => exact .syncing sound todo ok (mode (by simp)) ledger
  | taking x ts ops todo regs okx ok gap mode loaded ledger =>
      exact .taking sound todo regs okx ok gap mode loaded ledger
  | added x ts todo okx ok gap mode ledger => exact .added sound todo ok mode ledger
  | moving x ts todo ok gap mode loaded ledger =>
      exact .moving sound todo ok gap mode loaded ledger
  | clearing bs todo gap mode rules =>
      cases bs with
      | nil => exact absurd todo busy
      | cons b bs => exact .clearing sound todo gap (mode (by simp)) rules
  | copying i bs todo gap mode loaded rules => exact .copying sound todo gap mode loaded rules

theorem Inv.step {e : Event} (h : Inv workers s) (hstep : Step workers s e t) : Inv workers t := by
  obtain ⟨enabled, rfl⟩ := hstep
  cases e with
  | load w ruleId => exact h.load enabled.1 enabled.2.1 enabled.2.2.1
  | store w =>
      obtain ⟨p, counting, few⟩ := enabled
      exact h.store counting few
  | sync input => exact h.sync enabled input
  | clear input => exact h.clear enabled input
  | command => exact h.command enabled

end Tapplet.Acl.Hits
