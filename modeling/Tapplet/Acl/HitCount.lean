import Tapplet.Acl.HitPhases

/-!
# No hit is lost, but those between two loads

The total of a rule, with what the counters of the workers are ahead of their baselines, is
the number of hits since the last clear, less those that a sync has lost. It loses the hits
of a worker that fall between its two loads of the counter: the difference has been taken by
then, and the baseline is moved past them.
-/

namespace Tapplet.Acl.Hits

open Transition

variable {workers : Nat} {s t : State}

/-! ## Hits and totals -/

/-- The total of a rule, with what the counters are ahead of their baselines, is the number of
hits since the last clear. -/
def Conserved (workers : Nat) (s : State) (g r : Nat) : Prop :=
  (s.aclRuleHit g r).toNat +
      ∑ w ∈ Finset.range workers,
        (s.global (hitIndex w g (r + 1)) - s.old (hitIndex w g (r + 1))).toNat =
    ∑ w ∈ Finset.range workers,
      (s.history.made (hitIndex w g (r + 1)) - s.history.cleared (hitIndex w g (r + 1)))

/-- Between two commands the hits of every rule are conserved. -/
def Settled (workers : Nat) (s : State) : Prop :=
  s.todo = [] → ∀ g < MAX_RULE_GROUP_CNT, ∀ r < MAX_RULE_PER_GROUP, Conserved workers s g r

/-- Between two commands each hit since the last clear is in the total, ahead of a baseline,
or lost. -/
theorem Inv.accounted (h : Inv workers s) (idle : s.todo = []) {g r : Nat}
    (hg : g < MAX_RULE_GROUP_CNT) (hr : r < MAX_RULE_PER_GROUP) :
    (s.aclRuleHit g r).toNat +
        ∑ w ∈ Finset.range workers,
          (s.global (hitIndex w g (r + 1)) - s.old (hitIndex w g (r + 1))).toNat +
        s.history.lost g r =
      ∑ w ∈ Finset.range workers,
        (s.history.made (hitIndex w g (r + 1)) - s.history.cleared (hitIndex w g (r + 1))) := by
  have hpending : ∀ i, (s.global i - s.old i).toNat = s.history.made i - s.history.base i := by
    intro i
    rw [h.sound.global, h.sound.old]
    exact Counter.sub_toNat (h.sound.base_le i) (h.sound.few i)
  have hledger := h.phase.ledger idle g hg r hr
  simp only [hpending, Nat.add_zero] at hledger ⊢
  rw [Nat.add_right_comm, hledger, ← Finset.sum_add_distrib]
  refine Finset.sum_congr rfl fun w _ => ?_
  have hcleared := h.sound.cleared_le (hitIndex w g (r + 1))
  have hbase := h.sound.base_le (hitIndex w g (r + 1))
  omega

theorem Inv.conserved_iff (h : Inv workers s) (idle : s.todo = []) {g r : Nat}
    (hg : g < MAX_RULE_GROUP_CNT) (hr : r < MAX_RULE_PER_GROUP) :
    Conserved workers s g r ↔ s.history.lost g r = 0 := by
  have haccounted := h.accounted idle hg hr
  rw [Conserved]
  omega

/-- No worker stores a counter that the running sync has loaded for the difference and not yet
for the baseline, and no total runs over. -/
def Undisturbed (s : State) : Event → Prop
  | .store w => ∀ p ∈ s.counting w, s.history.gap ≠ some (hitIndex w 0 p.1)
  | .command =>
      match s.todo with
      | .addHit _ _ :: _ => s.regs.hit.toNat + (s.regs.global - s.regs.old).toNat < 2 ^ 64
      | _ => True
  | _ => True

instance (s : State) : (e : Event) → Decidable (Undisturbed s e)
  | .store w =>
      inferInstanceAs (Decidable (∀ p ∈ s.counting w, s.history.gap ≠ some (hitIndex w 0 p.1)))
  | .command =>
      decidable_of_iff
        ((match s.todo with
          | .addHit _ _ :: _ =>
              decide (s.regs.hit.toNat + (s.regs.global - s.regs.old).toNat < 2 ^ 64)
          | _ => true) = true) (by
        rw [Undisturbed]
        split
        · exact decide_eq_true_iff
        · exact iff_of_true rfl trivial)
  | .load _ _ | .sync _ | .clear _ => .isTrue trivial

def Clean (s : State) : Prop :=
  ∀ g < MAX_RULE_GROUP_CNT, ∀ r < MAX_RULE_PER_GROUP, s.history.lost g r = 0

/-- A sync is running, and a total has lost hits. -/
structure Broken (s : State) : Prop where
  mode : s.clearing = false
  busy : s.todo ≠ []
  lost : ∃ g < MAX_RULE_GROUP_CNT, ∃ r < MAX_RULE_PER_GROUP, 0 < s.history.lost g r

theorem command_todo {op : Op} {ops : List Op} (todo : s.todo = op :: ops) :
    s.command.todo = ops := by
  rw [State.command_cons todo]

theorem command_clearing : s.command.clearing = s.clearing := by
  rw [State.command]
  split
  · rfl
  · rename_i op _ _
    cases op <;> rfl

theorem command_lost {op : Op} {ops : List Op} (todo : s.todo = op :: ops) (g r : Nat) :
    s.command.history.lost g r = (s.exec op).history.lost g r := by
  rw [State.command_cons todo]

/-- Only a clear makes a total forget what it has lost. -/
theorem Inv.command_lost_ge (h : Inv workers s) (mode : s.clearing = false) (busy : s.todo ≠ [])
    (g r : Nat) : s.history.lost g r ≤ s.command.history.lost g r := by
  cases h.phase with
  | syncing ts todo =>
      cases ts with
      | nil => exact absurd todo busy
      | cons x ts => exact Nat.le_of_eq (command_lost todo g r).symm
  | taking x ts ops todo regs =>
      obtain rfl | ⟨rfl, -⟩ | ⟨rfl, -⟩ := regs
      · exact Nat.le_of_eq (command_lost todo g r).symm
      · exact Nat.le_of_eq (command_lost todo g r).symm
      · rw [command_lost todo]
        simp only [State.exec, setRule_apply]
        split
        · rename_i hrule
          rw [hrule.1, hrule.2]
          exact Nat.le_add_right ..
        · exact Nat.le_refl _
  | added x ts todo => exact Nat.le_of_eq (command_lost todo g r).symm
  | moving x ts todo => exact Nat.le_of_eq (command_lost todo g r).symm
  | clearing bs todo gap mode' =>
      cases bs with
      | nil => exact absurd todo busy
      | cons b bs => exact absurd (mode' (by simp)) (by simp [mode])
  | copying i bs todo gap mode' => exact absurd mode' (by simp [mode])

/-- A step that is not disturbed loses nothing. -/
theorem Clean.step {e : Event} (clean : Clean s)
    (quiet : Undisturbed s e) (hstep : Step workers s e t) : Clean t := by
  obtain ⟨enabled, rfl⟩ := hstep
  cases e with
  | load w ruleId => exact clean
  | store w =>
      obtain ⟨p, (counting : s.counting w = some p), -⟩ := enabled
      have hgap := quiet p counting
      intro g hg r hr
      simpa [State.after, State.store, counting, hgap] using clean g hg r hr
  | sync input =>
      simp only [State.after, State.enter]
      split <;> exact clean
  | clear input =>
      simp only [State.after, State.enter]
      split <;> exact clean
  | command =>
      intro g hg r hr
      obtain ⟨op, ops, todo⟩ := List.exists_cons_of_ne_nil enabled
      have hold := clean g hg r hr
      rw [State.after, command_lost todo]
      cases op with
      | addHit g' r' =>
          have hroom : s.regs.hit.toNat + (s.regs.global - s.regs.old).toNat < 2 ^ 64 := by
            simpa only [Undisturbed, todo] using quiet
          have hminus : ((s.regs.global - s.regs.old).setWidth 64).toNat ≤
              (s.regs.global - s.regs.old).toNat := by
            rw [BitVec.toNat_setWidth]
            exact Nat.mod_le ..
          have hzero : (s.regs.hit.toNat +
              ((s.regs.global - s.regs.old).setWidth 64).toNat) / 2 ^ 64 = 0 :=
            Nat.div_eq_of_lt (by omega)
          simp only [State.exec, setRule_apply, hzero]
          split
          · rename_i hrule
            rw [← hrule.1, ← hrule.2, hold, Nat.zero_mul]
          · exact hold
      | zeroHit g' r' =>
          simp only [State.exec, setRule_apply]
          split
          · rfl
          · exact hold
      | minusGlobal | minusOld | loadHit | updateGlobal | updateOld => exact hold

/-- The counter in the gap belongs to a sync that has not ended. -/
theorem Phase.of_gap (h : Phase workers s) {i : Nat} (gap : s.history.gap = some i) :
    s.clearing = false ∧ s.todo ≠ [] := by
  cases h with
  | syncing ts _ _ gap' => simp [gap] at gap'
  | taking x ts ops todo _ _ _ _ mode => exact ⟨mode, by simp [todo]⟩
  | added x ts todo _ _ _ mode => exact ⟨mode, by simp [todo]⟩
  | moving x ts _ _ gap' => simp [gap] at gap'
  | clearing bs _ gap' => simp [gap] at gap'
  | copying i bs _ gap' => simp [gap] at gap'

/-- A total is only added to in a sync, and the baseline is still to move then. -/
theorem Phase.of_addHit (h : Phase workers s) {g r : Nat} {ops : List Op}
    (todo : s.todo = .addHit g r :: ops) :
    s.clearing = false ∧ ops ≠ [] ∧ g < MAX_RULE_GROUP_CNT ∧ r < MAX_RULE_PER_GROUP := by
  cases h with
  | syncing ts todo' =>
      cases ts <;> simp [todo, syncOps_cons] at todo'
  | taking x ts pre todo' regs okx _ _ mode =>
      obtain rfl | ⟨rfl, -⟩ | ⟨rfl, -⟩ := regs
      · simp [todo] at todo'
      · simp [todo] at todo'
      · obtain ⟨⟨rfl, rfl⟩, rfl⟩ : (g = x.grp ∧ r = x.rule) ∧ _ := by simpa [todo] using todo'
        exact ⟨mode, by simp, okx.grp, okx.rule⟩
  | added x ts todo' => simp [todo] at todo'
  | moving x ts todo' => simp [todo] at todo'
  | clearing bs todo' =>
      cases bs with
      | nil => simp [todo] at todo'
      | cons b bs => cases b <;> simp [todo, Block.ops, copyCounter] at todo'
  | copying i bs todo' => simp [todo] at todo'

/-- A step that is disturbed loses hits, and the sync goes on. -/
theorem Inv.disturbed {e : Event} (h : Inv workers s) (bad : ¬Undisturbed s e)
    (hstep : Step workers s e t) : Broken t := by
  obtain ⟨enabled, rfl⟩ := hstep
  cases e with
  | load w ruleId => exact absurd trivial bad
  | sync input => exact absurd trivial bad
  | clear input => exact absurd trivial bad
  | store w =>
      obtain ⟨p, (counting : s.counting w = some p), -⟩ := enabled
      have hgap : s.history.gap = some (hitIndex w 0 p.1) := by
        by_contra hne
        refine bad fun q hq => ?_
        obtain rfl : p = q := by simpa [counting] using hq
        exact hne
      obtain ⟨mode, busy⟩ := h.phase.of_gap hgap
      obtain ⟨-, hpos, hmax, -⟩ := h.sound.counting w p.1 p.2 counting
      refine ⟨?_, ?_, 0, by decide, p.1 - 1, by omega, ?_⟩
      · simpa [State.after, State.store, counting] using mode
      · simpa [State.after, State.store, counting] using busy
      · simp [State.after, State.store, counting, hgap, setRule_apply]
  | command =>
      obtain ⟨g, r, ops, todo, hover⟩ : ∃ g r ops, s.todo = .addHit g r :: ops ∧
          2 ^ 64 ≤ s.regs.hit.toNat + (s.regs.global - s.regs.old).toNat := by
        simp only [Undisturbed] at bad
        split at bad
        · exact ⟨_, _, _, ‹_›, Nat.not_lt.mp bad⟩
        · exact absurd trivial bad
      obtain ⟨mode, busy, hg, hr⟩ := h.phase.of_addHit todo
      refine ⟨command_clearing.trans mode, ?_, g, hg, r, hr, ?_⟩
      · rwa [State.after, command_todo todo]
      · have hsum := toNat_addHit s.regs.hit (s.regs.global - s.regs.old)
        have hlt := (s.regs.hit + (s.regs.global - s.regs.old).setWidth 64).isLt
        rw [State.after, command_lost todo]
        simp only [State.exec, setRule_apply, and_self, if_true]
        omega

/-- A sync that has lost hits goes on, or it ends and has lost them. -/
theorem Inv.broken_step {e : Event} (h : Inv workers s) (broken : Broken s)
    (hstep : Step workers s e t) :
    t.clearing = false ∧ ∃ g < MAX_RULE_GROUP_CNT, ∃ r < MAX_RULE_PER_GROUP,
      0 < t.history.lost g r := by
  obtain ⟨mode, busy, g, hg, r, hr, hlost⟩ := broken
  obtain ⟨enabled, rfl⟩ := hstep
  cases e with
  | load w ruleId => exact ⟨mode, g, hg, r, hr, hlost⟩
  | sync input => exact absurd enabled busy
  | clear input => exact absurd enabled busy
  | store w =>
      obtain ⟨p, (counting : s.counting w = some p), -⟩ := enabled
      refine ⟨by simpa [State.after, State.store, counting] using mode, g, hg, r, hr, ?_⟩
      simp only [State.after, State.store, counting]
      split
      · rw [setRule_apply]
        split <;> omega
      · exact hlost
  | command =>
      exact ⟨command_clearing.trans mode, g, hg, r, hr,
        Nat.lt_of_lt_of_le hlost (h.command_lost_ge mode busy g r)⟩

/-- The hits of all rules are conserved along a run, in every state in which no command is in
progress, exactly when no step of the run is disturbed. A run that breaks off inside a command
may have lost hits that no such state shows. -/
theorem hits_conserved_iff (workers : Nat) (es : List Event) (t : State) :
    (Run (Along Undisturbed (Step workers)) .init es t →
      Run (Into (Settled workers) (Step workers)) .init es t) ∧
    (t.todo = [] → Run (Into (Settled workers) (Step workers)) .init es t →
      Run (Along Undisturbed (Step workers)) .init es t) := by
  have hclean : Clean State.init := fun _ _ _ _ => rfl
  constructor
  · intro hquiet
    apply hquiet.into_of_along (J := fun s => Inv workers s ∧ Clean s) ⟨inv_init workers, hclean⟩
    rintro s e u ⟨hinv, hclean⟩ hundisturbed hstep
    have hinv' := hinv.step hstep
    have hclean' := hclean.step hundisturbed hstep
    exact ⟨⟨hinv', hclean'⟩, fun idle g hg r hr =>
      (hinv'.conserved_iff idle hg hr).mpr (hclean' g hg r hr)⟩
  · intro idle hsettled
    have hor := hsettled.along_or (C := Undisturbed) (I := fun s => Inv workers s ∧ Clean s)
      (B := fun s => Inv workers s ∧ Broken s) ⟨inv_init workers, hclean⟩
      (fun s e u hs hquiet hstep =>
        ⟨hs.1.step hstep.1, hs.2.step hquiet hstep.1⟩)
      (fun s e u hs hbad hstep => ⟨hs.1.step hstep.1, hs.1.disturbed hbad hstep.1⟩)
      fun s e u hs hstep => by
        have hinv := hs.1.step hstep.1
        obtain ⟨mode, g, hg, r, hr, hlost⟩ := hs.1.broken_step hs.2 hstep.1
        refine ⟨hinv, mode, fun hidle => ?_, g, hg, r, hr, hlost⟩
        have hzero := (hinv.conserved_iff hidle hg hr).mp (hstep.2 hidle g hg r hr)
        omega
    obtain ⟨hquiet, -⟩ | hbroken := hor
    · exact hquiet.mono fun s e u h => ⟨h.1, h.2.1⟩
    · exact absurd idle hbroken.2.busy

/-- A worker hits rule 1, and a sync carries the hit over. -/
def sampleEvents : List Event :=
  [.load 0 1, .store 0, .sync [.group 1, .rule 1], .command, .command, .command, .command,
    .command, .command]

def sampleState : State := sampleEvents.foldl (State.after 1) .init

theorem hits_conserved_iff_synced :
    sampleState.todo = [] ∧ sampleState.aclRuleHit 0 0 = 1 ∧
      Run (Into (Settled 1) (Step 1)) .init sampleEvents sampleState := by
  refine ⟨by decide +kernel, by decide +kernel, (hits_conserved_iff 1 sampleEvents _).1 ?_⟩
  exact Run.of_checked (p := fun s e => Undisturbed s e ∧ Enabled 1 s e)
    (fun _ _ h => ⟨h.1, h.2, rfl⟩) (by decide +kernel)

/-- The worker hits rule 1 a second time when the sync has loaded the counter. -/
def lostEvents : List Event :=
  [.load 0 1, .store 0, .sync [.group 1, .rule 1], .command, .load 0 1, .store 0, .command,
    .command, .command, .command, .command]

/-- The second hit is in no total, and the baseline has passed it. -/
theorem hit_lost :
    ∃ t, Run (Step 1) .init lostEvents t ∧ t.todo = [] ∧ t.aclRuleHit 0 0 = 1 ∧
      t.global 0 - t.old 0 = 0 ∧ t.history.made 0 - t.history.cleared 0 = 2 ∧
      ¬Conserved 1 t 0 0 := by
  refine ⟨lostEvents.foldl (State.after 1) .init,
    Run.of_checked (fun _ _ h => ⟨h, rfl⟩) (by decide +kernel), ?_⟩
  rw [Conserved]
  decide +kernel

end Tapplet.Acl.Hits
