import Mathlib.Algebra.BigOperators.Group.Finset.Basic
import Tapplet.Lib.Run
import Tapplet.Acl.Basic

/-!
# Counting the hits of the rules

`sf_acl_entry` counts the hits of each rule in a 32-bit counter of its worker. The commands
`sf acl sync stat` and `sf acl clear stat` carry the counts over to the 64-bit totals in the
shared memory: `acl_rule_hit_stat_old` keeps, for each counter, its value when it was carried
over last. Workers go on counting while a command runs, so that each load or store of a
counter is a step of its own. A command is then a list of such steps, that of its loops.

`memcpy` and `memset` take one counter after the other.
-/

namespace Tapplet.Acl.Hits

/-- The place of a counter in `acl_rule_hit_stat_global` and `acl_rule_hit_stat_old`. -/
def hitIndex (workerIndex groupIndex ruleId : Nat) : Nat :=
  workerIndex * MAX_RULE_GROUP_CNT * MAX_RULE_PER_GROUP + groupIndex * MAX_RULE_PER_GROUP +
    ruleId - 1

/-! ## Commands -/

/-- A load or a store of the command that runs. Counters are named by their place. -/
inductive Op where
  /-- `get_acl_rule_hit_minus` loads the count -/
  | minusGlobal (i : Nat)
  /-- `get_acl_rule_hit_minus` loads the count that was carried over -/
  | minusOld (i : Nat)
  | loadHit (grpIndex ruleIdIndex : Nat)
  /-- the sum is stored in `acl_rule_hit` -/
  | addHit (grpIndex ruleIdIndex : Nat)
  /-- `update_acl_rule_hit_old` or `memcpy` loads the count -/
  | updateGlobal (i : Nat)
  | updateOld (i : Nat)
  | zeroHit (grpIndex ruleIdIndex : Nat)
deriving DecidableEq

/-- `acl_rule_hit += get_acl_rule_hit_minus(..)` and `update_acl_rule_hit_old(..)`. -/
def syncCounter (workerIndex grpIndex ruleIdIndex : Nat) : List Op :=
  let i := hitIndex workerIndex grpIndex (ruleIdIndex + 1)
  [.minusGlobal i, .minusOld i, .loadHit grpIndex ruleIdIndex, .addHit grpIndex ruleIdIndex,
    .updateGlobal i, .updateOld i]

/-- `update_acl_rule_hit_old`, or `memcpy` for one counter. -/
def copyCounter (i : Nat) : List Op := [.updateGlobal i, .updateOld i]

/-- `sf_acl_stat_sync_all`. -/
def sfAclStatSyncAll (workers : Nat) : List Op :=
  (List.range workers).flatMap fun workerIndex =>
    (List.range MAX_RULE_GROUP_CNT).flatMap fun grpIndex =>
      (List.range MAX_RULE_PER_GROUP).flatMap fun ruleIdIndex =>
        syncCounter workerIndex grpIndex ruleIdIndex

/-- The loop of `sf_acl_stat_sync_fn` for one rule. -/
def syncRule (workers grpIndex ruleIdIndex : Nat) : List Op :=
  (List.range workers).flatMap fun workerIndex => syncCounter workerIndex grpIndex ruleIdIndex

/-- `sf_acl_stat_clear_fn` for all rules. -/
def clearAll (workers : Nat) : List Op :=
  (List.range (workers * MAX_RULE_GROUP_CNT * MAX_RULE_PER_GROUP)).flatMap copyCounter ++
    (List.range MAX_RULE_GROUP_CNT).flatMap fun grpIndex =>
      (List.range MAX_RULE_PER_GROUP).map fun ruleIdIndex => .zeroHit grpIndex ruleIdIndex

/-- `sf_acl_stat_clear_fn` for one rule. -/
def clearRule (workers grpIndex ruleIdIndex : Nat) : List Op :=
  .zeroHit grpIndex ruleIdIndex ::
    (List.range workers).flatMap fun workerIndex =>
      copyCounter (hitIndex workerIndex grpIndex (ruleIdIndex + 1))

/-- What `unformat` finds next in the input. -/
inductive Word where
  | group (n : Int)
  | rule (n : Int)
  | all
  | other
deriving DecidableEq

/-- The arguments of a command. -/
structure Args where
  grpIndex : Int := -1
  ruleIdIndex : Int := -1
  allFlag : Bool := false

/-- The loop over the input. -/
def Args.read (a : Args) : List Word → Args
  | [] => a
  | .group n :: ws => read { a with grpIndex := n } ws
  | .rule n :: ws => read { a with ruleIdIndex := n } ws
  | .all :: ws => read { a with allFlag := true } ws
  | .other :: _ => a

/-- What both commands do with their arguments; `none` is an error, and nothing is done. -/
def runCommand (all : List Op) (rule : Nat → Nat → List Op) (input : List Word) :
    Option (List Op) :=
  let a := Args.read {} input
  if a.allFlag = false ∧ a.ruleIdIndex = -1 ∧ a.grpIndex = -1 then none
  else if a.allFlag then some all
  else if a.grpIndex ≤ 0 ∨ a.grpIndex > MAX_RULE_GROUP_CNT then none
  else if a.ruleIdIndex ≤ 0 ∨ a.ruleIdIndex > MAX_RULE_PER_GROUP then none
  else some (rule (a.grpIndex - 1).toNat (a.ruleIdIndex - 1).toNat)

def sfAclStatSyncFn (workers : Nat) : List Word → Option (List Op) :=
  runCommand (sfAclStatSyncAll workers) (syncRule workers)

def sfAclStatClearFn (workers : Nat) : List Word → Option (List Op) :=
  runCommand (clearAll workers) (clearRule workers)

/-! ## States -/

/-- The values that the running command has loaded. -/
structure Regs where
  hit : BitVec 64
  global : BitVec 32
  old : BitVec 32

/-- What has happened to the counters; none of it is in the source. -/
structure History where
  /-- the hits made, for each counter -/
  made : Nat → Nat
  /-- how many of them had been made when the value in `acl_rule_hit_stat_old` was read -/
  base : Nat → Nat
  /-- how many of them had been made when a clear read its value for the last time -/
  cleared : Nat → Nat
  /-- how many hits of a counter had been made when the command loaded it -/
  readAt : Nat
  /-- the counter that was loaded for a difference, and not yet for its baseline -/
  gap : Option Nat
  /-- what the total of a rule misses since it was cleared -/
  lost : Nat → Nat → Nat

structure State where
  aclRuleHit : Nat → Nat → BitVec 64
  global : Nat → BitVec 32
  old : Nat → BitVec 32
  /-- the rule whose counter the worker has loaded, and the value -/
  counting : Nat → Option (Nat × BitVec 32)
  /-- the command that runs, or ran last, is a clear -/
  clearing : Bool
  /-- what is left of the running command -/
  todo : List Op
  regs : Regs
  history : History

/-- The arrays are cleared when they are allocated. -/
def State.init : State where
  aclRuleHit := fun _ _ => 0
  global := fun _ => 0
  old := fun _ => 0
  counting := fun _ => none
  clearing := false
  todo := []
  regs := ⟨0, 0, 0⟩
  history := ⟨fun _ => 0, fun _ => 0, fun _ => 0, 0, none, fun _ _ => 0⟩

/-- A table of rules with one entry changed. -/
def setRule {α : Type*} (f : Nat → Nat → α) (g r : Nat) (x : α) : Nat → Nat → α :=
  Function.update f g (Function.update (f g) r x)

namespace State

/-- One load or store of a command. -/
def exec (s : State) : Op → State
  | .minusGlobal i =>
      { s with
        regs := { s.regs with global := s.global i }
        history := { s.history with readAt := s.history.made i, gap := some i } }
  | .minusOld i => { s with regs := { s.regs with old := s.old i } }
  | .loadHit g r => { s with regs := { s.regs with hit := s.aclRuleHit g r } }
  | .addHit g r =>
      let minus := (s.regs.global - s.regs.old).setWidth 64
      { s with
        aclRuleHit := setRule s.aclRuleHit g r (s.regs.hit + minus)
        history := { s.history with
          lost := setRule s.history.lost g r (s.history.lost g r +
            (s.regs.hit.toNat + minus.toNat) / 2 ^ 64 * 2 ^ 64) } }
  | .updateGlobal i =>
      { s with
        regs := { s.regs with global := s.global i }
        history := { s.history with readAt := s.history.made i, gap := none } }
  | .updateOld i =>
      { s with
        old := Function.update s.old i s.regs.global
        history := { s.history with
          base := Function.update s.history.base i s.history.readAt
          cleared :=
            if s.clearing then Function.update s.history.cleared i s.history.readAt
            else s.history.cleared } }
  | .zeroHit g r =>
      { s with
        aclRuleHit := setRule s.aclRuleHit g r 0
        history := { s.history with lost := setRule s.history.lost g r 0 } }

/-- The next load or store of the command. -/
def command (s : State) : State :=
  match s.todo with
  | [] => s
  | op :: todo => { s.exec op with todo }

/-- A command is entered; one with wrong arguments returns at once. -/
def enter (s : State) (clearing : Bool) (ops : Option (List Op)) : State :=
  match ops with
  | none => s
  | some todo => { s with clearing, todo }

/-- The worker loads the counter of a rule, in `update_acl_rule_hit_inline`. -/
def load (s : State) (w ruleId : Nat) : State :=
  { s with
    counting := Function.update s.counting w (some (ruleId, s.global (hitIndex w 0 ruleId))) }

/-- The worker stores the counter that it has loaded. -/
def store (s : State) (w : Nat) : State :=
  match s.counting w with
  | none => s
  | some (ruleId, v) =>
      let i := hitIndex w 0 ruleId
      { s with
        global := Function.update s.global i (v + 1)
        counting := Function.update s.counting w none
        history := { s.history with
          made := Function.update s.history.made i (s.history.made i + 1)
          lost :=
            if s.history.gap = some i then
              setRule s.history.lost 0 (ruleId - 1) (s.history.lost 0 (ruleId - 1) + 1)
            else s.history.lost } }

end State

inductive Event where
  | load (w ruleId : Nat)
  | store (w : Nat)
  | sync (input : List Word)
  | clear (input : List Word)
  | command
deriving DecidableEq

/-- The state after an event. -/
def State.after (workers : Nat) (s : State) : Event → State
  | .load w ruleId => s.load w ruleId
  | .store w => s.store w
  | .sync input => s.enter false (sfAclStatSyncFn workers input)
  | .clear input => s.enter true (sfAclStatClearFn workers input)
  | .command => s.command

/-- Workers count one hit after the other, fewer than 2^32 of them for a rule until its
counter is carried over. Commands are entered one after the other. -/
def Enabled (workers : Nat) (s : State) : Event → Prop
  | .load w ruleId =>
      w < workers ∧ 1 ≤ ruleId ∧ ruleId ≤ MAX_RULE_PER_GROUP ∧ s.counting w = none
  | .store w =>
      ∃ p ∈ s.counting w,
        s.history.made (hitIndex w 0 p.1) + 1 - s.history.base (hitIndex w 0 p.1) < 2 ^ 32
  | .sync _ | .clear _ => s.todo = []
  | .command => s.todo ≠ []

instance (workers : Nat) (s : State) (e : Event) : Decidable (Enabled workers s e) := by
  cases e <;> unfold Enabled <;> infer_instance

def Step (workers : Nat) (s : State) (e : Event) (t : State) : Prop :=
  Enabled workers s e ∧ t = s.after workers e

end Tapplet.Acl.Hits
