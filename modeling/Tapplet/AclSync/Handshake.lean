import Tapplet.Lib.Run
import Mathlib.Data.List.Nodup
import Mathlib.Data.List.ReduceOption
import Mathlib.Logic.Function.Basic
import Mathlib.Algebra.GroupWithZero.Nat

/-!
# The synchronisation handshake

A PATCH request asks the data plane to load the rules. The REST handler and the thread it
starts announce the request through `acl_sync_flag` in the shared memory, and the process
node `sf_acl_sync_process` of the data plane answers through the same flag. Each flag
function, and each read or write of the flag by the process, is one step.

A request is a number. `need` is the request whose flag has been set and that no run of
`sync_all_rules` has been started for; `runs` logs what each run was started for.
-/

namespace Tapplet.AclSync.Handshake

open Transition

def aclStillSync : Int := 3
def aclNeedSync : Int := 2
def aclPrepareSync : Int := 1
def aclSyncOk : Int := 0
def aclSyncFailed : Int := -2

/-- `acl_set_sync_flag_need`: the value returned and the flag. -/
def aclSetSyncFlagNeed (aclSyncFlag : Int) : Int × Int :=
  if aclSyncFlag ≠ aclStillSync then (0, aclNeedSync) else (-1, aclSyncFlag)

/-- `acl_set_sync_flag_prepare` -/
def aclSetSyncFlagPrepare (aclSyncFlag : Int) : Int × Int :=
  if aclSyncFlag ≤ 0 then (0, aclPrepareSync) else (-1, aclSyncFlag)

/-- `acl_set_sync_flag_fail` -/
def aclSetSyncFlagFail (_aclSyncFlag : Int) : Int × Int := (0, aclSyncFailed)

/-- Where a request stands in `AclSyncHandler.patch` and `acl_rule_sync`. -/
inductive Request where
  /-- not received yet -/
  | idle
  /-- the flag that was read allows to go on -/
  | checked
  /-- answered without a synchronisation -/
  | rejected
  /-- `acl_set_sync_flag_prepare` returned 0 -/
  | prepared
  /-- the thread could not be started -/
  | stuck
  /-- the thread runs `tuple_rule_sync` -/
  | syncing
  /-- `tuple_rule_sync` returned true -/
  | synced
  /-- an exception leads to `acl_set_sync_flag_fail` -/
  | failing
  /-- `acl_set_sync_flag_need` returned 0 -/
  | needed
  /-- the flag was set to failed -/
  | failed
deriving DecidableEq

/-- The request was accepted, and the call of `acl_set_sync_flag_need` or
`acl_set_sync_flag_fail` that ends it is still to come. -/
def Request.inFlight : Request → Bool
  | .prepared | .stuck | .syncing | .synced | .failing => true
  | _ => false

/-- Where the loop of `acl_sync_process_fn` stands. -/
inductive Loop where
  /-- before the flag is compared with `ACL_STILL_SYNC` -/
  | top
  /-- before `ACL_SYNC_FAILED` is written for a run that never ended -/
  | abandon
  /-- before the flag is compared with `ACL_NEED_SYNC` -/
  | test
  /-- before `ACL_STILL_SYNC` is written -/
  | accept
  /-- before `sync_all_rules` -/
  | sync
  /-- before the result is written -/
  | finish (ret : Int)
deriving DecidableEq

structure State where
  aclSyncFlag : Int
  aclSyncTimes : Nat
  loop : Loop
  request : Nat → Request
  need : Option Nat
  runs : List (Option Nat)

/-- The data plane starts with a flag that no handler has set. -/
def State.init (aclSyncFlag : Int) : State where
  aclSyncFlag
  aclSyncTimes := 0
  loop := .top
  request := fun _ => .idle
  need := none
  runs := []

inductive Event where
  /-- the handler reads the flag -/
  | getFlag (r : Nat)
  /-- the handler calls `acl_set_sync_flag_prepare` -/
  | prepare (r : Nat)
  /-- the handler starts the thread, which may raise an exception -/
  | startThread (r : Nat) (started : Bool)
  /-- `tuple_rule_sync` ends: it returns true, or it returns false or raises an exception -/
  | tupleRuleSync (r : Nat) (result : Bool)
  /-- the thread calls `acl_set_sync_flag_need` -/
  | setNeed (r : Nat)
  /-- the thread calls `acl_set_sync_flag_fail` -/
  | setFail (r : Nat)
  /-- the next step of the loop; `ret` is what `sync_all_rules` returns -/
  | loop (ret : Int)
deriving DecidableEq

def State.setRequest (s : State) (r : Nat) (pos : Request) : State :=
  { s with request := Function.update s.request r pos }

/-- One step of `acl_sync_process_fn`. -/
def loopStep (s : State) (ret : Int) : State :=
  match s.loop with
  | .top =>
      if s.aclSyncFlag = aclStillSync then { s with loop := .abandon } else { s with loop := .test }
  | .abandon => { s with aclSyncFlag := aclSyncFailed, loop := .test }
  | .test =>
      if s.aclSyncFlag ≠ aclNeedSync then { s with loop := .top } else { s with loop := .accept }
  | .accept => { s with aclSyncFlag := aclStillSync, loop := .sync }
  | .sync => { s with loop := .finish ret, need := none, runs := s.need :: s.runs }
  | .finish ret =>
      if ret ≠ 0 then { s with aclSyncFlag := aclSyncFailed, loop := .top }
      else { s with
        aclSyncFlag := aclSyncOk
        aclSyncTimes := (s.aclSyncTimes + 1) % 2 ^ 31
        loop := .top }

/-- One step of one handler, one thread or the loop. -/
def next (s : State) : Event → Option State
  | .getFlag r =>
      if s.request r = .idle then
        some (s.setRequest r
          (if s.aclSyncFlag = -1 ∨ s.aclSyncFlag > 0 then .rejected else .checked))
      else none
  | .prepare r =>
      if s.request r = .checked then
        match aclSetSyncFlagPrepare s.aclSyncFlag with
        | (ret, flag) => some ({ s with aclSyncFlag := flag }.setRequest r
            (if ret ≠ 0 then .rejected else .prepared))
      else none
  | .startThread r started =>
      if s.request r = .prepared then
        some (s.setRequest r (if started then .syncing else .stuck))
      else none
  | .tupleRuleSync r result =>
      if s.request r = .syncing then
        some (s.setRequest r (if result then .synced else .failing))
      else none
  | .setNeed r =>
      if s.request r = .synced then
        match aclSetSyncFlagNeed s.aclSyncFlag with
        | (ret, flag) =>
            if ret ≠ 0 then some ({ s with aclSyncFlag := flag }.setRequest r .failing)
            else some ({ s with aclSyncFlag := flag, need := some r }.setRequest r .needed)
      else none
  | .setFail r =>
      if s.request r = .failing then
        some ({ s with aclSyncFlag := (aclSetSyncFlagFail s.aclSyncFlag).2 }.setRequest r .failed)
      else none
  | .loop ret => some (loopStep s ret)

def Step (s : State) (e : Event) (t : State) : Prop := next s e = some t

/-- The requests that a run of `sync_all_rules` has been started for. -/
def State.consumed (s : State) : List Nat := s.runs.reduceOption

theorem count_runs (s : State) (r : Nat) : s.runs.count (some r) = s.consumed.count r := by
  rw [State.consumed, List.reduceOption, List.count_filterMap]
  exact List.countP_congr fun x _ => by simp

structure Inv (s : State) : Prop where
  preparing : ∀ r, (s.request r).inFlight → s.aclSyncFlag = aclPrepareSync
  unique : ∀ r r', (s.request r).inFlight → (s.request r').inFlight → r = r'
  pending : s.need.isSome ↔ s.aclSyncFlag = aclNeedSync ∨ s.loop = .sync
  still : s.loop = .abandon ∨ s.loop = .sync ∨ (∃ ret, s.loop = .finish ret) →
    s.aclSyncFlag = aclStillSync
  accepting : s.loop = .accept → s.aclSyncFlag = aclNeedSync
  full : ∀ x ∈ s.runs, x.isSome
  once : (s.need.toList ++ s.consumed).Nodup
  ledger : ∀ r, s.request r = .needed ↔ r ∈ s.need.toList ++ s.consumed

theorem inv_init {aclSyncFlag : Int} (h : aclSyncFlag ≠ aclNeedSync) :
    Inv (State.init aclSyncFlag) := by
  refine ⟨?_, ?_, ?_, ?_, ?_, ?_, ?_, ?_⟩ <;>
    simp [State.init, State.consumed, List.reduceOption, Request.inFlight, h]

namespace Inv

variable {s t : State}

/-- While a request is in flight the loop is not between the acceptance of a request and its
answer, and no request waits for a run. -/
theorem no_need (h : Inv s) {r : Nat} (hr : (s.request r).inFlight) :
    s.need = none ∧ s.loop ≠ .abandon ∧ s.loop ≠ .sync ∧ (∀ ret, s.loop ≠ .finish ret) ∧
      s.loop ≠ .accept := by
  have hflag := h.preparing r hr
  have hstill : s.aclSyncFlag ≠ aclStillSync := by
    rw [hflag]
    decide
  have hneed : s.aclSyncFlag ≠ aclNeedSync := by
    rw [hflag]
    decide
  have hsync : s.loop ≠ .sync := fun hl => hstill (h.still (.inr (.inl hl)))
  refine ⟨?_, fun hl => hstill (h.still (.inl hl)), hsync,
    fun ret hl => hstill (h.still (.inr (.inr ⟨ret, hl⟩))), fun hl => hneed (h.accepting hl)⟩
  rw [← Option.not_isSome_iff_eq_none, h.pending]
  exact not_or.mpr ⟨hneed, hsync⟩

/-- A request changes its position and leaves the flag alone. -/
theorem move (h : Inv s) {r : Nat} {pos : Request} (hneeded : s.request r ≠ .needed)
    (hpos : pos ≠ .needed) (hflight : pos.inFlight → (s.request r).inFlight) :
    Inv (s.setRequest r pos) := by
  have hold (r' : Nat) (hr' : ((s.setRequest r pos).request r').inFlight) :
      (s.request r').inFlight := by
    by_cases hrr : r' = r
    · subst hrr
      exact hflight (by simpa [State.setRequest] using hr')
    · simpa [State.setRequest, Function.update_of_ne hrr] using hr'
  refine ⟨fun r' hr' => h.preparing r' (hold r' hr'),
    fun r₁ r₂ h₁ h₂ => h.unique r₁ r₂ (hold r₁ h₁) (hold r₂ h₂),
    h.pending, h.still, h.accepting, h.full, h.once, fun r' => ?_⟩
  rw [show (s.setRequest r pos).need.toList ++ (s.setRequest r pos).consumed =
    s.need.toList ++ s.consumed from rfl, ← h.ledger r']
  by_cases hrr : r' = r
  · subst hrr
    simp [State.setRequest, hpos, hneeded]
  · simp [State.setRequest, Function.update_of_ne hrr]

/-- A request is accepted: nobody else is in flight. -/
theorem prepare (h : Inv s) {r : Nat} (hr : s.request r = .checked) (hflag : s.aclSyncFlag ≤ 0) :
    Inv ({ s with aclSyncFlag := aclPrepareSync }.setRequest r .prepared) := by
  have hnone (r' : Nat) : ¬(s.request r').inFlight := by
    intro hr'
    rw [h.preparing r' hr'] at hflag
    exact absurd hflag (by decide)
  have hstill : s.aclSyncFlag ≠ aclStillSync := by
    intro heq
    rw [heq] at hflag
    exact absurd hflag (by decide)
  have hneed : s.aclSyncFlag ≠ aclNeedSync := by
    intro heq
    rw [heq] at hflag
    exact absurd hflag (by decide)
  have honly (r' : Nat)
      (hr' : (({ s with aclSyncFlag := aclPrepareSync }.setRequest r .prepared).request
        r').inFlight) : r' = r := by
    by_contra hrr
    refine hnone r' ?_
    simpa [State.setRequest, Function.update_of_ne hrr] using hr'
  refine ⟨fun _ _ => rfl, fun r₁ r₂ h₁ h₂ => (honly r₁ h₁).trans (honly r₂ h₂).symm, ?_, ?_, ?_,
    h.full, h.once, fun r' => ?_⟩
  · simp only [State.setRequest, h.pending, hneed, false_or]
    exact ⟨.inr, fun hor => hor.resolve_left (by decide)⟩
  · exact fun hl => absurd (h.still hl) hstill
  · exact fun hl => absurd (h.accepting hl) hneed
  · refine Iff.trans ?_ (h.ledger r')
    by_cases hrr : r' = r
    · subst hrr
      simp [State.setRequest, hr]
    · simp [State.setRequest, Function.update_of_ne hrr]

/-- When the request in flight has left, nobody is in flight. -/
theorem none_inFlight (h : Inv s) (t : State) (hsame : t.request = s.request) {r : Nat}
    (hflight : (s.request r).inFlight) {pos : Request} (hpos : ¬pos.inFlight) (r' : Nat) :
    ¬((t.setRequest r pos).request r').inFlight := by
  intro hr'
  by_cases hrr : r' = r
  · subst hrr
    exact hpos (by simpa [State.setRequest] using hr')
  · refine hrr (h.unique r' r ?_ hflight)
    simpa [State.setRequest, Function.update_of_ne hrr, hsame] using hr'

/-- The request in flight sets its flag: it waits for a run. -/
theorem setNeed (h : Inv s) {r : Nat} (hr : s.request r = .synced) :
    Inv ({ s with aclSyncFlag := aclNeedSync, need := some r }.setRequest r .needed) := by
  have hflight : (s.request r).inFlight := by rw [hr]; rfl
  obtain ⟨hneed, habandon, hsync, hfinish, haccept⟩ := h.no_need hflight
  have hneeded : ¬Request.needed.inFlight := by simp [Request.inFlight]
  have hnone := h.none_inFlight { s with aclSyncFlag := aclNeedSync, need := some r } rfl hflight
    hneeded
  have hr' : r ∉ s.consumed := fun hmem => by
    have hledger := (h.ledger r).mpr (by simp [hmem])
    rw [hr] at hledger
    cases hledger
  refine ⟨fun r' hr' => absurd hr' (hnone r'), fun r' _ hr' => absurd hr' (hnone r'), ?_, ?_, ?_,
    h.full, ?_, fun r' => ?_⟩
  · simp [State.setRequest]
  · rintro (hl | hl | ⟨ret, hl⟩)
    · exact absurd hl habandon
    · exact absurd hl hsync
    · exact absurd hl (hfinish ret)
  · exact fun _ => rfl
  · have honce := h.once
    rw [hneed] at honce
    exact List.nodup_cons.mpr ⟨hr', honce⟩
  · have hledger := h.ledger r'
    rw [hneed] at hledger
    by_cases hrr : r' = r
    · subst hrr
      simp [State.setRequest]
    · simpa [State.setRequest, State.consumed, Function.update_of_ne hrr, hrr] using hledger

/-- The request in flight gives up. -/
theorem setFail (h : Inv s) {r : Nat} (hr : s.request r = .failing) :
    Inv ({ s with aclSyncFlag := aclSyncFailed }.setRequest r .failed) := by
  have hflight : (s.request r).inFlight := by rw [hr]; rfl
  obtain ⟨hneed, habandon, hsync, hfinish, haccept⟩ := h.no_need hflight
  have hfailed : ¬Request.failed.inFlight := by simp [Request.inFlight]
  have hnone := h.none_inFlight { s with aclSyncFlag := aclSyncFailed } rfl hflight hfailed
  refine ⟨fun r' hr' => absurd hr' (hnone r'), fun r' _ hr' => absurd hr' (hnone r'), ?_, ?_, ?_,
    h.full, h.once, fun r' => ?_⟩
  · simp only [State.setRequest, hneed, hsync, or_false]
    decide
  · rintro (hl | hl | ⟨ret, hl⟩)
    · exact absurd hl habandon
    · exact absurd hl hsync
    · exact absurd hl (hfinish ret)
  · exact fun hl => absurd hl haccept
  · refine Iff.trans ?_ (h.ledger r')
    by_cases hrr : r' = r
    · subst hrr
      simp [State.setRequest, hr]
    · simp [State.setRequest, Function.update_of_ne hrr]

/-- A step of the loop. Only the loop writes while it is between `ACL_STILL_SYNC` and the
result, so nobody is in flight then. -/
theorem loop (h : Inv s) (ret : Int) : Inv (loopStep s ret) := by
  simp only [loopStep]
  split
  · next hl =>
      split
      · next hflag =>
          refine ⟨h.preparing, h.unique, ?_, fun _ => hflag, by simp, h.full, h.once, h.ledger⟩
          simpa [hl] using h.pending
      · refine ⟨h.preparing, h.unique, ?_, by simp, by simp, h.full, h.once, h.ledger⟩
        simpa [hl] using h.pending
  · next hl =>
      have hflag := h.still (.inl hl)
      have hnone (r : Nat) : ¬(s.request r).inFlight := fun hr => (h.no_need hr).2.1 hl
      refine ⟨fun r hr => (hnone r hr).elim, h.unique, ?_, by simp, by simp, h.full, h.once,
        h.ledger⟩
      have hpending := h.pending
      rw [hl, hflag] at hpending
      simpa [aclStillSync, aclNeedSync, aclSyncFailed] using hpending
  · next hl =>
      split
      · refine ⟨h.preparing, h.unique, ?_, by simp, by simp, h.full, h.once, h.ledger⟩
        simpa [hl] using h.pending
      · next hflag =>
          rw [not_not] at hflag
          refine ⟨h.preparing, h.unique, ?_, by simp, fun _ => hflag, h.full, h.once, h.ledger⟩
          simpa [hl] using h.pending
  · next hl =>
      have hflag := h.accepting hl
      have hnone (r : Nat) : ¬(s.request r).inFlight := fun hr => (h.no_need hr).2.2.2.2 hl
      refine ⟨fun r hr => (hnone r hr).elim, h.unique, ?_, fun _ => rfl, by simp, h.full, h.once,
        h.ledger⟩
      have hpending := h.pending
      rw [hl, hflag] at hpending
      simpa using hpending
  · next hl =>
      have hflag := h.still (.inr (.inl hl))
      have hsome : s.need.isSome := h.pending.mpr (.inr hl)
      obtain ⟨r, hr⟩ := Option.isSome_iff_exists.mp hsome
      have hconsumed : ({ s with loop := .finish ret, need := none, runs := s.need :: s.runs } :
          State).consumed = r :: s.consumed := by
        simp [State.consumed, hr, List.reduceOption]
      refine ⟨h.preparing, h.unique, ?_, fun _ => hflag, by simp, ?_, ?_, fun r' => ?_⟩
      · rw [hflag]
        simp [aclStillSync, aclNeedSync]
      · exact List.forall_mem_cons.mpr ⟨hsome, h.full⟩
      · have honce := h.once
        rw [hr] at honce
        rw [hconsumed]
        exact honce
      · have hledger := h.ledger r'
        rw [hr] at hledger
        rw [hconsumed]
        exact hledger
  · next ret' hl =>
      have hflag := h.still (.inr (.inr ⟨ret', hl⟩))
      have hnone (r : Nat) : ¬(s.request r).inFlight := fun hr => (h.no_need hr).2.2.2.1 ret' hl
      have hneed : s.need.isSome = false := by
        rw [← Bool.not_eq_true, h.pending, hl, hflag]
        simp [aclStillSync, aclNeedSync]
      split
      · refine ⟨fun r hr => (hnone r hr).elim, h.unique, ?_, by simp, by simp, h.full, h.once,
          h.ledger⟩
        simp [hneed, aclNeedSync, aclSyncFailed]
      · refine ⟨fun r hr => (hnone r hr).elim, h.unique, ?_, by simp, by simp, h.full, h.once,
          h.ledger⟩
        simp [hneed, aclNeedSync, aclSyncOk]

end Inv

/-- Every step of every handler, thread and the loop keeps the invariant. -/
theorem step_inv {s t : State} {e : Event} (h : Inv s) (hs : Step s e t) : Inv t := by
  cases e with
  | getFlag r =>
      simp only [Step, next] at hs
      split at hs
      · next hr =>
          refine Option.some.inj hs ▸ h.move (by simp [hr]) ?_ ?_ <;> split <;>
            simp [Request.inFlight]
      · cases hs
  | prepare r =>
      simp only [Step, next] at hs
      split at hs
      · next hr =>
          by_cases hflag : s.aclSyncFlag ≤ 0
          · simp only [aclSetSyncFlagPrepare, if_pos hflag, ne_eq, not_true, if_false] at hs
            exact Option.some.inj hs ▸ h.prepare hr hflag
          · simp only [aclSetSyncFlagPrepare, if_neg hflag] at hs
            exact Option.some.inj hs ▸ h.move (by simp [hr]) (by simp) (by simp [Request.inFlight])
      · cases hs
  | startThread r started =>
      simp only [Step, next] at hs
      split at hs
      · next hr =>
          refine Option.some.inj hs ▸ h.move (by simp [hr]) ?_ ?_
          · cases started <;> simp
          · simp [hr, Request.inFlight]
      · cases hs
  | tupleRuleSync r result =>
      simp only [Step, next] at hs
      split at hs
      · next hr =>
          refine Option.some.inj hs ▸ h.move (by simp [hr]) ?_ ?_
          · cases result <;> simp
          · simp [hr, Request.inFlight]
      · cases hs
  | setNeed r =>
      simp only [Step, next] at hs
      split at hs
      · next hr =>
          have hflag : s.aclSyncFlag ≠ aclStillSync := by
            rw [h.preparing r (by rw [hr]; rfl)]
            decide
          simp only [aclSetSyncFlagNeed, if_pos hflag, ne_eq, not_true, if_false] at hs
          exact Option.some.inj hs ▸ h.setNeed hr
      · cases hs
  | setFail r =>
      simp only [Step, next] at hs
      split at hs
      · next hr => exact Option.some.inj hs ▸ h.setFail hr
      · cases hs
  | loop ret => exact Option.some.inj hs ▸ h.loop ret

/-- The invariant holds of every state that any interleaving reaches. -/
theorem run_inv {aclSyncFlag : Int} {es : List Event} {s : State}
    (hflag : aclSyncFlag ≠ aclNeedSync) (hrun : Run Step (State.init aclSyncFlag) es s) : Inv s :=
  hrun.invariant (inv_init hflag) fun _ _ _ => step_inv

section Progress

variable {s t : State} {r : Nat}

def Event.isLoop : Event → Bool
  | .loop _ => true
  | _ => false

/-- The number of steps of the loop until the run for a waiting request has started. -/
def Loop.remaining : Loop → Nat
  | .top => 4
  | .test => 3
  | .accept => 2
  | .sync => 1
  | .abandon | .finish _ => 4

/-- No step of a handler or a thread touches the loop and its runs, and only
`acl_set_sync_flag_need` touches the waiting request. -/
theorem step_frame {e : Event} (hs : Step s e t) (he : e.isLoop = false) :
    t.loop = s.loop ∧ t.runs = s.runs ∧ (t.need = s.need ∨ ∃ r, s.request r = .synced) := by
  cases e with
  | getFlag r =>
      simp only [Step, next] at hs
      split at hs
      · exact Option.some.inj hs ▸ ⟨rfl, rfl, .inl rfl⟩
      · cases hs
  | prepare r =>
      simp only [Step, next] at hs
      split at hs
      · exact Option.some.inj hs ▸ ⟨rfl, rfl, .inl rfl⟩
      · cases hs
  | startThread r started =>
      simp only [Step, next] at hs
      split at hs
      · exact Option.some.inj hs ▸ ⟨rfl, rfl, .inl rfl⟩
      · cases hs
  | tupleRuleSync r result =>
      simp only [Step, next] at hs
      split at hs
      · exact Option.some.inj hs ▸ ⟨rfl, rfl, .inl rfl⟩
      · cases hs
  | setNeed r =>
      simp only [Step, next] at hs
      split at hs
      · next hr => split at hs <;> exact Option.some.inj hs ▸ ⟨rfl, rfl, .inr ⟨r, hr⟩⟩
      · cases hs
  | setFail r =>
      simp only [Step, next] at hs
      split at hs
      · exact Option.some.inj hs ▸ ⟨rfl, rfl, .inl rfl⟩
      · cases hs
  | loop ret => simp [Event.isLoop] at he

/-- A request that waits goes on waiting while the loop does not step. -/
theorem wait_step {e : Event} (h : Inv s) (hneed : s.need = some r) (hs : Step s e t)
    (he : e.isLoop = false) : t.need = some r ∧ t.loop = s.loop := by
  obtain ⟨hloop, -, hsame | ⟨r', hr'⟩⟩ := step_frame hs he
  · exact ⟨hsame.trans hneed, hloop⟩
  · have hnone := (h.no_need (r := r') (by rw [hr']; rfl)).1
    rw [hneed] at hnone
    cases hnone

/-- While a request waits, every step of the loop brings its run nearer. -/
theorem wait_loop (h : Inv s) (hneed : s.need = some r) (ret : Int) :
    (loopStep s ret).need = some r ∧ (loopStep s ret).loop.remaining + 1 = s.loop.remaining ∨
      r ∈ (loopStep s ret).consumed := by
  have hpending := h.pending
  rw [hneed] at hpending
  simp only [loopStep]
  split
  · next hl =>
      have hflag : s.aclSyncFlag = aclNeedSync := by simpa [hl] using hpending
      rw [if_neg (by rw [hflag]; decide), hl]
      exact .inl ⟨hneed, rfl⟩
  · next hl =>
      have hflag : s.aclSyncFlag = aclNeedSync := by simpa [hl] using hpending
      rw [h.still (.inl hl)] at hflag
      cases hflag
  · next hl =>
      have hflag : s.aclSyncFlag = aclNeedSync := by simpa [hl] using hpending
      rw [if_neg (not_not.mpr hflag), hl]
      exact .inl ⟨hneed, rfl⟩
  · next hl =>
      rw [hl]
      exact .inl ⟨hneed, rfl⟩
  · right
    simp [State.consumed, hneed, List.reduceOption]
  · next ret' hl =>
      have hflag : s.aclSyncFlag = aclNeedSync := by simpa [hl] using hpending
      rw [h.still (.inr (.inr ⟨ret', hl⟩))] at hflag
      cases hflag

theorem loopStep_consumed (ret : Int) (hr : r ∈ s.consumed) : r ∈ (loopStep s ret).consumed := by
  simp only [loopStep]
  split
  · split <;> exact hr
  · exact hr
  · split <;> exact hr
  · exact hr
  · cases hneed : s.need with
    | none => simpa [State.consumed, List.reduceOption, hneed] using hr
    | some r' => exact List.mem_cons_of_mem r' hr
  · split <;> exact hr

theorem step_consumed {e : Event} (hs : Step s e t) (hr : r ∈ s.consumed) : r ∈ t.consumed := by
  by_cases he : e.isLoop
  · cases e with
    | loop ret => exact Option.some.inj hs ▸ loopStep_consumed ret hr
    | _ => simp [Event.isLoop] at he
  · have hruns := (step_frame hs (Bool.not_eq_true _ ▸ he)).2.1
    rw [State.consumed, hruns]
    exact hr

/-- A waiting request has had its run started after as many steps of the loop as remain,
whatever the handlers and threads do meanwhile. -/
theorem consumed_after {es : List Event} (hrun : Run Step s es t) (h : Inv s)
    (hneed : s.need = some r) (hcount : s.loop.remaining ≤ es.countP Event.isLoop) :
    r ∈ t.consumed := by
  induction hrun with
  | refl s =>
      have hpos : 0 < s.loop.remaining := by cases s.loop <;> simp [Loop.remaining]
      rw [List.countP_nil] at hcount
      omega
  | cons hs hrun ih =>
      next s e u es t =>
      by_cases he : e.isLoop
      · cases e with
        | loop ret =>
            rw [List.countP_cons_of_pos he] at hcount
            have hu : u = loopStep s ret := (Option.some.inj hs).symm
            rcases wait_loop h hneed ret with ⟨hneed', hremaining⟩ | hr
            · refine ih (step_inv h hs) (hu ▸ hneed') ?_
              rw [hu]
              omega
            · exact hrun.invariant (hu ▸ hr) fun _ _ _ hr hs => step_consumed hs hr
        | _ => simp [Event.isLoop] at he
      · rw [List.countP_cons_of_neg he] at hcount
        obtain ⟨hneed', hloop⟩ := wait_step h hneed hs (Bool.not_eq_true _ ▸ he)
        exact ih (step_inv h hs) hneed' (hloop ▸ hcount)

end Progress

/-- In every interleaving of the handlers, their threads and the loop, one accepted request
at most is in flight and its `acl_set_sync_flag_need` succeeds; the loop overwrites neither
a prepared nor a needed flag with its result; and the requests whose need was set are the
one that waits and those whose run was started, each of them once. A request that waits
gets its run within four steps of the loop. -/
theorem sync_requests_conserved {aclSyncFlag : Int} {es : List Event} {s : State}
    (hflag : aclSyncFlag ≠ aclNeedSync) (hrun : Run Step (State.init aclSyncFlag) es s) :
    (∀ r r', (s.request r).inFlight → (s.request r').inFlight → r = r') ∧
      (∀ r, s.request r = .synced → (aclSetSyncFlagNeed s.aclSyncFlag).1 = 0) ∧
      ((s.loop = .abandon ∨ ∃ ret, s.loop = .finish ret) →
        s.aclSyncFlag ≠ aclPrepareSync ∧ s.aclSyncFlag ≠ aclNeedSync) ∧
      (∀ r, s.need.toList.count r + s.runs.count (some r) =
        if s.request r = .needed then 1 else 0) ∧
      (∀ run ∈ s.runs, run.isSome) ∧
      (∀ r, s.need = some r → ∀ es' t, Run Step s es' t → 4 ≤ es'.countP Event.isLoop →
        some r ∈ t.runs) := by
  have h := run_inv hflag hrun
  have hstill : s.loop = .abandon ∨ (∃ ret, s.loop = .finish ret) →
      s.aclSyncFlag = aclStillSync := by
    rintro (hl | hl)
    · exact h.still (.inl hl)
    · exact h.still (.inr (.inr hl))
  refine ⟨h.unique, fun r hr => ?_, fun hl => ?_, fun r => ?_, h.full,
    fun r hneed es' t hrun' hcount => ?_⟩
  · rw [h.preparing r (by rw [hr]; rfl)]
    rfl
  · rw [hstill hl]
    decide
  · rw [count_runs, ← List.count_append]
    split
    · next hr => exact List.count_eq_one_of_mem h.once ((h.ledger r).mp hr)
    · next hr => exact List.count_eq_zero_of_not_mem fun hmem => hr ((h.ledger r).mpr hmem)
  · have hle : s.loop.remaining ≤ 4 := by cases s.loop <;> simp [Loop.remaining]
    exact List.reduceOption_mem_iff.mp (consumed_after hrun' h hneed (Nat.le_trans hle hcount))

/-- Two handlers read the flag before either is accepted; the second is rejected, and the
first gets the only run. -/
theorem sync_requests_conserved_two : ∃ s, Run Step (State.init aclSyncOk)
      [.getFlag 0, .getFlag 1, .prepare 0, .prepare 1, .startThread 0 true, .loop 0,
        .tupleRuleSync 0 true, .setNeed 0, .loop 0, .loop 0, .loop 0, .loop 0, .loop 0, .loop 0] s ∧
    ∀ r, s.need.toList.count r + s.runs.count (some r) =
      if s.request r = .needed then 1 else 0 := by
  have hrun : Run Step (State.init aclSyncOk)
      [.getFlag 0, .getFlag 1, .prepare 0, .prepare 1, .startThread 0 true, .loop 0,
        .tupleRuleSync 0 true, .setNeed 0, .loop 0, .loop 0, .loop 0, .loop 0, .loop 0,
          .loop 0] _ :=
    .cons rfl (.cons rfl (.cons rfl (.cons rfl (.cons rfl (.cons rfl (.cons rfl (.cons rfl
      (.cons rfl (.cons rfl (.cons rfl (.cons rfl (.cons rfl (.cons rfl (.refl _))))))))))))))
  exact ⟨_, hrun, (sync_requests_conserved (by decide) hrun).2.2.2.1⟩

end Tapplet.AclSync.Handshake
