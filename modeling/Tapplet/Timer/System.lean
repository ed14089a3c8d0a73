import Tapplet.Lib.Run
import Tapplet.Timer.Input

/-!
# Timers of one worker

The wheel of a worker under any sequence of submits, stops, clock changes, advances and
polls of the input node. `timers`, `records` and `advanced` are not in the source: they
are the timers that were submitted, the records that the submits filled in, and the
number of ticks that the wheel has advanced.

The chunk pool hands out chunks that nobody holds. Timer infos have addresses whose
offset fits the 56 bits of a handle, and group 0 is the mark of a stopped timer, which no
caller submits to.
-/

namespace Tapplet.SfTimer

structure Timer where
  groupId : Nat
  timerInfo : Nat
  ticks : Nat
  due : Nat
  stopped : Bool
  deriving DecidableEq

structure System where
  tw : SfTwTimer
  held : List ChunkId
  sent : List (Nat × Nat)
  gets : Nat
  now : Nat
  advanced : Nat
  timers : List Timer
  records : List SfTimerRecord

namespace System

/-- The state after `sf_tw_timer_init`. -/
def init (timerInfoStart timerInterval : Nat) (chunk : ChunkId → SfTimerChunk) : System where
  tw := sfTwTimerInit timerInfoStart timerInterval chunk
  held := []
  sent := []
  gets := 0
  now := 0
  advanced := 0
  timers := []
  records := []

def submit (s : System) (info group ticks : Nat) (newChunk : Option ChunkId) : System :=
  match sfSubmitTimerTw s.tw info group ticks newChunk with
  | (_, tw, none) => { s with tw := tw }
  | (_, tw, some record) =>
      { s with
        tw := tw
        held := heldAfterSubmit s.tw ticks newChunk s.held
        timers := s.timers ++ [⟨group, info, ticks, s.advanced + ticks, false⟩]
        records := s.records ++ [record] }

/-- The stop of the timer `i` through its record. -/
def stop (s : System) (i : Nat) : System :=
  match s.records[i]?, s.timers[i]? with
  | some record, some t =>
      match sfStopTimer s.tw s.now record with
      | (0, tw) => { s with tw := tw, timers := s.timers.set i { t with stopped := true } }
      | (_, tw) => { s with tw := tw }
  | _, _ => s

/-- The ticks that an advance takes, if the wheel advances at all. -/
def nticks (s : System) : Nat :=
  if s.now < s.tw.nextRunTime ∨ s.tw.expireChunkList ≠ none then 0 else expireNticks s.tw s.now

/-- A call of `sf_tw_timer_expire_internal`. -/
def expire (s : System) : System :=
  { s with
    tw := (sfTwTimerExpireInternal s.tw s.now).2
    advanced := s.advanced + s.nticks }

/-- A run of the input node. -/
def poll (env : NodeEnv) (s : System) : System :=
  let p := sfTimerInputNode env ⟨s.tw, s.held, s.sent, s.gets, 0⟩ s.now
  { s with
    tw := p.tw
    held := p.held
    sent := p.sent
    gets := p.gets
    advanced := s.advanced + s.nticks }

end System

inductive Event where
  | submit (info group ticks : Nat) (newChunk : Option ChunkId)
  | stop (i : Nat)
  | clock (d : Nat)
  | expire
  | poll
  deriving DecidableEq

/-- The state after an event. -/
def System.after (env : NodeEnv) (s : System) : Event → System
  | .submit info group ticks newChunk => s.submit info group ticks newChunk
  | .stop i => s.stop i
  | .clock d => { s with now := s.now + d }
  | .expire => s.expire
  | .poll => s.poll env

/-- What callers promise. `sf_submit_timer` may also be called with fewer ticks than a stop
needs: the safe time of a record is `ticks - 2` ticks away. -/
def Enabled (s : System) : Event → Prop
  | .submit info group ticks newChunk =>
      1 ≤ ticks ∧ ticks ≤ sfTimerMaxTicks ∧ 0 < group ∧ group < 2 ^ 8 ∧ info < 2 ^ 64 ∧
        (info + 2 ^ 64 - s.tw.timerInfoStart) % 2 ^ 64 < 2 ^ 56 ∧
        ∀ c ∈ newChunk, c ∉ s.held
  | .stop i => ∀ t ∈ s.timers[i]?, 2 ≤ t.ticks
  | _ => True

instance (s : System) (e : Event) : Decidable (Enabled s e) := by
  cases e <;> unfold Enabled <;> infer_instance

def Step (env : NodeEnv) (s : System) (e : Event) (t : System) : Prop :=
  Enabled s e ∧ t = s.after env e

/-- The word that the slot of a timer holds. -/
def Timer.data (t : Timer) (tw : SfTwTimer) : Nat :=
  if t.stopped then 0 else tw.handleOf t.groupId t.timerInfo

/-- The entry stands for the timer of its number. -/
def EntryOf (s : System) (e : Entry) : Prop :=
  ∃ t, s.timers[e.id]? = some t ∧ e.due = t.due ∧ e.data = t.data s.tw

/-- Every timer is in one of three places: it waits for its tick, it is late, or it was
delivered. The buckets hold the waiting ones, the expired chunks the late ones, and each
delivered one was enqueued once. -/
structure Accounted (env : NodeEnv) (s : System) (waiting late delivered : List Entry) :
    Prop where
  wheel : ∃ chunks expired, WheelInv s.tw s.tw.expireChunkList s.held chunks expired s.advanced
    waiting late
  ids : ((waiting ++ late ++ delivered).map (·.id)).Perm (List.range s.timers.length)
  entry : ∀ e ∈ waiting ++ late ++ delivered, EntryOf s e
  fired : ∀ e ∈ delivered, e.due ≤ s.advanced
  sent : s.sent.Perm (delivered.map fun e => slotTarget env s.tw e.data)
  lastRun : s.tw.lastRunTime = s.advanced * s.tw.timerInterval
  lastRunNow : s.tw.lastRunTime ≤ s.now
  started : s.tw.timerInfoStart < 2 ^ 64
  interval : 0 < s.tw.timerInterval
  known : ∀ t ∈ s.timers, 0 < t.groupId ∧ t.groupId < 2 ^ 8 ∧ t.timerInfo < 2 ^ 64 ∧
    (t.timerInfo + 2 ^ 64 - s.tw.timerInfoStart) % 2 ^ 64 < 2 ^ 56 ∧ t.ticks ≤ t.due ∧
    t.ticks ≤ sfTimerMaxTicks
  recorded : s.records.length = s.timers.length
  safe : ∀ (i : Nat) (record : SfTimerRecord) (t : Timer),
    s.records[i]? = some record → s.timers[i]? = some t → 2 ≤ t.ticks →
    record.safeClibTime = (t.due - 2) * s.tw.timerInterval
  slot : ∀ e ∈ waiting ++ late, ∀ record, s.records[e.id]? = some record →
    record.slotHandler = e.addr

theorem accounted_init (env : NodeEnv) {start interval : Nat} (chunk : ChunkId → SfTimerChunk)
    (hstart : start < 2 ^ 64) (hpos : 0 < interval) :
    Accounted env (.init start interval chunk) [] [] [] where
  wheel := ⟨fun _ => [], [],
    { index := rfl
      bucket := fun i hi => .zero
      due := by simp
      expiredLinked := rfl
      expiredSlots := rfl
      expiredOk := by simp
      overdue := by simp
      stored := by simp
      places := by simp [System.init]
      nodup := .nil }⟩
  ids := by simp [System.init]
  entry := by simp
  fired := by simp
  sent := by simp [System.init]
  lastRun := by simp [System.init, sfTwTimerInit]
  lastRunNow := Nat.le_refl 0
  started := hstart
  interval := hpos
  known := by simp [System.init]
  recorded := rfl
  safe := by simp [System.init]
  slot := by simp

/-! ## Handles -/

/-- A handle gives back the group and the timer info, when the offset fits. -/
theorem handleOf_decode (tw : SfTwTimer) {group info : Nat} (hgroup : group < 2 ^ 8)
    (hinfo : info < 2 ^ 64) (hstart : tw.timerInfoStart < 2 ^ 64)
    (fits : (info + 2 ^ 64 - tw.timerInfoStart) % 2 ^ 64 < 2 ^ 56) :
    handleGroupId (tw.handleOf group info) = group ∧
      tw.infoOf (tw.handleOf group info) = info := by
  simp only [SfTwTimer.handleOf, SfTwTimer.infoOf, handleGroupId, handleTimerInfoIndex,
    handleData]
  omega

/-- Where the slot of a timer is enqueued: at the handler of its group, or dropped. -/
theorem slotTarget_data {env : NodeEnv} {tw : SfTwTimer} {t : Timer}
    (hstart : tw.timerInfoStart < 2 ^ 64)
    (known : 0 < t.groupId ∧ t.groupId < 2 ^ 8 ∧ t.timerInfo < 2 ^ 64 ∧
      (t.timerInfo + 2 ^ 64 - tw.timerInfoStart) % 2 ^ 64 < 2 ^ 56) :
    slotTarget env tw (t.data tw) =
      if t.stopped then (sfNextNodeTimerErrorDrop, tw.timerInfoStart)
      else (env.nextIndexVec t.groupId, t.timerInfo) := by
  obtain ⟨hpos, hgroup, hinfo, fits⟩ := known
  by_cases hstopped : t.stopped
  · have hinfoOf : tw.infoOf 0 = tw.timerInfoStart := by
      simpa only [SfTwTimer.infoOf, handleTimerInfoIndex, Nat.zero_div, Nat.zero_mod,
        Nat.zero_add] using Nat.mod_eq_of_lt hstart
    simp [slotTarget, Timer.data, hstopped, slotNext, handleGroupId, hinfoOf]
  · obtain ⟨hg, hi⟩ := handleOf_decode tw hgroup hinfo hstart fits
    simp [slotTarget, Timer.data, hstopped, slotNext, hg, hi, Nat.ne_of_gt hpos]

end Tapplet.SfTimer
