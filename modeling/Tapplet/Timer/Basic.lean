import Mathlib.Logic.Function.Basic
import Mathlib.Tactic.Common
import Mathlib.Algebra.GroupWithZero.Nat

/-!
# The timer wheel

A wheel has one bucket for each of `SF_TIMER_MAX_TICKS` ticks. A bucket is a chain of
chunks of `SF_TW_TIMER_SLOT_CNT` slots, and a slot holds a compressed handle: a group
number and the offset of the timer info. Advancing the wheel moves the chains of the
buckets that it passes to one list of expired chunks, which the input node delivers.

Time is a natural number of small units, `timerInterval` of them to the tick, so that
divisions by the interval are exact.
-/

namespace Tapplet.SfTimer

/-- `SF_TIMER_MAX_TICKS`. -/
def sfTimerMaxTicks : Nat := 1 <<< 14

/-- `SF_TW_TIMER_BUCKET_CNT`. -/
def sfTwTimerBucketCnt : Nat := sfTimerMaxTicks

/-- `SF_TW_TIMER_BUCKET_MASK`. -/
def sfTwTimerBucketMask : Nat := sfTimerMaxTicks - 1

/-- `SF_TW_TIMER_SLOT_CNT`. -/
def sfTwTimerSlotCnt : Nat := (32 * 128 - 8) / 8 - 1

/-! ## Handles -/

/-- The word of a `sf_timer_handle_t`: 8 bits of group and 56 bits of index. -/
def handleData (groupId timerInfoIndex : Nat) : Nat :=
  groupId % 2 ^ 8 + 2 ^ 8 * (timerInfoIndex % 2 ^ 56)

def handleGroupId (data : Nat) : Nat := data % 2 ^ 8

def handleTimerInfoIndex (data : Nat) : Nat := data / 2 ^ 8 % 2 ^ 56

/-! ## Memory of the wheel -/

abbrev ChunkId := Nat

/-- `sf_timer_chunk_t`. -/
structure SfTimerChunk where
  nextChunk : Option ChunkId
  currentSlotCnt : Nat
  sfTimerSlots : Nat → Nat

/-- `sf_timer_bucket_t`. -/
structure SfTimerBucket where
  slotUsedCnt : Nat
  slotLeftCnt : Nat
  firstChunk : Option ChunkId
  currentChunk : Option ChunkId

/-- A bucket after `memset` to zero. -/
def SfTimerBucket.zero : SfTimerBucket := ⟨0, 0, none, none⟩

/-- `sf_tw_timer_t`, with the memory of its chunks. -/
structure SfTwTimer where
  timerInfoStart : Nat
  chunk : ChunkId → SfTimerChunk
  sfTimerBuckets : Nat → SfTimerBucket
  expireChunkList : Option ChunkId
  preBucketIndex : Nat
  timerInterval : Nat
  lastRunTime : Nat
  nextRunTime : Nat

/-- The address of a slot: its chunk and its index there. -/
abbrev SlotAddr := ChunkId × Nat

/-- `sf_timer_record_t`. -/
structure SfTimerRecord where
  slotHandler : SlotAddr
  timerInfo : Nat
  safeClibTime : Nat

/-- `sf_tw_timer_init`. `chunk` is the earlier contents of the chunk memory. -/
def sfTwTimerInit (timerInfoStart timerInterval : Nat) (chunk : ChunkId → SfTimerChunk) :
    SfTwTimer where
  timerInfoStart := timerInfoStart
  chunk := chunk
  sfTimerBuckets := fun _ => .zero
  expireChunkList := none
  preBucketIndex := 0
  timerInterval := timerInterval
  lastRunTime := 0
  nextRunTime := 0

namespace SfTwTimer

variable (tw : SfTwTimer)

def slot (a : SlotAddr) : Nat := (tw.chunk a.1).sfTimerSlots a.2

def nextChunk (c : ChunkId) : Option ChunkId := (tw.chunk c).nextChunk

def setChunk (c : ChunkId) (v : SfTimerChunk) : SfTwTimer :=
  { tw with chunk := Function.update tw.chunk c v }

def setBucket (i : Nat) (b : SfTimerBucket) : SfTwTimer :=
  { tw with sfTimerBuckets := Function.update tw.sfTimerBuckets i b }

/-- `current_chunk->next_chunk = next`. -/
def setNext (c : ChunkId) (next : Option ChunkId) : SfTwTimer :=
  tw.setChunk c { tw.chunk c with nextChunk := next }

/-- `*slot_handler = data`. -/
def setSlot (a : SlotAddr) (data : Nat) : SfTwTimer :=
  tw.setChunk a.1
    { tw.chunk a.1 with sfTimerSlots := Function.update (tw.chunk a.1).sfTimerSlots a.2 data }

/-- The handle under which the wheel stores a timer info. -/
def handleOf (groupId sfTimerInfo : Nat) : Nat :=
  handleData groupId ((sfTimerInfo + 2 ^ 64 - tw.timerInfoStart) % 2 ^ 64)

/-- The timer info that a handle stands for. -/
def infoOf (data : Nat) : Nat := (handleTimerInfoIndex data + tw.timerInfoStart) % 2 ^ 64

end SfTwTimer

/-! ## Submitting and stopping -/

/-- Store a handle behind the last slot of the current chunk. -/
def storeSlot (tw : SfTwTimer) (c : ChunkId) (data : Nat) : SfTwTimer :=
  tw.setChunk c
    { tw.chunk c with
      sfTimerSlots := Function.update (tw.chunk c).sfTimerSlots (tw.chunk c).currentSlotCnt data
      currentSlotCnt := (tw.chunk c).currentSlotCnt + 1 }

/-- Store a handle in the current chunk `c` of the bucket `i`. -/
def takeFreeSlot (tw : SfTwTimer) (i : Nat) (c : ChunkId) (data : Nat) : SfTwTimer :=
  let target := tw.sfTimerBuckets i
  (storeSlot tw c data).setBucket i
    { target with
      slotLeftCnt := target.slotLeftCnt - 1
      slotUsedCnt := target.slotUsedCnt + 1 }

/-- Store a handle in the first slot of a new chunk. -/
def startChunk (tw : SfTwTimer) (c : ChunkId) (data : Nat) : SfTwTimer :=
  tw.setChunk c
    { nextChunk := none
      currentSlotCnt := 1
      sfTimerSlots := Function.update (tw.chunk c).sfTimerSlots 0 data }

/-- Start a new chunk for the bucket `i` and link it behind the current one. -/
def linkNewChunk (tw : SfTwTimer) (i : Nat) (c : ChunkId) (data : Nat) : SfTwTimer :=
  let target := tw.sfTimerBuckets i
  let counts (first : Option ChunkId) : SfTimerBucket :=
    { firstChunk := first
      currentChunk := some c
      slotLeftCnt := target.slotLeftCnt + (sfTwTimerSlotCnt - 1)
      slotUsedCnt := target.slotUsedCnt + 1 }
  match target.currentChunk with
  | none => (startChunk tw c data).setBucket i (counts (some c))
  | some last =>
      ((startChunk tw c data).setNext last (some c)).setBucket i (counts target.firstChunk)

/-- The record that a successful submit fills in: the slot that was written last in the
chunk `c`. `ticks - 2` is an unsigned subtraction. -/
def submitRecord (tw : SfTwTimer) (c : ChunkId) (sfTimerInfo ticks : Nat) : SfTimerRecord where
  slotHandler := (c, (tw.chunk c).currentSlotCnt - 1)
  timerInfo := sfTimerInfo
  safeClibTime := tw.lastRunTime + (ticks + 2 ^ 32 - 2) % 2 ^ 32 * tw.timerInterval

/-- `sf_submit_timer_tw`. `newChunk` is what the chunk pool hands out. The result has the
record when the timer was submitted, and the return value is then 0. -/
def sfSubmitTimerTw (tw : SfTwTimer) (sfTimerInfo groupId ticks : Nat)
    (newChunk : Option ChunkId) : Int × SfTwTimer × Option SfTimerRecord :=
  let handler := tw.handleOf groupId sfTimerInfo
  if sfTimerMaxTicks < ticks then (-1, tw, none)
  else
    let timerBucketIndex := (tw.preBucketIndex + ticks) &&& sfTwTimerBucketMask
    let target := tw.sfTimerBuckets timerBucketIndex
    if 0 < target.slotLeftCnt then
      match target.currentChunk with
      | none => (-1, tw, none) -- a bucket with free slots has a current chunk
      | some c =>
          let tw' := takeFreeSlot tw timerBucketIndex c handler
          (0, tw', some (submitRecord tw' c sfTimerInfo ticks))
    else
      match newChunk with
      | none => (-1, tw, none)
      | some c =>
          let tw' := linkNewChunk tw timerBucketIndex c handler
          (0, tw', some (submitRecord tw' c sfTimerInfo ticks))

/-- `sf_stop_timer`: 0 when the slot was cleared, 1 when the timer is busy. -/
def sfStopTimer (tw : SfTwTimer) (timeNow : Nat) (record : SfTimerRecord) : Int × SfTwTimer :=
  if timeNow < record.safeClibTime then (0, tw.setSlot record.slotHandler 0) else (1, tw)

/-! ## Expiry -/

/-- The variables of the loop of `sf_tw_timer_expire_internal`. -/
structure ExpireLoop where
  tw : SfTwTimer
  retCnt : Nat
  firstExpireChunk : Option ChunkId
  lastExpireChunk : Option ChunkId

/-- `last_expire_chunk->next_chunk = next` when there are expired chunks already. -/
def linkExpired (tw : SfTwTimer) (first last next : Option ChunkId) : SfTwTimer :=
  match first, last with
  | some _, some c => tw.setNext c next
  | _, _ => tw

/-- One round of the loop: the next bucket is appended to the expired chunks and reset. -/
def expireTick (l : ExpireLoop) : ExpireLoop :=
  let index := (l.tw.preBucketIndex + 1) &&& sfTwTimerBucketMask
  let tw : SfTwTimer := { l.tw with preBucketIndex := index }
  let current : SfTimerBucket := tw.sfTimerBuckets index
  if current.slotUsedCnt = 0 then { l with tw := tw }
  else
    { tw :=
        (linkExpired tw l.firstExpireChunk l.lastExpireChunk current.firstChunk).setBucket
          index .zero
      retCnt := l.retCnt + current.slotUsedCnt
      firstExpireChunk :=
        if l.firstExpireChunk = none then current.firstChunk else l.firstExpireChunk
      lastExpireChunk := current.currentChunk }

/-- The first `n` rounds of the loop. -/
def expireTicks : Nat → ExpireLoop → ExpireLoop
  | 0, l => l
  | n + 1, l => expireTick (expireTicks n l)

/-- The loop variables before the first round. -/
def ExpireLoop.start (tw : SfTwTimer) : ExpireLoop := ⟨tw, 0, none, none⟩

/-- `nticks` of `sf_tw_timer_expire_internal`: the ticks since the last run. -/
def expireNticks (tw : SfTwTimer) (now : Nat) : Nat := (now - tw.lastRunTime) / tw.timerInterval

/-- `sf_tw_timer_expire_internal`. -/
def sfTwTimerExpireInternal (tw : SfTwTimer) (now : Nat) : Nat × SfTwTimer :=
  if now < tw.nextRunTime then (0, tw)
  else if tw.expireChunkList ≠ none then (0, tw)
  else
    let nticks := expireNticks tw now
    let l := expireTicks nticks (.start { tw with nextRunTime := now + tw.timerInterval })
    (l.retCnt,
      { l.tw with
        expireChunkList := l.firstExpireChunk
        lastRunTime := l.tw.lastRunTime + nticks * l.tw.timerInterval })

end Tapplet.SfTimer
