import Tapplet.Timer.Exact

/-!
# Stopping a timer

A stop clears the slot that the record of the timer points to, as long as the safe time of
the record has not come. The safe time is `ticks - 2` ticks away, in unsigned arithmetic, so
for 0 and 1 ticks it is about 2 ^ 32 ticks away, long after the chunk of the slot was
delivered and handed out again. The runs here submit timers with every number of ticks that
is accepted, and stop those with at least two.
-/

namespace Tapplet.SfTimer

open Transition Linked

/-- What `sf_stop_timer_void_tw` does with the timer info. -/
inductive InfoFate where
  | freed (timerInfo : Nat)
  | zeroed (timerInfo : Nat)
  deriving DecidableEq

/-- `sf_stop_timer_void_tw`. -/
def sfStopTimerVoidTw (tw : SfTwTimer) (timeNow : Nat) (record : SfTimerRecord) :
    InfoFate × SfTwTimer :=
  if timeNow < record.safeClibTime then
    (.freed record.timerInfo, tw.setSlot record.slotHandler 0)
  else (.zeroed record.timerInfo, tw)

/-- The ticks until the wheel comes to the bucket of a submit. The bucket of 0 ticks is the one
that it came to last. -/
def wheelTicks (ticks : Nat) : Nat := if ticks = 0 then sfTimerMaxTicks else ticks

namespace System

/-- A submit with any number of ticks. -/
def submitAny (s : System) (info group ticks : Nat) (newChunk : Option ChunkId) : System :=
  match sfSubmitTimerTw s.tw info group ticks newChunk with
  | (_, tw, none) => { s with tw := tw }
  | (_, tw, some record) =>
      { s with
        tw := tw
        held := heldAfterSubmit s.tw ticks newChunk s.held
        timers := s.timers ++ [⟨group, info, ticks, s.advanced + wheelTicks ticks, false⟩]
        records := s.records ++ [record] }

/-- The stop of the timer `i` by `sf_stop_timer_void`. -/
def stopVoid (s : System) (i : Nat) : System :=
  match s.records[i]?, s.timers[i]? with
  | some record, some t =>
      match sfStopTimerVoidTw s.tw s.now record with
      | (.freed _, tw) => { s with tw := tw, timers := s.timers.set i { t with stopped := true } }
      | (.zeroed _, tw) => { s with tw := tw }
  | _, _ => s

/-- Both stops do the same to the wheel. -/
theorem stopVoid_eq (s : System) (i : Nat) : s.stopVoid i = s.stop i := by
  unfold stopVoid stop
  cases s.records[i]? with
  | none => rfl
  | some record =>
      cases s.timers[i]? with
      | none => rfl
      | some t =>
          by_cases hnow : s.now < record.safeClibTime
          · simp only [sfStopTimerVoidTw, sfStopTimer, if_pos hnow]
          · simp only [sfStopTimerVoidTw, sfStopTimer, if_neg hnow]

end System

inductive Call where
  | submit (info group ticks : Nat) (newChunk : Option ChunkId)
  | stop (i : Nat)
  | stopVoid (i : Nat)
  | clock (d : Nat)
  | expire
  | poll

/-- The state after a call. -/
def System.next (env : NodeEnv) (s : System) : Call → System
  | .submit info group ticks newChunk => s.submitAny info group ticks newChunk
  | .stop i => s.stop i
  | .stopVoid i => s.stopVoid i
  | .clock d => { s with now := s.now + d }
  | .expire => s.expire
  | .poll => s.poll env

/-- What callers promise, and that no timer of fewer than two ticks is stopped. -/
def Accepted (s : System) : Call → Prop
  | .submit info group ticks newChunk =>
      ticks ≤ sfTimerMaxTicks ∧ 0 < group ∧ group < 2 ^ 8 ∧ info < 2 ^ 64 ∧
        (info + 2 ^ 64 - s.tw.timerInfoStart) % 2 ^ 64 < 2 ^ 56 ∧
        ∀ c ∈ newChunk, c ∉ s.held
  | .stop i | .stopVoid i => ∀ t ∈ s.timers[i]?, 2 ≤ t.ticks
  | _ => True

def CallStep (env : NodeEnv) (s : System) (c : Call) (t : System) : Prop :=
  Accepted s c ∧ t = s.next env c

/-- The chunk is linked from a bucket of the wheel. -/
def SfTwTimer.HasChunk (tw : SfTwTimer) (c : ChunkId) : Prop :=
  ∃ i < sfTwTimerBucketCnt, Reaches tw.nextChunk (tw.sfTimerBuckets i).firstChunk c

/-- The slot of the record is a used slot of a chunk in the wheel, and holds the handle of the
timer, or the 0 of an earlier stop of it. -/
structure OwnSlot (s : System) (record : SfTimerRecord) (t : Timer) : Prop where
  inWheel : s.tw.HasChunk record.slotHandler.1
  used : record.slotHandler.2 < (s.tw.chunk record.slotHandler.1).currentSlotCnt
  holds : s.tw.slot record.slotHandler = t.data s.tw

variable {env : NodeEnv} {s s' : System} {waiting late delivered : List Entry}

/-! ## Accounting -/

theorem Accounted.submitAny (h : Accounted env s waiting late delivered) {info group ticks : Nat}
    {newChunk : Option ChunkId} (accepted : Accepted s (.submit info group ticks newChunk)) :
    ∃ waiting', Accounted env (s.submitAny info group ticks newChunk) waiting' late delivered := by
  obtain ⟨hmax, hgroupPos, hgroup, hinfo, fits, fresh⟩ := accepted
  obtain ⟨chunks, expired, hwheel⟩ := h.wheel
  have hwheelTicks : 1 ≤ wheelTicks ticks ∧ wheelTicks ticks ≤ sfTimerMaxTicks ∧
      ticks ≤ wheelTicks ticks ∧
      wheelTicks ticks % sfTwTimerBucketCnt = ticks % sfTwTimerBucketCnt := by
    have hcnt : sfTimerMaxTicks = sfTwTimerBucketCnt := rfl
    have hpos := sfTwTimerBucketCnt_pos
    unfold wheelTicks
    split
    next hzero =>
      subst hzero
      rw [hcnt, Nat.mod_self, Nat.zero_mod]
      exact ⟨hpos, Nat.le_refl _, Nat.zero_le _, rfl⟩
    next hticks => exact ⟨Nat.pos_of_ne_zero hticks, hmax, Nat.le_refl _, rfl⟩
  obtain ⟨hpos, hle, hlater, hmod⟩ := hwheelTicks
  rcases sfSubmitTimerTw_lands hwheel info group
    (fun c hc => fresh c hc) hmax hpos hle hmod s.timers.length with ⟨hfail, -, -⟩ | hok
  · refine ⟨waiting, ?_⟩
    rw [System.submitAny, hfail]
    exact h
  obtain ⟨tw', addr, hret, hclock, chunks', hinv⟩ := hok
  rw [System.submitAny, hret]
  apply h.append (t := ⟨group, info, ticks, s.advanced + wheelTicks ticks, false⟩) hclock
    ⟨chunks', expired, hinv⟩ rfl
  · exact ⟨hgroupPos, hgroup, hinfo, fits, Nat.le_add_left_of_le hlater, hmax⟩
  · intro hticks
    have hsame : wheelTicks ticks = ticks :=
      if_neg (Nat.ne_of_gt (Nat.lt_of_lt_of_le Nat.two_pos hticks))
    rw [hsame]
    exact safeTime_eq hticks hmax h.lastRun rfl

/-- Every call keeps the timers accounted for. -/
theorem Accounted.next (room_pos : ∀ k, 0 < env.room k)
    (h : Accounted env s waiting late delivered) {c : Call} (hstep : CallStep env s c s') :
    ∃ waiting' late' delivered', Accounted env s' waiting' late' delivered' := by
  obtain ⟨accepted, rfl⟩ := hstep
  cases c with
  | submit info group ticks newChunk =>
      obtain ⟨waiting', h'⟩ := h.submitAny accepted
      exact ⟨waiting', late, delivered, h'⟩
  | stop i =>
      obtain ⟨waiting', h'⟩ := h.stop accepted
      exact ⟨waiting', late, delivered, h'⟩
  | stopVoid i =>
      obtain ⟨waiting', h'⟩ := h.stop accepted
      rw [System.next, System.stopVoid_eq]
      exact ⟨waiting', late, delivered, h'⟩
  | clock d => exact ⟨waiting, late, delivered, h.clock d⟩
  | expire =>
      obtain ⟨waiting', late', h', -⟩ := h.expire
      exact ⟨waiting', late', delivered, h'⟩
  | poll =>
      obtain ⟨waiting', late', delivered', h', -⟩ := h.poll room_pos
      exact ⟨waiting', late', delivered', h'⟩

theorem accounted_of_calls {start interval : Nat} {chunk : ChunkId → SfTimerChunk} {cs : List Call}
    (room_pos : ∀ k, 0 < env.room k) (hstart : start < 2 ^ 64) (hinterval : 0 < interval)
    (hrun : Run (CallStep env) (.init start interval chunk) cs s) :
    ∃ waiting late delivered, Accounted env s waiting late delivered :=
  hrun.invariant (I := fun s => ∃ waiting late delivered, Accounted env s waiting late delivered)
    ⟨[], [], [], accounted_init env chunk hstart hinterval⟩
    fun _ _ _ ⟨_, _, _, h⟩ hstep => h.next room_pos hstep

/-! ## Stops that are safe -/

/-- A timer of two or more ticks whose safe time has not come is in the slot of its record. -/
theorem Accounted.ownSlot (h : Accounted env s waiting late delivered) {i : Nat}
    {record : SfTimerRecord} {t : Timer} (hrecord : s.records[i]? = some record)
    (ht : s.timers[i]? = some t) (hticks : 2 ≤ t.ticks) (hnow : s.now < record.safeClibTime) :
    OwnSlot s record t := by
  obtain ⟨e, he, rfl, haddr⟩ := h.waiting_of_safe hrecord ht hticks hnow
  obtain ⟨chunks, expired, hwheel⟩ := h.wheel
  obtain ⟨hmem, hused⟩ := hwheel.waiting_addr he
  have hlt := Nat.mod_lt e.due sfTwTimerBucketCnt_pos
  refine ⟨⟨_, hlt, ?_⟩, ?_, ?_⟩
  · rw [haddr]
    exact (hwheel.bucket _ hlt).linked.mem_iff_reaches.mp hmem
  · rw [haddr]
    exact hused
  · obtain ⟨t', ht', -, hdata⟩ := h.entry e (by simp [he])
    rw [ht] at ht'
    obtain rfl := Option.some.inj ht'
    rw [haddr, hwheel.stored e (List.mem_append_left _ he)]
    exact hdata

/-! ## Stops that are not -/

/-- When all timers have expired there is no chunk in the wheel. -/
theorem Accounted.no_chunk (h : Accounted env s waiting late delivered)
    (hdue : ∀ t ∈ s.timers, t.due ≤ s.advanced) (c : ChunkId) : ¬s.tw.HasChunk c := by
  obtain ⟨chunks, expired, hwheel⟩ := h.wheel
  have hnone : waiting = [] := by
    refine List.eq_nil_iff_forall_not_mem.mpr fun e he => ?_
    obtain ⟨t, ht, hsame, -⟩ := h.entry e (by simp [he])
    have hlt := (hwheel.due e he).1
    have hle := hdue t (List.mem_of_getElem? ht)
    omega
  rintro ⟨i, hi, hreach⟩
  have hb := hwheel.bucket i hi
  have hused : (s.tw.sfTimerBuckets i).slotUsedCnt = 0 := by
    rw [hb.used, hnone]
    rfl
  have hmem := hb.linked.mem_iff_reaches.mpr hreach
  rw [(hb.eq_nil_of_used hused).1] at hmem
  simp at hmem

/-- One timer, a full turn of the wheel, and its delivery. -/
def lateCalls (ticks : Nat) : List Call :=
  [.submit 5000 4 ticks (some 7), .clock (sfTimerMaxTicks * 10), .expire, .poll]

/-- A timer of fewer than two ticks can still be stopped after it was delivered. -/
theorem late_stop_accepted {k : Nat} (hk : k < 2) :
    ∃ s record t, Run (CallStep sampleEnv) sampleWheel (lateCalls k) s ∧
      s.records[0]? = some record ∧ s.timers[0]? = some t ∧ t.ticks = k ∧
      s.now < record.safeClibTime ∧ ¬OwnSlot s record t := by
  have hcases : k = 0 ∨ k = 1 := by omega
  obtain ⟨s₁, hs₁⟩ : ∃ s₁, s₁ = sampleWheel.submitAny 5000 4 k (some 7) := ⟨_, rfl⟩
  have haccepted : Accepted sampleWheel (.submit 5000 4 k (some 7)) := by
    refine ⟨Nat.le_trans (Nat.le_of_lt hk)
      (by decide : 2 ≤ sfTimerMaxTicks), by decide, by decide, by decide, by decide, ?_⟩
    exact fun _ _ => List.not_mem_nil
  obtain ⟨record, hrecord, hsafe⟩ : ∃ record, s₁.records = [record] ∧
      sfTimerMaxTicks * 10 < record.safeClibTime := by
    subst hs₁
    obtain rfl | rfl := hcases <;> exact ⟨_, rfl, by decide⟩
  have htimers : s₁.timers = [⟨4, 5000, k, wheelTicks k, false⟩] := by
    subst hs₁
    obtain rfl | rfl := hcases <;> rfl
  have hidle : s₁.tw.nextRunTime = 0 ∧ s₁.tw.expireChunkList = none ∧ s₁.tw.lastRunTime = 0 ∧
      s₁.tw.timerInterval = 10 ∧ s₁.advanced = 0 ∧ s₁.now = 0 := by
    subst hs₁
    obtain rfl | rfl := hcases <;> exact ⟨rfl, rfl, rfl, rfl, rfl, rfl⟩
  obtain ⟨hnext, hlist, hlast, hinterval, hadvanced, hnow⟩ := hidle
  -- one advance takes the wheel a full turn, so the timer is overdue in either bucket
  obtain ⟨s₂, hs₂⟩ : ∃ s₂ : System, s₂ = { s₁ with now := s₁.now + sfTimerMaxTicks * 10 } :=
    ⟨_, rfl⟩
  have hticks : s₂.nticks = sfTimerMaxTicks := by
    have hdiv : expireNticks s₂.tw s₂.now = sfTimerMaxTicks := by
      simp only [hs₂, expireNticks, hlast, hinterval, hnow, Nat.zero_add, Nat.sub_zero]
      exact Nat.mul_div_cancel _ (by decide)
    rw [System.nticks, if_neg, hdiv]
    simp [hs₂, hnext, hlist]
  obtain ⟨s, hs⟩ : ∃ s, s = s₂.expire.poll sampleEnv := ⟨_, rfl⟩
  have hrun : Run (CallStep sampleEnv) sampleWheel (lateCalls k) s := by
    refine .cons ⟨haccepted, hs₁⟩
      (.cons ⟨trivial, hs₂⟩ (.cons ⟨trivial, rfl⟩ (.cons ⟨trivial, hs⟩ ?_)))
    exact .refl s
  obtain ⟨waiting, late, delivered, h⟩ :=
    accounted_of_calls (fun _ => Nat.one_pos) (by decide) (by decide) hrun
  have hstimers : s.timers = s₁.timers := by rw [hs, hs₂]; rfl
  have hsrecords : s.records = s₁.records := by rw [hs, hs₂]; rfl
  have hsnow : s.now = s₁.now + sfTimerMaxTicks * 10 := by rw [hs, hs₂]; rfl
  have hsadvanced : sfTimerMaxTicks ≤ s.advanced := by
    have hexpired : s₂.expire.advanced = sfTimerMaxTicks := by
      show s₂.advanced + s₂.nticks = _
      rw [hticks, hs₂, hadvanced, Nat.zero_add]
    rw [hs, ← hexpired]
    exact Nat.le_add_right _ _
  refine ⟨s, record, ⟨4, 5000, k, wheelTicks k, false⟩, hrun, ?_, ?_, rfl, ?_, fun hown => ?_⟩
  · rw [hsrecords, hrecord]
    rfl
  · rw [hstimers, htimers]
    rfl
  · rw [hsnow, hnow, Nat.zero_add]
    exact hsafe
  · refine h.no_chunk (fun t ht => ?_) _ hown.inWheel
    rw [hstimers, htimers, List.mem_singleton] at ht
    subst ht
    have hle : wheelTicks k ≤ sfTimerMaxTicks := by
      obtain rfl | rfl := hcases <;> decide
    exact Nat.le_trans hle hsadvanced

/-- The tick counts whose timers can be stopped safely. For every schedule of submits, stops,
clock changes, advances and polls, a stop that takes the safe branch finds the timer in its own
slot, exactly for the timers of two ticks or more. A count above `SF_TIMER_MAX_TICKS` is not
accepted, so there are no timers of it. -/
theorem stop_safe_iff {k : Nat} :
    (∀ (env : NodeEnv) (start interval : Nat) (chunk : ChunkId → SfTimerChunk) (cs : List Call)
      (s : System), (∀ k, 0 < env.room k) → start < 2 ^ 64 → 0 < interval →
      Run (CallStep env) (.init start interval chunk) cs s →
      ∀ (i : Nat) (record : SfTimerRecord) (t : Timer),
        s.records[i]? = some record → s.timers[i]? = some t → t.ticks = k →
        s.now < record.safeClibTime → OwnSlot s record t) ↔ 2 ≤ k := by
  constructor
  · intro hall
    by_contra hlt
    obtain ⟨s, record, t, hrun, hrecord, ht, hticks, hnow, hnot⟩ :=
      late_stop_accepted (Nat.not_le.mp hlt)
    exact hnot (hall _ _ _ _ _ _ (fun _ => Nat.one_pos) (by decide) (by decide) hrun _ _ _
      hrecord ht hticks hnow)
  · intro hle env start interval chunk cs s room_pos hstart hinterval hrun i record t hrecord ht
      hticks hnow
    obtain ⟨waiting, late, delivered, h⟩ :=
      accounted_of_calls room_pos hstart hinterval hrun
    exact h.ownSlot hrecord ht (hticks ▸ hle) hnow

/-- A timer of one tick, its delivery, and a second timer in the chunk of the first. -/
def reusedCalls : List Call :=
  [.submit 5000 4 1 (some 7), .clock 10, .poll, .submit 6000 4 30 (some 7)]

def reusedState : System := reusedCalls.foldl (System.next sampleEnv) sampleWheel

/-- The stop of the first timer is accepted and clears the slot of the second, which is
running. -/
theorem stop_clears_other : Run (CallStep sampleEnv) sampleWheel reusedCalls reusedState ∧
    ∃ first second, reusedState.records = [first, second] ∧
      reusedState.tw.slot second.slotHandler = reusedState.tw.handleOf 4 6000 ∧
      (sfStopTimer reusedState.tw reusedState.now first).1 = 0 ∧
      (sfStopTimer reusedState.tw reusedState.now first).2.slot second.slotHandler = 0 := by
  refine ⟨.cons ⟨?_, rfl⟩ (.cons ⟨trivial, rfl⟩ (.cons ⟨trivial, rfl⟩ (.cons ⟨?_, rfl⟩ (.refl _)))),
    _, _, rfl, ?_⟩
  · refine ⟨by decide, by decide, by decide, by decide, by decide, ?_⟩
    exact fun _ _ => List.not_mem_nil
  · refine ⟨by decide, by decide, by decide, by decide, by decide +kernel, ?_⟩
    decide +kernel
  · decide +kernel

end Tapplet.SfTimer
