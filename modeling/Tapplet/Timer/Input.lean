import Tapplet.Timer.Expiry

/-!
# The timer input node

The node takes expired chunks one by one and enqueues the timer infos of their slots to
the next nodes of their groups. Enqueueing is speculative: an element is first written
to the open frame of the last next node, and taken back when it belongs elsewhere. The
frames themselves belong to the graph runtime, which is a parameter: `room k` is the
free space of the frame that the `k`-th call of `vlib_get_next_frame` returns.
-/

namespace Tapplet.SfTimer

/-- `SF_NEXT_NODE_TIMER_ERROR_DROP`. -/
def sfNextNodeTimerErrorDrop : Nat := 0

/-- What the node reads besides the wheel: the next node of each group, and the runtime. -/
structure NodeEnv where
  nextIndexVec : Nat → Nat
  room : Nat → Nat

/-- The open next frame: the elements written to it, its free space, and the elements
that have been handed over already, each with its next node. -/
structure NextFrame where
  nextIndex : Nat
  toNext : List Nat
  nLeftToNext : Nat
  sent : List (Nat × Nat)
  gets : Nat

namespace NextFrame

def vlibGetNextFrame (env : NodeEnv) (f : NextFrame) (nextIndex : Nat) : NextFrame :=
  { f with
    nextIndex := nextIndex
    toNext := []
    nLeftToNext := env.room f.gets
    gets := f.gets + 1 }

def vlibPutNextFrame (f : NextFrame) : NextFrame :=
  { f with sent := f.sent ++ f.toNext.map (f.nextIndex, ·), toNext := [] }

/-- Write an element to the open frame. -/
def push (f : NextFrame) (ptr : Nat) : NextFrame :=
  { f with toNext := f.toNext ++ [ptr], nLeftToNext := f.nLeftToNext - 1 }

/-- `to_next -= 1; n_left_to_next += 1`. -/
def pop (f : NextFrame) : NextFrame :=
  { f with toNext := f.toNext.dropLast, nLeftToNext := f.nLeftToNext + 1 }

def sfU64SetNextFrameBuffer (f : NextFrame) (nextIndex ptr : Nat) : NextFrame :=
  { f with sent := f.sent ++ [(nextIndex, ptr)] }

/-- `sf_u64_validate_buffer_enqueue_x2`: both elements are in the open frame already. -/
def sfU64ValidateBufferEnqueueX2 (env : NodeEnv) (f : NextFrame) (bi0 bi1 next0 next1 : Nat) :
    NextFrame :=
  if next0 ≠ f.nextIndex then
    if next1 ≠ f.nextIndex then
      -- A B B or A B C
      let f' := (f.pop.pop.sfU64SetNextFrameBuffer next0 bi0).sfU64SetNextFrameBuffer next1 bi1
      if next0 = next1 then f'.vlibPutNextFrame.vlibGetNextFrame env next1 else f'
    else (f.pop.pop.push bi1).sfU64SetNextFrameBuffer next0 bi0 -- A B A
  else if next1 ≠ f.nextIndex then f.pop.sfU64SetNextFrameBuffer next1 bi1 -- A A B
  else f

/-- `vlib_validate_buffer_enqueue_x1`: the element is in the open frame already. -/
def vlibValidateBufferEnqueueX1 (env : NodeEnv) (f : NextFrame) (bi0 next0 : Nat) : NextFrame :=
  if next0 ≠ f.nextIndex then
    (f.pop.vlibPutNextFrame.vlibGetNextFrame env next0).push bi0
  else f

/-- Every element that was enqueued, each with its next node. -/
def all (f : NextFrame) : List (Nat × Nat) := f.sent ++ f.toNext.map (f.nextIndex, ·)

end NextFrame

/-- The next node of a slot. -/
def slotNext (env : NodeEnv) (data : Nat) : Nat :=
  if handleGroupId data ≠ 0 then env.nextIndexVec (handleGroupId data)
  else sfNextNodeTimerErrorDrop

/-- The slots that count: those of timers that have not been stopped. -/
def notZero (data : Nat) : Nat := if handleGroupId data ≠ 0 then 1 else 0

/-- The variables of `sf_timer_input_internal`: the slots that are left, the open frame
and the number of timers that have not been stopped. -/
structure InputLoop where
  left : List Nat
  frame : NextFrame
  notZeroCnt : Nat

/-- The loop over pairs of slots. -/
def pairLoop (env : NodeEnv) (tw : SfTwTimer) : List Nat → NextFrame → Nat → InputLoop
  | s0 :: s1 :: left, f, cnt =>
      if 2 ≤ f.nLeftToNext then
        let f' := ((f.push (tw.infoOf s0)).push (tw.infoOf s1)).sfU64ValidateBufferEnqueueX2 env
          (tw.infoOf s0) (tw.infoOf s1) (slotNext env s0) (slotNext env s1)
        pairLoop env tw left f' (cnt + notZero s0 + notZero s1)
      else ⟨s0 :: s1 :: left, f, cnt⟩
  | left, f, cnt => ⟨left, f, cnt⟩

/-- The loop over single slots. -/
def singleLoop (env : NodeEnv) (tw : SfTwTimer) : List Nat → NextFrame → Nat → InputLoop
  | s0 :: left, f, cnt =>
      if 0 < f.nLeftToNext then
        let f' := (f.push (tw.infoOf s0)).vlibValidateBufferEnqueueX1 env (tw.infoOf s0)
          (slotNext env s0)
        singleLoop env tw left f' (cnt + notZero s0)
      else ⟨s0 :: left, f, cnt⟩
  | [], f, cnt => ⟨[], f, cnt⟩

/-- The outer loop, for at most `fuel` frames. -/
def inputLoop (env : NodeEnv) (tw : SfTwTimer) : Nat → InputLoop → InputLoop
  | 0, l => l
  | fuel + 1, l =>
      if l.left = [] then l
      else
        let p := pairLoop env tw l.left (l.frame.vlibGetNextFrame env l.frame.nextIndex)
          l.notZeroCnt
        let q := singleLoop env tw p.left p.frame p.notZeroCnt
        inputLoop env tw fuel { q with frame := q.frame.vlibPutNextFrame }

/-- `sf_timer_input_internal` on the chunk `c`. A frame takes at least one slot, so as many
frames as slots are enough. -/
def sfTimerInputInternal (env : NodeEnv) (tw : SfTwTimer) (c : ChunkId) (sent : List (Nat × Nat))
    (gets : Nat) : InputLoop :=
  let slots := (List.range (tw.chunk c).currentSlotCnt).map (tw.chunk c).sfTimerSlots
  inputLoop env tw slots.length ⟨slots, ⟨sfNextNodeTimerErrorDrop, [], 0, sent, gets⟩, 0⟩

/-- The state of the node function: the wheel, the chunks that the pool has handed out, what
was enqueued, the calls of `vlib_get_next_frame` and the return count. -/
structure Poll where
  tw : SfTwTimer
  held : List ChunkId
  sent : List (Nat × Nat)
  gets : Nat
  retCnt : Nat

/-- The loop over the expired chunks, for at most `fuel` of them. -/
def pollLoop (env : NodeEnv) : Nat → Poll → Poll
  | 0, p => p
  | fuel + 1, p =>
      match p.tw.expireChunkList with
      | none => p
      | some c =>
          let tw := { p.tw with expireChunkList := p.tw.nextChunk c }
          let r := sfTimerInputInternal env tw c p.sent p.gets
          let p' : Poll :=
            { tw := tw
              held := p.held.erase c
              sent := r.frame.sent
              gets := r.frame.gets
              retCnt := p.retCnt + r.notZeroCnt }
          if sfTwTimerSlotCnt ≤ p'.retCnt then p' else pollLoop env fuel p'

/-- `sf_timer_input_node`. No more chunks than the pool has handed out are expired. -/
def sfTimerInputNode (env : NodeEnv) (p : Poll) (timeNow : Nat) : Poll :=
  let tw :=
    if p.tw.expireChunkList = none then (sfTwTimerExpireInternal p.tw timeNow).2 else p.tw
  pollLoop env p.held.length { p with tw := tw, retCnt := 0 }

/-! ## What is enqueued -/

/-- Where a slot is enqueued. -/
def slotTarget (env : NodeEnv) (tw : SfTwTimer) (data : Nat) : Nat × Nat :=
  (slotNext env data, tw.infoOf data)

namespace NextFrame

variable (env : NodeEnv) (f : NextFrame)

@[simp] theorem pop_push (ptr : Nat) : (f.push ptr).pop.all = f.all := by
  simp [pop, push, all]

theorem push_all (ptr : Nat) : (f.push ptr).all = f.all ++ [(f.nextIndex, ptr)] := by
  simp [push, all]

@[simp] theorem push_nextIndex (ptr : Nat) : (f.push ptr).nextIndex = f.nextIndex := rfl

@[simp] theorem put_all : f.vlibPutNextFrame.all = f.all := by
  simp [vlibPutNextFrame, all]

@[simp] theorem put_get_all (nextIndex : Nat) :
    (f.vlibPutNextFrame.vlibGetNextFrame env nextIndex).all = f.all := by
  simp [vlibPutNextFrame, vlibGetNextFrame, all]

/-- After the macro for two elements both are enqueued where they belong. -/
theorem enqueueX2_all (bi0 bi1 next0 next1 : Nat) :
    (((f.push bi0).push bi1).sfU64ValidateBufferEnqueueX2 env bi0 bi1 next0 next1).all.Perm
      (f.all ++ [(next0, bi0), (next1, bi1)]) := by
  have hcount : ∀ xs ys : List (Nat × Nat), (∀ x, xs.count x = ys.count x) → xs.Perm ys :=
    fun _ _ h => List.perm_iff_count.mpr h
  by_cases h0 : next0 = f.nextIndex
  · by_cases h1 : next1 = f.nextIndex
    · simp [sfU64ValidateBufferEnqueueX2, h0, h1, push_all]
    · refine hcount _ _ fun x => ?_
      simp [sfU64ValidateBufferEnqueueX2, h0, h1, push, pop, sfU64SetNextFrameBuffer, all,
        List.count_cons]
      omega
  · by_cases h1 : next1 = f.nextIndex
    · refine hcount _ _ fun x => ?_
      simp [sfU64ValidateBufferEnqueueX2, h0, h1, push, pop, sfU64SetNextFrameBuffer, all,
        List.count_cons]
      omega
    · by_cases h01 : next0 = next1
      · refine hcount _ _ fun x => ?_
        simp [sfU64ValidateBufferEnqueueX2, h1, h01, push, pop, sfU64SetNextFrameBuffer,
          all, vlibPutNextFrame, vlibGetNextFrame, List.count_cons]
        omega
      · refine hcount _ _ fun x => ?_
        simp [sfU64ValidateBufferEnqueueX2, h0, h1, h01, push, pop, sfU64SetNextFrameBuffer,
          all, List.count_cons]
        omega

/-- After the macro for one element it is enqueued where it belongs. -/
theorem enqueueX1_all (bi0 next0 : Nat) :
    ((f.push bi0).vlibValidateBufferEnqueueX1 env bi0 next0).all = f.all ++ [(next0, bi0)] := by
  by_cases h0 : next0 = f.nextIndex
  · simp [vlibValidateBufferEnqueueX1, h0, push_all]
  · simp only [vlibValidateBufferEnqueueX1, push_nextIndex, ne_eq, h0, not_false_eq_true, if_true]
    rw [push_all, put_get_all, pop_push]
    rfl

end NextFrame

section Loops

variable {env : NodeEnv} {tw : SfTwTimer}

/-- What a loop over slots has done: it consumed a prefix of them and enqueued it. -/
structure Enqueued (env : NodeEnv) (tw : SfTwTimer) (slots : List Nat) (f : NextFrame)
    (r : InputLoop) : Prop where
  exists_prefix : ∃ done, slots = done ++ r.left ∧
    r.frame.all.Perm (f.all ++ done.map (slotTarget env tw))

theorem Enqueued.trans {slots : List Nat} {f : NextFrame} {r r' : InputLoop}
    (h : Enqueued env tw slots f r) (h' : Enqueued env tw r.left r.frame r') :
    Enqueued env tw slots f r' := by
  obtain ⟨done, hslots, hperm⟩ := h
  obtain ⟨done', hslots', hperm'⟩ := h'
  refine ⟨done ++ done', by rw [hslots, hslots', List.append_assoc], ?_⟩
  rw [List.map_append, ← List.append_assoc]
  exact hperm'.trans (hperm.append_right _)

theorem pairLoop_enqueued (env : NodeEnv) (tw : SfTwTimer) (slots : List Nat) (f : NextFrame)
    (cnt : Nat) :
    Enqueued env tw slots f (pairLoop env tw slots f cnt) := by
  induction slots, f, cnt using pairLoop.induct env tw with
  | case1 s0 s1 left f cnt hroom f' ih =>
      rw [pairLoop, if_pos hroom]
      obtain ⟨done, hslots, hperm⟩ := ih
      refine ⟨s0 :: s1 :: done, by rw [List.cons_append, List.cons_append, ← hslots], ?_⟩
      refine hperm.trans ?_
      have hpair := (f.enqueueX2_all env (tw.infoOf s0) (tw.infoOf s1) (slotNext env s0)
        (slotNext env s1)).append_right (done.map (slotTarget env tw))
      simpa [slotTarget] using hpair
  | case2 s0 s1 left f cnt hroom =>
      rw [pairLoop, if_neg hroom]
      exact ⟨[], rfl, by simp⟩
  | case3 left f cnt hshort =>
      unfold pairLoop
      split
      · exact (hshort _ _ _ rfl).elim
      · exact ⟨[], rfl, by simp⟩

theorem singleLoop_enqueued (env : NodeEnv) (tw : SfTwTimer) (slots : List Nat) (f : NextFrame)
    (cnt : Nat) :
    Enqueued env tw slots f (singleLoop env tw slots f cnt) := by
  induction slots generalizing f cnt with
  | nil => exact ⟨[], rfl, by simp [singleLoop]⟩
  | cons s0 left ih =>
      rw [singleLoop]
      split
      · obtain ⟨done, hslots, hperm⟩ := ih
          ((f.push (tw.infoOf s0)).vlibValidateBufferEnqueueX1 env (tw.infoOf s0)
            (slotNext env s0)) (cnt + notZero s0)
        refine ⟨s0 :: done, by rw [List.cons_append, ← hslots], hperm.trans ?_⟩
        rw [NextFrame.enqueueX1_all, List.append_assoc]
        rfl
      · exact ⟨[], rfl, by simp⟩

/-- With room in the frame the loop over single slots takes at least one. -/
theorem singleLoop_left_lt {slots : List Nat} {f : NextFrame} {cnt : Nat} (hne : slots ≠ [])
    (hroom : 0 < f.nLeftToNext) : (singleLoop env tw slots f cnt).left.length < slots.length := by
  cases slots with
  | nil => exact (hne rfl).elim
  | cons s0 left =>
      rw [singleLoop, if_pos hroom]
      obtain ⟨done, hslots, -⟩ := singleLoop_enqueued env tw left
        ((f.push (tw.infoOf s0)).vlibValidateBufferEnqueueX1 env (tw.infoOf s0)
          (slotNext env s0)) (cnt + notZero s0)
      have hlen := congrArg List.length hslots
      rw [List.length_append] at hlen
      simp only [List.length_cons]
      omega

/-- The pair loop takes a slot, or leaves the frame and the slots as they are. -/
theorem pairLoop_progress (env : NodeEnv) (tw : SfTwTimer) (slots : List Nat) (f : NextFrame)
    (cnt : Nat) :
    (pairLoop env tw slots f cnt).left.length < slots.length ∨
      pairLoop env tw slots f cnt = ⟨slots, f, cnt⟩ := by
  unfold pairLoop
  split
  · rename_i s0 s1 left
    split
    · left
      obtain ⟨done, hslots, -⟩ := pairLoop_enqueued env tw left
        (((f.push (tw.infoOf s0)).push (tw.infoOf s1)).sfU64ValidateBufferEnqueueX2 env
          (tw.infoOf s0) (tw.infoOf s1) (slotNext env s0) (slotNext env s1))
        (cnt + notZero s0 + notZero s1)
      have hlen := congrArg List.length hslots
      rw [List.length_append] at hlen
      simp only [List.length_cons]
      omega
    · exact .inr rfl
  · exact .inr rfl

/-- The outer loop enqueues every slot, when the frames have room. -/
theorem inputLoop_all (tw : SfTwTimer) (room_pos : ∀ k, 0 < env.room k) (fuel : Nat) (l : InputLoop)
    (hfuel : l.left.length ≤ fuel) (hopen : l.frame.toNext = []) :
    (inputLoop env tw fuel l).left = [] ∧ (inputLoop env tw fuel l).frame.toNext = [] ∧
      (inputLoop env tw fuel l).frame.sent.Perm
        (l.frame.sent ++ l.left.map (slotTarget env tw)) := by
  induction fuel generalizing l with
  | zero =>
      have hnil : l.left = [] := by simpa using hfuel
      simp [inputLoop, hnil, hopen]
  | succ fuel ih =>
      rw [inputLoop]
      split
      · rename_i hnil
        simp [hnil, hopen]
      · rename_i hne
        obtain ⟨f, hf⟩ : ∃ f, f = l.frame.vlibGetNextFrame env l.frame.nextIndex := ⟨_, rfl⟩
        obtain ⟨p, hp⟩ : ∃ p, p = pairLoop env tw l.left f l.notZeroCnt := ⟨_, rfl⟩
        obtain ⟨q, hq⟩ : ∃ q, q = singleLoop env tw p.left p.frame p.notZeroCnt := ⟨_, rfl⟩
        have hpair : Enqueued env tw l.left f p := hp ▸ pairLoop_enqueued ..
        have hsingle : Enqueued env tw p.left p.frame q := hq ▸ singleLoop_enqueued ..
        have hlt : q.left.length < l.left.length := by
          obtain ⟨done, hslots, -⟩ := hsingle
          have hle := congrArg List.length hslots
          rw [List.length_append] at hle
          rcases pairLoop_progress env tw l.left f l.notZeroCnt with h | h
          · rw [← hp] at h
            omega
          · rw [hq, hp, h]
            exact singleLoop_left_lt hne (by rw [hf]; exact room_pos _)
        obtain ⟨done, hslots, hperm⟩ := hpair.trans hsingle
        obtain ⟨hleft, hclosed, hsent⟩ :=
          ih { q with frame := q.frame.vlibPutNextFrame } (by simp only; omega) rfl
        have hstep : ∀ r, r = inputLoop env tw fuel { q with frame := q.frame.vlibPutNextFrame } →
            r.left = [] ∧ r.frame.toNext = [] ∧
              r.frame.sent.Perm (l.frame.sent ++ l.left.map (slotTarget env tw)) := by
          rintro r rfl
          refine ⟨hleft, hclosed, hsent.trans ?_⟩
          have hall : f.all = l.frame.sent := by
            simp [hf, NextFrame.all, NextFrame.vlibGetNextFrame]
          rw [hall] at hperm
          rw [hslots, List.map_append, ← List.append_assoc]
          exact hperm.append_right _
        exact hstep _ (by rw [hq, hp, hf])

/-- `sf_timer_input_internal` enqueues each slot of the chunk once, to the node of its
group. -/
theorem sfTimerInputInternal_sent (tw : SfTwTimer) (room_pos : ∀ k, 0 < env.room k) (c : ChunkId)
    (sent : List (Nat × Nat)) (gets : Nat) :
    (sfTimerInputInternal env tw c sent gets).frame.sent.Perm
      (sent ++ ((List.range (tw.chunk c).currentSlotCnt).map (tw.chunk c).sfTimerSlots).map
        (slotTarget env tw)) := by
  have hall := inputLoop_all tw room_pos
    ((List.range (tw.chunk c).currentSlotCnt).map (tw.chunk c).sfTimerSlots).length
    ⟨_, ⟨sfNextNodeTimerErrorDrop, [], 0, sent, gets⟩, 0⟩ (Nat.le_refl _) rfl
  exact hall.2.2

end Loops

end Tapplet.SfTimer
