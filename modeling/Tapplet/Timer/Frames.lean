import Tapplet.Timer.Exact

/-!
# Frames towards the handlers

The same node on the memory of the frames. The producer writes entries of 8 bytes at
`to_next`, two at a time, and takes them back by moving `to_next`; `written` remembers every
write, also the speculative ones. The runtime gives each handler frames of
`VLIB_FRAME_SIZE` entries of the size that the handler registered, and gives a new one when a
frame is full.
-/

namespace Tapplet.SfTimer

/-- `VLIB_FRAME_SIZE`. -/
def vlibFrameSize : Nat := 256

/-- A frame: the entries as the producer and the handlers index them, 8 bytes each. -/
structure Frame where
  nVectors : Nat
  vec : Nat → Nat

/-- What a handler reads: `frame->n_vectors` pointers from `vlib_frame_vector_args`. -/
def Frame.args (f : Frame) : List Nat := (List.range f.nVectors).map f.vec

/-- The frame that is being filled for each next node, the full ones before it, the writes,
and the variables of the producer. -/
structure Delivery where
  frame : Nat → Frame
  full : List (Nat × Frame)
  written : List (Nat × Nat)
  nextIndex : Nat
  toNext : Nat
  nLeftToNext : Nat

namespace Delivery

/-- `to_next[p] = ptr` in the frame of the next node `k`. -/
def store (d : Delivery) (k p ptr : Nat) : Delivery :=
  { d with
    frame := Function.update d.frame k
      { d.frame k with vec := Function.update (d.frame k).vec p ptr }
    written := d.written ++ [(k, p)] }

/-- Move `to_next` forward over `n` entries. -/
def advance (d : Delivery) (n : Nat) : Delivery :=
  { d with toNext := d.toNext + n, nLeftToNext := d.nLeftToNext - n }

/-- Move `to_next` back over `n` entries. -/
def retract (d : Delivery) (n : Nat) : Delivery :=
  { d with toNext := d.toNext - n, nLeftToNext := d.nLeftToNext + n }

/-- The runtime replaces the frame of `k` when it is full. -/
def renew (d : Delivery) (k : Nat) : Delivery :=
  if (d.frame k).nVectors < vlibFrameSize then d
  else
    { d with
      full := d.full ++ [(k, d.frame k)]
      frame := Function.update d.frame k { d.frame k with nVectors := 0 } }

def vlibGetNextFrame (d : Delivery) (k : Nat) : Delivery :=
  { d.renew k with
    nextIndex := k
    toNext := ((d.renew k).frame k).nVectors
    nLeftToNext := vlibFrameSize - ((d.renew k).frame k).nVectors }

def vlibPutNextFrame (d : Delivery) (k nLeft : Nat) : Delivery :=
  { d with
    frame := Function.update d.frame k { d.frame k with nVectors := vlibFrameSize - nLeft } }

/-- `sf_u64_set_next_frame_buffer`, with its own `p`. -/
def sfU64SetNextFrameBuffer (d : Delivery) (k ptr : Nat) : Delivery :=
  let n := ((d.renew k).frame k).nVectors
  ((d.renew k).vlibPutNextFrame k (vlibFrameSize - n - 1)).store k n ptr

/-- `sf_u64_validate_buffer_enqueue_x2`: both entries are written already. -/
def sfU64ValidateBufferEnqueueX2 (d : Delivery) (bi0 bi1 next0 next1 : Nat) : Delivery :=
  if next0 ≠ d.nextIndex then
    if next1 ≠ d.nextIndex then
      -- A B B or A B C
      let d' := ((d.retract 2).sfU64SetNextFrameBuffer next0 bi0).sfU64SetNextFrameBuffer next1 bi1
      if next0 = next1 then
        (d'.vlibPutNextFrame d'.nextIndex d'.nLeftToNext).vlibGetNextFrame next1
      else d'
    else -- A B A
      ((d.store d.nextIndex (d.toNext - 2) bi1).retract 1).sfU64SetNextFrameBuffer next0 bi0
  else if next1 ≠ d.nextIndex then (d.retract 1).sfU64SetNextFrameBuffer next1 bi1 -- A A B
  else d

/-- `vlib_validate_buffer_enqueue_x1`: the entry is written already. -/
def vlibValidateBufferEnqueueX1 (d : Delivery) (bi0 next0 : Nat) : Delivery :=
  if next0 ≠ d.nextIndex then
    let d' := (d.vlibPutNextFrame d.nextIndex (d.nLeftToNext + 1)).vlibGetNextFrame next0
    (d'.store d'.nextIndex d'.toNext bi0).advance 1
  else d

/-- The producer's variables before its first frame. They are not read. -/
def start (d : Delivery) (k : Nat) : Delivery :=
  { d with
    nextIndex := k
    toNext := (d.frame k).nVectors
    nLeftToNext := vlibFrameSize - (d.frame k).nVectors }

/-- Two entries are written and taken over, before it is known where they belong. -/
def speculateX2 (d : Delivery) (bi0 bi1 : Nat) : Delivery :=
  ((d.store d.nextIndex d.toNext bi0).store d.nextIndex (d.toNext + 1) bi1).advance 2

def speculateX1 (d : Delivery) (bi0 : Nat) : Delivery :=
  (d.store d.nextIndex d.toNext bi0).advance 1

end Delivery

/-- The loop over pairs of slots: the slots that are left, and the frames. The count of the
timers that are not stopped is that of `pairLoop`. -/
def framePairLoop (env : NodeEnv) (tw : SfTwTimer) : List Nat → Delivery → List Nat × Delivery
  | s0 :: s1 :: left, d =>
      if 2 ≤ d.nLeftToNext then
        framePairLoop env tw left
          ((d.speculateX2 (tw.infoOf s0) (tw.infoOf s1)).sfU64ValidateBufferEnqueueX2
            (tw.infoOf s0) (tw.infoOf s1) (slotNext env s0) (slotNext env s1))
      else (s0 :: s1 :: left, d)
  | left, d => (left, d)

/-- The loop over single slots. -/
def frameSingleLoop (env : NodeEnv) (tw : SfTwTimer) : List Nat → Delivery → List Nat × Delivery
  | s0 :: left, d =>
      if 0 < d.nLeftToNext then
        frameSingleLoop env tw left
          ((d.speculateX1 (tw.infoOf s0)).vlibValidateBufferEnqueueX1 (tw.infoOf s0)
            (slotNext env s0))
      else (s0 :: left, d)
  | [], d => ([], d)

/-- The outer loop, for at most `fuel` frames. -/
def frameLoop (env : NodeEnv) (tw : SfTwTimer) : Nat → List Nat → Delivery → List Nat × Delivery
  | 0, slots, d => (slots, d)
  | fuel + 1, slots, d =>
      if slots = [] then (slots, d)
      else
        let p := framePairLoop env tw slots (d.vlibGetNextFrame d.nextIndex)
        let q := frameSingleLoop env tw p.1 p.2
        frameLoop env tw fuel q.1 (q.2.vlibPutNextFrame q.2.nextIndex q.2.nLeftToNext)

/-- `sf_timer_input_internal` on the slots of a chunk, with the frames as the earlier chunks
left them. A frame takes at least one slot, so as many rounds as slots are enough. -/
def deliverSlots (env : NodeEnv) (tw : SfTwTimer) (slots : List Nat) (d : Delivery) :
    List Nat × Delivery :=
  frameLoop env tw slots.length slots (d.start sfNextNodeTimerErrorDrop)

/-- The chunks that a call of the node takes, one after the other. -/
def deliverChunks (env : NodeEnv) (tw : SfTwTimer) (chunks : List (List Nat)) (d : Delivery) :
    Delivery :=
  chunks.foldl (fun d slots => (deliverSlots env tw slots d).2) d

/-! ## Registrations -/

/-- The nodes that timers are delivered to. -/
inductive Handler where
  | sfTimerErrorDrop
  | ipReassOnTimer
  | sfTestOnTime
  deriving DecidableEq

/-- `.vector_size` of the registration, in bytes. -/
def Handler.vectorSize : Handler → Nat
  | .sfTimerErrorDrop => 8
  | .ipReassOnTimer => 4
  | .sfTestOnTime => 8

/-- The bytes of a frame that are there for entries of the handler. -/
def Handler.vectorArea (h : Handler) (padding : Nat) : Nat := vlibFrameSize * h.vectorSize + padding

/-- `sizeof(uint64_t)`, the size of an entry for the producer and for the handlers. -/
def entrySize : Nat := 8

/-- The frames when the node is called. -/
def Delivery.ofFrames (frame : Nat → Frame) (full : List (Nat × Frame)) : Delivery :=
  Delivery.start ⟨frame, full, [], 0, 0, 0⟩ sfNextNodeTimerErrorDrop

/-- What the handler behind the next node `k` reads, frame after frame. -/
def Delivery.received (d : Delivery) (k : Nat) : List Nat :=
  (d.full.filter fun x => x.1 = k).flatMap (fun x => x.2.args) ++ (d.frame k).args

/-- Every entry that is written towards the handler behind `k` lies in the vector area of its
frame, and the handler reads the pointers of its slots, in order. -/
structure Inside (env : NodeEnv) (tw : SfTwTimer) (handler : Handler) (padding k : Nat)
    (d : Delivery) (chunks : List (List Nat)) : Prop where
  written : ∀ p, (k, p) ∈ (deliverChunks env tw chunks d).written →
    entrySize * p + entrySize ≤ handler.vectorArea padding
  received : (deliverChunks env tw chunks d).received k = d.received k ++
    (chunks.flatten.filter fun data => slotNext env data = k).map tw.infoOf

/-! ## What an operation delivers -/

namespace Delivery

variable {d d' d'' : Delivery} {k n m p ptr : Nat} {new new' : List (Nat × Nat)}

/-- The first `n` entries for `k`, those of the full frames and those of the last one. -/
def heldUpTo (d : Delivery) (k n : Nat) : List Nat :=
  (d.full.filter fun x => x.1 = k).flatMap (fun x => x.2.args) ++
    (List.range n).map (d.frame k).vec

/-- The number of entries in the frame of `k`, those of the open frame up to `to_next`. -/
def count (d : Delivery) (k : Nat) : Nat :=
  if k = d.nextIndex then d.toNext else (d.frame k).nVectors

/-- The entries for `k`, in order. -/
def held (d : Delivery) (k : Nat) : List Nat := d.heldUpTo k (d.count k)

/-- The pointers of `new` that are for `k`. -/
def towards (new : List (Nat × Nat)) (k : Nat) : List Nat :=
  (new.filter fun x => x.1 = k).map (·.2)

/-- The producer's variables are about its frame, and no frame is fuller than full. -/
structure Ok (d : Delivery) : Prop where
  room : d.toNext + d.nLeftToNext = vlibFrameSize
  fits : ∀ k, (d.frame k).nVectors ≤ vlibFrameSize

/-- The open frame has been put back. -/
def Closed (d : Delivery) : Prop := (d.frame d.nextIndex).nVectors = d.toNext

/-- `new` was delivered from `d` to `d'`, each pointer behind those that are there for its node
already. Besides the entries of the pointers only entries less than `n` further than the
end of a frame were written, and none without a pointer. -/
structure Delivers (n : Nat) (new : List (Nat × Nat)) (d d' : Delivery) : Prop where
  ok : d'.Ok
  held : ∀ k, d'.held k = d.held k ++ towards new k
  count : ∀ k, d'.count k % vlibFrameSize = (d.count k + (towards new k).length) % vlibFrameSize
  written : ∃ log, d'.written = d.written ++ log ∧
    (∀ w ∈ log, 0 < n ∧ w.2 < vlibFrameSize ∧ w.2 < d.count w.1 % vlibFrameSize + n) ∧
    ∀ k, ∀ j < (towards new k).length, (k, (d.count k + j) % vlibFrameSize) ∈ log

theorem towards_append (new new' : List (Nat × Nat)) (k : Nat) :
    towards (new ++ new') k = towards new k ++ towards new' k := by
  simp [towards]

theorem towards_length_le (new : List (Nat × Nat)) (k : Nat) :
    (towards new k).length ≤ new.length := by
  rw [towards, List.length_map]
  exact List.length_filter_le ..

theorem Delivers.refl (ok : d.Ok) : Delivers 0 [] d d :=
  ⟨ok, fun _ => (List.append_nil _).symm, fun _ => rfl, [], (List.append_nil _).symm, by simp,
    fun _ _ hj => absurd hj (Nat.not_lt_zero _)⟩

theorem Delivers.trans {N : Nat} (h : Delivers n new d d') (h' : Delivers m new' d' d'')
    (hn : n ≤ N) (hm : new.length + m ≤ N) : Delivers N (new ++ new') d d'' := by
  obtain ⟨log, hlog, hbound, hcover⟩ := h.written
  obtain ⟨log', hlog', hbound', hcover'⟩ := h'.written
  refine ⟨h'.ok, fun k => ?_, fun k => ?_, log ++ log', ?_, fun w hw => ?_, fun k j hj => ?_⟩
  · rw [h'.held, h.held, towards_append, List.append_assoc]
  · rw [h'.count, Nat.add_mod, h.count, ← Nat.add_mod, towards_append, List.length_append,
      Nat.add_assoc]
  · rw [hlog', hlog, List.append_assoc]
  · rcases List.mem_append.mp hw with hw | hw
    · obtain ⟨hpos, hlt, hle⟩ := hbound w hw
      exact ⟨by omega, hlt, by omega⟩
    · obtain ⟨hpos, hlt, hle⟩ := hbound' w hw
      have hcount := h.count w.1
      have hlen := towards_length_le new w.1
      have hmod : (d.count w.1 + (towards new w.1).length) % vlibFrameSize ≤
          d.count w.1 % vlibFrameSize + (towards new w.1).length := by
        rw [← Nat.mod_add_mod]
        exact Nat.mod_le ..
      exact ⟨by omega, hlt, by omega⟩
  · rw [towards_append, List.length_append] at hj
    rcases Nat.lt_or_ge j (towards new k).length with hlt | hge
    · exact List.mem_append_left _ (hcover k j hlt)
    · have hmem := hcover' k (j - (towards new k).length) (by omega)
      rw [Nat.add_mod, h.count, ← Nat.add_mod, Nat.add_assoc, Nat.add_sub_cancel' hge] at hmem
      exact List.mem_append_right _ hmem

/-! ## The frames of the runtime -/

theorem store_frame (d : Delivery) (k p ptr j : Nat) :
    (d.store k p ptr).frame j =
      if j = k then { d.frame k with vec := Function.update (d.frame k).vec p ptr }
      else d.frame j :=
  Function.update_apply ..

theorem put_frame (d : Delivery) (k nLeft j : Nat) :
    (d.vlibPutNextFrame k nLeft).frame j =
      if j = k then { d.frame k with nVectors := vlibFrameSize - nLeft } else d.frame j :=
  Function.update_apply ..

/-- The renewal of a frame keeps the entries, and leaves room in it. -/
theorem renew_heldUpTo (d : Delivery) (k j : Nat) :
    (d.renew k).heldUpTo j ((d.renew k).frame j).nVectors =
      d.heldUpTo j (d.frame j).nVectors := by
  unfold renew
  split
  · rfl
  · by_cases hj : j = k
    · subst hj
      simp [heldUpTo, Frame.args]
    · simp [heldUpTo, Function.update_of_ne hj, Ne.symm hj]

theorem renew_fits (fits : ∀ k, (d.frame k).nVectors ≤ vlibFrameSize) (k j : Nat) :
    ((d.renew k).frame j).nVectors ≤ vlibFrameSize := by
  unfold renew
  split
  · exact fits j
  · by_cases hj : j = k
    · subst hj
      simp
    · simp [Function.update_of_ne hj, fits j]

theorem renew_lt (d : Delivery) (k : Nat) :
    ((d.renew k).frame k).nVectors < vlibFrameSize := by
  unfold renew
  split
  · assumption
  · simp [vlibFrameSize]

theorem renew_mod (fits : ∀ k, (d.frame k).nVectors ≤ vlibFrameSize) (k j : Nat) :
    ((d.renew k).frame j).nVectors % vlibFrameSize = (d.frame j).nVectors % vlibFrameSize := by
  unfold renew
  split
  · rfl
  · rename_i hfull
    by_cases hj : j = k
    · subst hj
      have hsize := Nat.le_antisymm (fits j) (Nat.not_lt.mp hfull)
      simp [hsize]
    · simp [Function.update_of_ne hj]

theorem renew_of_ne (d : Delivery) {k j : Nat} (hj : j ≠ k) : (d.renew k).frame j = d.frame j := by
  unfold renew
  split
  · rfl
  · exact Function.update_of_ne hj ..

@[simp] theorem renew_written (d : Delivery) (k : Nat) : (d.renew k).written = d.written := by
  unfold renew
  split <;> rfl

@[simp] theorem renew_nextIndex (d : Delivery) (k : Nat) : (d.renew k).nextIndex = d.nextIndex := by
  unfold renew
  split <;> rfl

@[simp] theorem renew_toNext (d : Delivery) (k : Nat) : (d.renew k).toNext = d.toNext := by
  unfold renew
  split <;> rfl

@[simp] theorem renew_nLeftToNext (d : Delivery) (k : Nat) :
    (d.renew k).nLeftToNext = d.nLeftToNext := by
  unfold renew
  split <;> rfl

theorem Closed.count (h : d.Closed) (k : Nat) : d.count k = (d.frame k).nVectors := by
  unfold Delivery.count
  split
  next hk => rw [hk, h]
  next => rfl

theorem count_of_ne (hk : k ≠ d.nextIndex) : d.count k = (d.frame k).nVectors := if_neg hk

/-- `vlib_get_next_frame` opens a frame that has room. -/
theorem Delivers.get (ok : d.Ok) (hclosed : d.Closed) (k : Nat) :
    Delivers 0 [] d (d.vlibGetNextFrame k) := by
  have hcount : ∀ j, (d.vlibGetNextFrame k).count j = ((d.renew k).frame j).nVectors := by
    intro j
    unfold Delivery.count vlibGetNextFrame
    dsimp only
    split
    next hj => rw [hj]
    next => rfl
  refine ⟨⟨?_, renew_fits ok.fits k⟩, fun j => ?_, fun j => ?_, [], ?_, by simp, ?_⟩
  · exact Nat.add_sub_cancel' (Nat.le_of_lt (renew_lt d k))
  · rw [Delivery.held, Delivery.held, hcount, hclosed.count, ← renew_heldUpTo d k j]
    exact (List.append_nil _).symm
  · rw [hcount, hclosed.count, renew_mod ok.fits]
    rfl
  · simp [vlibGetNextFrame]
  · exact fun _ _ hj => absurd hj (Nat.not_lt_zero _)

theorem get_room (d : Delivery) (k : Nat) : 0 < (d.vlibGetNextFrame k).nLeftToNext :=
  Nat.sub_pos_of_lt (renew_lt d k)

/-- The variables of the producer are overwritten. -/
theorem get_congr (d' d : Delivery) (hframe : d'.frame = d.frame) (hfull : d'.full = d.full)
    (hwritten : d'.written = d.written) (k : Nat) :
    d'.vlibGetNextFrame k = d.vlibGetNextFrame k := by
  unfold vlibGetNextFrame renew
  rw [hframe, hfull]
  split <;> simp only [hframe, hfull, hwritten]

/-- `vlib_put_next_frame` closes the open frame. -/
theorem Delivers.put (ok : d.Ok) :
    Delivers 0 [] d (d.vlibPutNextFrame d.nextIndex d.nLeftToNext) ∧
      (d.vlibPutNextFrame d.nextIndex d.nLeftToNext).Closed := by
  have hroom := ok.room
  have hvec : ∀ j, ((d.vlibPutNextFrame d.nextIndex d.nLeftToNext).frame j).vec =
      (d.frame j).vec := by
    intro j
    rw [put_frame]
    split
    next hj => rw [hj]
    next => rfl
  have hcount : ∀ j, (d.vlibPutNextFrame d.nextIndex d.nLeftToNext).count j = d.count j := by
    intro j
    unfold Delivery.count
    by_cases hj : j = d.nextIndex
    · rw [if_pos hj]
      exact if_pos hj
    · rw [if_neg hj, put_frame, if_neg hj]
      exact if_neg hj
  refine ⟨⟨⟨hroom, fun j => ?_⟩, fun j => ?_, fun j => ?_, [], ?_, by simp, ?_⟩, ?_⟩
  · rw [put_frame]
    split
    · exact Nat.sub_le ..
    · exact ok.fits j
  · rw [Delivery.held, Delivery.held, hcount, heldUpTo, heldUpTo, hvec]
    exact (List.append_nil _).symm
  · rw [hcount]
    rfl
  · exact (List.append_nil _).symm
  · exact fun _ _ hj => absurd hj (Nat.not_lt_zero _)
  · rw [Closed, put_frame]
    refine (congrArg Frame.nVectors (if_pos rfl)).trans ?_
    show vlibFrameSize - d.nLeftToNext = d.toNext
    omega

/-! ## Entries -/

theorem count_store (k p ptr j : Nat) : (d.store k p ptr).count j = d.count j := by
  unfold Delivery.count
  refine if_congr Iff.rfl rfl ?_
  rw [store_frame]
  split
  next hj => rw [hj]
  next => rfl

theorem advance_count_of_ne (d : Delivery) (n : Nat) (hk : k ≠ d.nextIndex) :
    (d.advance n).count k = d.count k := by
  rw [count_of_ne hk]
  exact if_neg hk

theorem advance_heldUpTo (d : Delivery) (n k m : Nat) :
    (d.advance n).heldUpTo k m = d.heldUpTo k m := rfl

theorem store_fits (ok : d.Ok) (k p ptr : Nat) : (d.store k p ptr).Ok := by
  refine ⟨ok.room, fun j => ?_⟩
  rw [store_frame]
  split
  · exact ok.fits k
  · exact ok.fits j

theorem heldUpTo_congr (hfull : d'.full = d.full) (hvec : (d'.frame k).vec = (d.frame k).vec) :
    d'.heldUpTo k n = d.heldUpTo k n := by
  rw [heldUpTo, heldUpTo, hfull, hvec]

/-- A write behind the entries of a frame leaves them alone. -/
theorem heldUpTo_store {j : Nat} (hj : j = k → n ≤ p) :
    (d.store k p ptr).heldUpTo j n = d.heldUpTo j n := by
  refine congrArg _ (List.map_congr_left fun x hx => ?_)
  rw [store_frame]
  split
  next hjk =>
    have hx := List.mem_range.mp hx
    have hlt := hj hjk
    rw [hjk]
    exact Function.update_of_ne (by omega) ..
  next => rfl

/-- A write at the end of a frame makes a next entry of it. -/
theorem heldUpTo_store_succ (d : Delivery) (k n ptr : Nat) :
    (d.store k n ptr).heldUpTo k (n + 1) = d.heldUpTo k n ++ [ptr] := by
  have hold : (d.store k n ptr).heldUpTo k n = d.heldUpTo k n :=
    heldUpTo_store fun _ => Nat.le_refl n
  have hlast : ((d.store k n ptr).frame k).vec n = ptr := by
    rw [store_frame, if_pos rfl]
    exact Function.update_self ..
  rw [← hold, heldUpTo, heldUpTo, List.range_succ, List.map_append, ← List.append_assoc,
    List.map_singleton, hlast]

theorem towards_singleton (k ptr j : Nat) :
    towards [(k, ptr)] j = if j = k then [ptr] else [] := by
  by_cases hj : j = k
  · simp [towards, hj]
  · simp [towards, hj, Ne.symm hj]

/-- Only the order of the pointers for each node matters. -/
theorem Delivers.congr (h : Delivers n new d d') (same : ∀ k, towards new' k = towards new k) :
    Delivers n new' d d' := by
  refine ⟨h.ok, fun k => ?_, fun k => ?_, ?_⟩
  · rw [same, h.held]
  · rw [same, h.count]
  · simpa only [same] using h.written

/-- A speculative write that is taken back. -/
theorem Delivers.scratch (ok : d.Ok) (ptr : Nat) (hle : d.toNext ≤ p) (hlt : p < vlibFrameSize)
    (hn : p < d.toNext + n) : Delivers n [] d (d.store d.nextIndex p ptr) := by
  have hself : d.count d.nextIndex = d.toNext := if_pos rfl
  refine ⟨store_fits ok .., fun k => ?_, fun k => ?_, [(d.nextIndex, p)], rfl, ?_, ?_⟩
  · rw [Delivery.held, Delivery.held, count_store, heldUpTo_store]
    · exact (List.append_nil _).symm
    · rintro rfl
      rwa [hself]
  · rw [count_store]
    rfl
  · intro w hw
    obtain rfl := List.mem_singleton.mp hw
    rw [hself, Nat.mod_eq_of_lt (Nat.lt_of_le_of_lt hle hlt)]
    exact ⟨by omega, hlt, hn⟩
  · exact fun _ _ hj => absurd hj (Nat.not_lt_zero _)

/-- A write at `to_next` that is kept. -/
theorem Delivers.fill (ok : d.Ok) (ptr : Nat) (hroom : 0 < d.nLeftToNext) :
    Delivers 1 [(d.nextIndex, ptr)] d ((d.store d.nextIndex d.toNext ptr).advance 1) := by
  have hsize := ok.room
  have hself : d.count d.nextIndex = d.toNext := if_pos rfl
  have hlt : d.toNext < vlibFrameSize := by omega
  have hcount : ∀ k, ((d.store d.nextIndex d.toNext ptr).advance 1).count k =
      if k = d.nextIndex then d.toNext + 1 else d.count k := by
    intro k
    by_cases hk : k = d.nextIndex
    · rw [if_pos hk]
      exact if_pos hk
    · rw [if_neg hk]
      exact (advance_count_of_ne (d.store d.nextIndex d.toNext ptr) 1 hk).trans (count_store ..)
  refine ⟨⟨?_, (store_fits ok d.nextIndex d.toNext ptr).fits⟩, fun k => ?_, fun k => ?_,
    [(d.nextIndex, d.toNext)], rfl, ?_, ?_⟩
  · show d.toNext + 1 + (d.nLeftToNext - 1) = vlibFrameSize
    omega
  · rw [Delivery.held, Delivery.held, hcount, towards_singleton, advance_heldUpTo]
    by_cases hk : k = d.nextIndex
    · subst hk
      rw [if_pos rfl, if_pos rfl, hself, heldUpTo_store_succ]
    · rw [if_neg hk, if_neg hk, List.append_nil, heldUpTo_store fun h => absurd h hk]
  · rw [hcount, towards_singleton]
    by_cases hk : k = d.nextIndex
    · rw [if_pos hk, if_pos hk, hk, hself]
      rfl
    · rw [if_neg hk, if_neg hk]
      rfl
  · intro w hw
    obtain rfl := List.mem_singleton.mp hw
    rw [hself, Nat.mod_eq_of_lt hlt]
    exact ⟨Nat.one_pos, hlt, Nat.lt_succ_self _⟩
  · intro k j hj
    rw [towards_singleton] at hj
    by_cases hk : k = d.nextIndex
    · rw [if_pos hk, List.length_singleton, Nat.lt_one_iff] at hj
      rw [hk, hj, hself, Nat.add_zero, Nat.mod_eq_of_lt hlt]
      exact List.mem_singleton_self _
    · rw [if_neg hk] at hj
      exact absurd hj (Nat.not_lt_zero _)

/-- `sf_u64_set_next_frame_buffer` to a node other than the open one. -/
theorem Delivers.setNext (ok : d.Ok) (ptr : Nat) (hk : k ≠ d.nextIndex) :
    Delivers 1 [(k, ptr)] d (d.sfU64SetNextFrameBuffer k ptr) := by
  obtain ⟨n, hn⟩ : ∃ n, n = ((d.renew k).frame k).nVectors := ⟨_, rfl⟩
  have hlt : n < vlibFrameSize := hn ▸ renew_lt d k
  have hmod : d.count k % vlibFrameSize = n := by
    rw [count_of_ne hk, ← renew_mod ok.fits k k, ← hn, Nat.mod_eq_of_lt hlt]
  obtain ⟨e, he⟩ : ∃ e, e = (d.renew k).vlibPutNextFrame k (vlibFrameSize - n - 1) := ⟨_, rfl⟩
  have hset : d.sfU64SetNextFrameBuffer k ptr = e.store k n ptr := by
    rw [sfU64SetNextFrameBuffer, ← hn, he]
  have hvec : ∀ j, (e.frame j).vec = ((d.renew k).frame j).vec := by
    intro j
    rw [he, put_frame]
    split
    next hj => rw [hj]
    next => rfl
  have hnext : e.nextIndex = d.nextIndex := by rw [he]; exact renew_nextIndex d k
  have hvectors : (e.frame k).nVectors = n + 1 := by
    rw [he, put_frame, if_pos rfl]
    show vlibFrameSize - (vlibFrameSize - n - 1) = n + 1
    omega
  have hother : ∀ j, j ≠ k → (e.frame j).nVectors = (d.frame j).nVectors := by
    intro j hj
    rw [he, put_frame, if_neg hj, renew_of_ne d hj]
  have hcount : ∀ j, e.count j = if j = k then n + 1 else d.count j := by
    intro j
    by_cases hj : j = k
    · rw [if_pos hj, hj, count_of_ne (hnext.symm ▸ hk), hvectors]
    · rw [if_neg hj]
      unfold Delivery.count
      rw [hnext, hother j hj, he]
      exact if_congr Iff.rfl (renew_toNext d k) rfl
  have hheld : ∀ j m, j ≠ k → e.heldUpTo j m = d.heldUpTo j m := by
    intro j m hj
    have hrenew : (d.renew k).heldUpTo j m = d.heldUpTo j m := by
      have hfull : (d.renew k).full.filter (fun x => x.1 = j) = d.full.filter fun x => x.1 = j := by
        unfold renew
        split
        · rfl
        · simp [Ne.symm hj]
      rw [heldUpTo, heldUpTo, hfull, renew_of_ne d hj]
    rw [← hrenew]
    exact heldUpTo_congr (by rw [he]; rfl) (hvec j)
  have hself : e.heldUpTo k n = d.held k := by
    have hrenew := renew_heldUpTo d k k
    rw [← hn, ← count_of_ne hk] at hrenew
    rw [Delivery.held, ← hrenew]
    exact heldUpTo_congr (by rw [he]; rfl) (hvec k)
  have hok : e.Ok := by
    refine ⟨?_, fun j => ?_⟩
    · have hsize := ok.room
      rw [he]
      simpa [vlibPutNextFrame] using hsize
    · by_cases hj : j = k
      · rw [hj, hvectors]
        exact hlt
      · rw [hother j hj]
        exact ok.fits j
  rw [hset]
  refine ⟨store_fits hok .., fun j => ?_, fun j => ?_, [(k, n)], ?_, ?_, ?_⟩
  · rw [Delivery.held, count_store, hcount, towards_singleton]
    by_cases hj : j = k
    · subst hj
      rw [if_pos rfl, if_pos rfl, heldUpTo_store_succ, hself]
    · rw [if_neg hj, if_neg hj, List.append_nil, heldUpTo_store fun h => absurd h hj, hheld j _ hj]
      rfl
  · rw [count_store, hcount, towards_singleton]
    by_cases hj : j = k
    · rw [if_pos hj, if_pos hj, hj, ← hmod, Nat.mod_add_mod]
      rfl
    · rw [if_neg hj, if_neg hj]
      rfl
  · have hwritten : e.written = d.written := by
      rw [he]
      exact renew_written d k
    rw [← hwritten]
    rfl
  · intro w hw
    obtain rfl := List.mem_singleton.mp hw
    rw [hmod]
    exact ⟨Nat.one_pos, hlt, Nat.lt_succ_self _⟩
  · intro j i hi
    rw [towards_singleton] at hi
    by_cases hj : j = k
    · rw [if_pos hj, List.length_singleton, Nat.lt_one_iff] at hi
      rw [hj, hi, Nat.add_zero, hmod]
      exact List.mem_singleton_self _
    · rw [if_neg hj] at hi
      exact absurd hi (Nat.not_lt_zero _)

@[simp] theorem setNext_nextIndex (d : Delivery) (k ptr : Nat) :
    (d.sfU64SetNextFrameBuffer k ptr).nextIndex = d.nextIndex := renew_nextIndex d k

@[simp] theorem setNext_nLeftToNext (d : Delivery) (k ptr : Nat) :
    (d.sfU64SetNextFrameBuffer k ptr).nLeftToNext = d.nLeftToNext := renew_nLeftToNext d k

/-! ## The macros -/

/-- The open frame is put back and another one opened. -/
theorem Delivers.switch (ok : d.Ok) (k : Nat) :
    Delivers 0 [] d ((d.vlibPutNextFrame d.nextIndex d.nLeftToNext).vlibGetNextFrame k) := by
  obtain ⟨hput, hclosed⟩ := Delivers.put ok
  exact hput.trans (.get hput.ok hclosed k) (Nat.le_refl 0) (Nat.le_refl 0)

/-- The speculative writes of a pair, when both are taken back. -/
theorem speculateX2_retract_two (d : Delivery) (bi0 bi1 : Nat) (hroom : 2 ≤ d.nLeftToNext) :
    (d.speculateX2 bi0 bi1).retract 2 =
      (d.store d.nextIndex d.toNext bi0).store d.nextIndex (d.toNext + 1) bi1 := by
  simp only [speculateX2, retract, advance, store, mk.injEq, true_and]
  omega

/-- The speculative writes of a pair, when the second one is taken back. -/
theorem speculateX2_retract_one (d : Delivery) (bi0 bi1 : Nat) (hroom : 2 ≤ d.nLeftToNext) :
    (d.speculateX2 bi0 bi1).retract 1 =
      ((d.store d.nextIndex d.toNext bi0).advance 1).store d.nextIndex (d.toNext + 1) bi1 := by
  simp only [speculateX2, retract, advance, store, mk.injEq, true_and]
  omega

/-- The speculative writes of a pair, when the second one moves to the place of the first. -/
theorem speculateX2_replace (d : Delivery) (bi0 bi1 : Nat) (hroom : 2 ≤ d.nLeftToNext) :
    ((d.speculateX2 bi0 bi1).store d.nextIndex (d.toNext + 2 - 2) bi1).retract 1 =
      (((d.store d.nextIndex d.toNext bi0).store d.nextIndex (d.toNext + 1) bi1).store
        d.nextIndex d.toNext bi1).advance 1 := by
  simp only [speculateX2, retract, advance, store, mk.injEq, true_and, Nat.add_sub_cancel]
  omega

/-- Two entries go where they belong. -/
theorem Delivers.pair (ok : d.Ok) (bi0 bi1 next0 next1 : Nat) (hroom : 2 ≤ d.nLeftToNext) :
    Delivers 2 [(next0, bi0), (next1, bi1)] d
      ((d.speculateX2 bi0 bi1).sfU64ValidateBufferEnqueueX2 bi0 bi1 next0 next1) := by
  have hsize := ok.room
  have hnext : (d.speculateX2 bi0 bi1).nextIndex = d.nextIndex := rfl
  have hkept := Delivers.fill ok bi0 (Nat.lt_of_lt_of_le Nat.two_pos hroom)
  have hroom' : 0 < ((d.store d.nextIndex d.toNext bi0).advance 1).nLeftToNext :=
    Nat.sub_pos_of_lt hroom
  have hscratch : Delivers 2 []
      d ((d.store d.nextIndex d.toNext bi0).store d.nextIndex (d.toNext + 1) bi1) := by
    have hfirst : Delivers 2 [] d (d.store d.nextIndex d.toNext bi0) :=
      .scratch ok bi0 (Nat.le_refl _) (by omega) (by omega)
    exact hfirst.trans (n := 2) (m := 2) (.scratch hfirst.ok bi1 (Nat.le_succ _)
      (show d.toNext + 1 < vlibFrameSize by omega) (Nat.lt_succ_self _)) (Nat.le_refl 2)
      (Nat.le_refl 2)
  by_cases h0 : next0 = d.nextIndex
  · by_cases h1 : next1 = d.nextIndex
    · have hcode : (d.speculateX2 bi0 bi1).sfU64ValidateBufferEnqueueX2 bi0 bi1 next0 next1 =
          d.speculateX2 bi0 bi1 := by
        rw [sfU64ValidateBufferEnqueueX2, hnext, if_neg (not_not.mpr h0), if_neg (not_not.mpr h1)]
      rw [hcode, h0, h1]
      exact hkept.trans (.fill hkept.ok bi1 hroom') (Nat.le_succ 1) (Nat.le_refl 2)
    · have hcode : (d.speculateX2 bi0 bi1).sfU64ValidateBufferEnqueueX2 bi0 bi1 next0 next1 =
          ((d.speculateX2 bi0 bi1).retract 1).sfU64SetNextFrameBuffer next1 bi1 := by
        rw [sfU64ValidateBufferEnqueueX2, hnext, if_neg (not_not.mpr h0), if_pos h1]
      have htwo : Delivers 2 [(next0, bi0)] d ((d.speculateX2 bi0 bi1).retract 1) := by
        rw [speculateX2_retract_one d bi0 bi1 hroom, h0]
        exact hkept.trans (n := 1) (m := 1) (.scratch hkept.ok bi1 (Nat.le_refl _)
          (show d.toNext + 1 < vlibFrameSize by omega) (Nat.lt_succ_self _)) (Nat.le_succ 1)
          (Nat.le_refl 2)
      rw [hcode]
      exact htwo.trans (.setNext htwo.ok bi1 h1) (Nat.le_refl 2) (Nat.le_refl 2)
  · by_cases h1 : next1 = d.nextIndex
    · have hcode : (d.speculateX2 bi0 bi1).sfU64ValidateBufferEnqueueX2 bi0 bi1 next0 next1 =
          (((d.speculateX2 bi0 bi1).store d.nextIndex (d.toNext + 2 - 2) bi1).retract
            1).sfU64SetNextFrameBuffer next0 bi0 := by
        rw [sfU64ValidateBufferEnqueueX2, hnext, if_pos h0, if_neg (not_not.mpr h1)]
        rfl
      rw [hcode, speculateX2_replace d bi0 bi1 hroom, h1]
      have hfill : Delivers 2 [(d.nextIndex, bi1)] d _ :=
        hscratch.trans (.fill hscratch.ok bi1 (Nat.lt_of_lt_of_le Nat.two_pos hroom))
          (Nat.le_refl 2) (Nat.le_succ 1)
      refine (hfill.trans (.setNext hfill.ok bi0 h0) (Nat.le_refl 2) (Nat.le_refl 2)).congr ?_
      -- the two are for different nodes, so it does not matter which goes first
      intro k
      by_cases hk : k = d.nextIndex
      · simp [towards, hk, h0]
      · by_cases hk0 : next0 = k <;> simp [towards, Ne.symm hk, hk0]
    · obtain ⟨e, he⟩ : ∃ e, e = (((d.speculateX2 bi0 bi1).retract 2).sfU64SetNextFrameBuffer next0
          bi0).sfU64SetNextFrameBuffer next1 bi1 := ⟨_, rfl⟩
      have hcode : (d.speculateX2 bi0 bi1).sfU64ValidateBufferEnqueueX2 bi0 bi1 next0 next1 =
          if next0 = next1 then
            (e.vlibPutNextFrame e.nextIndex e.nLeftToNext).vlibGetNextFrame next1
          else e := by
        rw [sfU64ValidateBufferEnqueueX2, hnext, if_pos h0, if_pos h1, he]
      have hboth : Delivers 2 [(next0, bi0), (next1, bi1)] d e := by
        rw [← speculateX2_retract_two d bi0 bi1 hroom] at hscratch
        have hfirst := hscratch.trans (.setNext hscratch.ok bi0 h0) (Nat.le_refl 2) (Nat.le_succ 1)
        rw [he]
        refine hfirst.trans (.setNext hfirst.ok bi1 ?_) (Nat.le_refl 2) (Nat.le_refl 2)
        rw [setNext_nextIndex]
        exact h1
      rw [hcode]
      split
      · exact hboth.trans (.switch hboth.ok next1) (Nat.le_refl 2) (Nat.le_refl 2)
      · exact hboth

/-- One entry goes where it belongs. -/
theorem Delivers.single (ok : d.Ok) (bi0 next0 : Nat) (hroom : 0 < d.nLeftToNext) :
    Delivers 1 [(next0, bi0)] d
      ((d.speculateX1 bi0).vlibValidateBufferEnqueueX1 bi0 next0) := by
  have hsize := ok.room
  have hnext : (d.speculateX1 bi0).nextIndex = d.nextIndex := rfl
  by_cases h0 : next0 = d.nextIndex
  · rw [vlibValidateBufferEnqueueX1, hnext, if_neg (not_not.mpr h0), h0]
    exact .fill ok bi0 hroom
  · rw [vlibValidateBufferEnqueueX1, hnext, if_pos h0]
    have hscratch : Delivers 1 [] d (d.store d.nextIndex d.toNext bi0) :=
      .scratch ok bi0 (Nat.le_refl _) (by omega) (Nat.lt_succ_self _)
    -- the entry is taken back by the number of free entries that the frame is put back with
    have hback : (d.speculateX1 bi0).nLeftToNext + 1 =
        (d.store d.nextIndex d.toNext bi0).nLeftToNext := Nat.sub_add_cancel hroom
    have hget : ((d.speculateX1 bi0).vlibPutNextFrame d.nextIndex
        ((d.speculateX1 bi0).nLeftToNext + 1)).vlibGetNextFrame next0 =
        ((d.store d.nextIndex d.toNext bi0).vlibPutNextFrame d.nextIndex
          (d.store d.nextIndex d.toNext bi0).nLeftToNext).vlibGetNextFrame next0 := by
      rw [hback]
      exact get_congr ((d.speculateX1 bi0).vlibPutNextFrame d.nextIndex _)
        ((d.store d.nextIndex d.toNext bi0).vlibPutNextFrame d.nextIndex _) rfl rfl rfl next0
    rw [hget]
    have hopen := hscratch.trans (.switch hscratch.ok next0) (Nat.le_refl 1) (Nat.zero_le 1)
    exact hopen.trans (.fill hopen.ok bi0 (get_room _ next0)) (Nat.le_refl 1) (Nat.le_refl 1)

/-! ## The loops -/

/-- A frame at rest. -/
structure Rest (d : Delivery) : Prop where
  ok : d.Ok
  closed : d.Closed

/-- The chunks and their loops start at the error node. -/
theorem Rest.start (h : d.Rest) (k : Nat) : Delivers 0 [] d (d.start k) ∧ (d.start k).Closed := by
  have hcount : ∀ j, (d.start k).count j = d.count j := by
    intro j
    rw [h.closed.count]
    exact (show (d.start k).Closed from rfl).count j
  refine ⟨⟨⟨Nat.add_sub_cancel' (h.ok.fits k), h.ok.fits⟩, fun j => ?_, fun j => ?_, [],
    (List.append_nil _).symm, by simp, fun _ _ hj => absurd hj (Nat.not_lt_zero _)⟩, rfl⟩
  · rw [Delivery.held, hcount]
    exact (List.append_nil _).symm
  · rw [hcount]
    rfl

variable (env : NodeEnv) (tw : SfTwTimer)

theorem framePairLoop_delivers (slots : List Nat) (d : Delivery) (ok : d.Ok) :
    ∃ done, slots = done ++ (framePairLoop env tw slots d).1 ∧
      Delivers done.length (done.map (slotTarget env tw)) d (framePairLoop env tw slots d).2 ∧
      (done = [] → (framePairLoop env tw slots d).2 = d) := by
  induction slots, d using framePairLoop.induct env tw with
  | case1 s0 s1 left d hroom ih =>
    have hpair := Delivers.pair ok (tw.infoOf s0) (tw.infoOf s1) (slotNext env s0)
      (slotNext env s1) hroom
    obtain ⟨done, hslots, hdone, -⟩ := ih hpair.ok
    rw [framePairLoop, if_pos hroom]
    refine ⟨s0 :: s1 :: done, ?_, ?_, fun h => absurd h (List.cons_ne_nil _ _)⟩
    · rw [List.cons_append, List.cons_append, ← hslots]
    · exact hpair.trans hdone (Nat.le_add_left ..) (Nat.le_of_eq (Nat.add_comm ..))
  | case2 s0 s1 left d hroom =>
    rw [framePairLoop, if_neg hroom]
    exact ⟨[], rfl, .refl ok, fun _ => rfl⟩
  | case3 left d hshort =>
    have hstop : framePairLoop env tw left d = (left, d) := by
      unfold framePairLoop
      split
      · exact absurd rfl (hshort _ _ _)
      · rfl
    rw [hstop]
    exact ⟨[], rfl, .refl ok, fun _ => rfl⟩

theorem frameSingleLoop_delivers (slots : List Nat) (d : Delivery) (ok : d.Ok) :
    ∃ done, slots = done ++ (frameSingleLoop env tw slots d).1 ∧
      Delivers done.length (done.map (slotTarget env tw)) d (frameSingleLoop env tw slots d).2 ∧
      (slots ≠ [] → 0 < d.nLeftToNext → done ≠ []) := by
  induction slots generalizing d with
  | nil => exact ⟨[], rfl, .refl ok, fun h => absurd rfl h⟩
  | cons s0 left ih =>
    by_cases hroom : 0 < d.nLeftToNext
    · have hsingle := Delivers.single ok (tw.infoOf s0) (slotNext env s0) hroom
      obtain ⟨done, hslots, hdone, -⟩ := ih _ hsingle.ok
      rw [frameSingleLoop, if_pos hroom]
      refine ⟨s0 :: done, ?_, ?_, fun _ _ => List.cons_ne_nil _ _⟩
      · rw [List.cons_append, ← hslots]
      · exact hsingle.trans hdone (Nat.le_add_left ..) (Nat.le_of_eq (Nat.add_comm ..))
    · rw [frameSingleLoop, if_neg hroom]
      exact ⟨[], rfl, .refl ok, fun _ h => absurd h hroom⟩

/-- A frame takes at least one slot. -/
theorem frameRound_delivers {slots : List Nat} (h : d.Rest) (hslots : slots ≠ []) :
    ∃ done,
      let p := framePairLoop env tw slots (d.vlibGetNextFrame d.nextIndex)
      let q := frameSingleLoop env tw p.1 p.2
      slots = done ++ q.1 ∧ q.1.length < slots.length ∧
        (q.2.vlibPutNextFrame q.2.nextIndex q.2.nLeftToNext).Closed ∧
        Delivers done.length (done.map (slotTarget env tw)) d
          (q.2.vlibPutNextFrame q.2.nextIndex q.2.nLeftToNext) := by
  have hget := Delivers.get h.ok h.closed d.nextIndex
  obtain ⟨pairs, hpairs, hdone, hnone⟩ := framePairLoop_delivers env tw slots _ hget.ok
  obtain ⟨p, hp⟩ : ∃ p, p = framePairLoop env tw slots (d.vlibGetNextFrame d.nextIndex) := ⟨_, rfl⟩
  rw [← hp] at hpairs hdone hnone
  obtain ⟨singles, hsingles, hdone', hsome⟩ := frameSingleLoop_delivers env tw p.1 p.2 hdone.ok
  obtain ⟨hput, hclosed⟩ := Delivers.put hdone'.ok
  have htaken : pairs ++ singles ≠ [] := by
    intro hempty
    obtain ⟨rfl, rfl⟩ := List.append_eq_nil_iff.mp hempty
    rw [List.nil_append] at hpairs
    refine hsome ?_ ?_ rfl
    · rwa [← hpairs]
    · rw [hnone rfl]
      exact get_room ..
  have hsplit : slots = pairs ++ singles ++ (frameSingleLoop env tw p.1 p.2).1 := by
    rw [List.append_assoc, ← hsingles]
    exact hpairs
  refine ⟨pairs ++ singles, ?_⟩
  simp only [← hp]
  refine ⟨hsplit, ?_, hclosed, ?_⟩
  · have hlen := congrArg List.length hsplit
    rw [List.length_append] at hlen
    have hpos := List.length_pos_iff.mpr htaken
    omega
  · have hopen := hget.trans hdone (Nat.zero_le _) (Nat.le_of_eq (Nat.zero_add _))
    have hrun := (hopen.trans hdone' (Nat.le_add_right ..)
      (Nat.le_of_eq (congrArg (· + _) (List.length_map _)))).trans hput (Nat.le_refl _)
      (Nat.le_of_eq (by simp))
    simpa using hrun

/-- As many rounds as slots are enough to deliver all of them. -/
theorem frameLoop_delivers (fuel : Nat) (slots : List Nat) (d : Delivery) (h : d.Rest)
    (enough : slots.length ≤ fuel) :
    (frameLoop env tw fuel slots d).1 = [] ∧ (frameLoop env tw fuel slots d).2.Closed ∧
      Delivers slots.length (slots.map (slotTarget env tw)) d
        (frameLoop env tw fuel slots d).2 := by
  induction fuel generalizing slots d with
  | zero =>
    obtain rfl := List.eq_nil_of_length_eq_zero (Nat.le_zero.mp enough)
    exact ⟨rfl, h.closed, .refl h.ok⟩
  | succ fuel ih =>
    rw [frameLoop]
    by_cases hslots : slots = []
    · subst hslots
      exact ⟨rfl, h.closed, .refl h.ok⟩
    · rw [if_neg hslots]
      obtain ⟨done, hsplit, hless, hclosed, hround⟩ := frameRound_delivers env tw h hslots
      obtain ⟨hleft, hend, hrest⟩ := ih _ _ ⟨hround.ok, hclosed⟩
        (Nat.le_of_lt_succ (Nat.lt_of_lt_of_le hless enough))
      refine ⟨hleft, hend, ?_⟩
      have hrun := hround.trans hrest (Nat.le_add_right ..)
        (Nat.le_of_eq (congrArg (· + _) (List.length_map _)))
      rwa [← List.map_append, ← List.length_append, ← hsplit] at hrun

/-- All slots of a chunk are delivered. -/
theorem deliverSlots_delivers (slots : List Nat) (h : d.Rest) :
    (deliverSlots env tw slots d).1 = [] ∧ (deliverSlots env tw slots d).2.Closed ∧
      Delivers slots.length (slots.map (slotTarget env tw)) d (deliverSlots env tw slots d).2 := by
  obtain ⟨hstart, hclosed⟩ := h.start sfNextNodeTimerErrorDrop
  obtain ⟨hleft, hend, hrun⟩ := frameLoop_delivers env tw slots.length slots _
    ⟨hstart.ok, hclosed⟩ (Nat.le_refl _)
  exact ⟨hleft, hend, hstart.trans hrun (Nat.zero_le _) (Nat.le_of_eq (Nat.zero_add _))⟩

/-- All slots of all chunks are delivered. -/
theorem deliverChunks_delivers (chunks : List (List Nat)) (h : d.Rest) :
    (deliverChunks env tw chunks d).Closed ∧
      Delivers chunks.flatten.length (chunks.flatten.map (slotTarget env tw)) d
        (deliverChunks env tw chunks d) := by
  induction chunks generalizing d with
  | nil => exact ⟨h.closed, .refl h.ok⟩
  | cons slots chunks ih =>
    obtain ⟨-, hclosed, hslots⟩ := deliverSlots_delivers env tw slots h
    obtain ⟨hend, hchunks⟩ := ih ⟨hslots.ok, hclosed⟩
    refine ⟨hend, ?_⟩
    rw [List.flatten_cons, List.map_append, List.length_append]
    exact hslots.trans hchunks (Nat.le_add_right ..) (Nat.le_of_eq (by rw [List.length_map]))

theorem ofFrames_rest {frame : Nat → Frame} (full : List (Nat × Frame))
    (fits : ∀ k, (frame k).nVectors ≤ vlibFrameSize) : (ofFrames frame full).Rest :=
  ⟨⟨Nat.add_sub_cancel' (fits _), fits⟩, rfl⟩

theorem Closed.received (h : d.Closed) (k : Nat) : d.received k = d.held k := by
  rw [Delivery.held, h.count]
  rfl

theorem towards_slotTarget (slots : List Nat) (k : Nat) :
    towards (slots.map (slotTarget env tw)) k =
      (slots.filter fun data => slotNext env data = k).map tw.infoOf := by
  rw [towards, List.filter_map, List.map_map]
  rfl

/-- The handler reads its pointers, whatever the size of its frame. -/
theorem deliverChunks_received (chunks : List (List Nat)) (h : d.Rest) (k : Nat) :
    (deliverChunks env tw chunks d).received k = d.received k ++
      (chunks.flatten.filter fun data => slotNext env data = k).map tw.infoOf := by
  obtain ⟨hclosed, hrun⟩ := deliverChunks_delivers env tw chunks h
  rw [hclosed.received, h.closed.received, hrun.held, towards_slotTarget]

/-- The entries that are written for `n` slots. -/
theorem deliverChunks_written (chunks : List (List Nat)) (h : d.Rest) (hnil : d.written = [])
    {k p : Nat} (hp : (k, p) ∈ (deliverChunks env tw chunks d).written) :
    0 < chunks.flatten.length ∧
      p < min ((d.frame k).nVectors % vlibFrameSize + chunks.flatten.length) vlibFrameSize := by
  obtain ⟨-, hrun⟩ := deliverChunks_delivers env tw chunks h
  obtain ⟨log, hlog, hbound, -⟩ := hrun.written
  rw [hlog, hnil, List.nil_append] at hp
  obtain ⟨hpos, hlt, hle⟩ := hbound _ hp
  rw [h.closed.count] at hle
  exact ⟨hpos, Nat.lt_min.mpr ⟨hle, hlt⟩⟩

/-- As many slots for one node as it takes to fill its frame. -/
theorem deliverChunks_fills (w n : Nat) (h : d.Rest) (hnil : d.written = []) (hn : n ≠ 0) :
    (slotNext env w, min ((d.frame (slotNext env w)).nVectors % vlibFrameSize + n)
      vlibFrameSize - 1)
      ∈ (deliverChunks env tw [List.replicate n w] d).written := by
  obtain ⟨-, hrun⟩ := deliverChunks_delivers env tw [List.replicate n w] h
  obtain ⟨log, hlog, -, hcover⟩ := hrun.written
  obtain ⟨fill, hfill⟩ : ∃ fill, fill = (d.frame (slotNext env w)).nVectors := ⟨_, rfl⟩
  have hsize : fill % vlibFrameSize < vlibFrameSize := Nat.mod_lt _ (by decide)
  have hmany : (towards (([List.replicate n w].flatten).map (slotTarget env tw))
      (slotNext env w)).length = n := by
    simp [towards, slotTarget]
  have hlast := hcover (slotNext env w)
    (min (fill % vlibFrameSize + n) vlibFrameSize - 1 - fill % vlibFrameSize) (by omega)
  rw [h.closed.count, ← hfill, ← Nat.mod_add_mod, Nat.mod_eq_of_lt (by omega)] at hlast
  rw [hlog, hnil, List.nil_append, ← hfill]
  convert hlast using 2
  omega

end Delivery

open Delivery

/-- Timers are delivered inside the frames of a handler exactly when the entries that are
there already and the slots that expired fit its vector area, the latter up to a frame. -/
theorem deliverChunks_inside_iff (env : NodeEnv) (tw : SfTwTimer) (handler : Handler)
    (padding w n : Nat) (frame : Nat → Frame) (full : List (Nat × Frame))
    (fits : ∀ k, (frame k).nVectors ≤ vlibFrameSize) :
    (∀ chunks : List (List Nat), chunks.flatten.length = n →
      Inside env tw handler padding (slotNext env w) (ofFrames frame full) chunks) ↔
    n = 0 ∨ entrySize *
      min ((frame (slotNext env w)).nVectors % vlibFrameSize + n) vlibFrameSize ≤
        handler.vectorArea padding := by
  have hrest := ofFrames_rest full fits
  constructor
  · intro h
    by_cases hn : n = 0
    · exact .inl hn
    · have hlast := (h [List.replicate n w] (by simp)).written _
        (deliverChunks_fills env tw w n hrest rfl hn)
      have hpos : 0 < min ((frame (slotNext env w)).nVectors % vlibFrameSize + n) vlibFrameSize :=
        Nat.lt_min.mpr ⟨by omega, by decide⟩
      rw [← Nat.mul_add_one] at hlast
      exact .inr ((Nat.sub_add_cancel hpos) ▸ hlast)
  · intro h chunks hn
    refine ⟨fun p hp => ?_, deliverChunks_received env tw chunks hrest _⟩
    obtain ⟨hpos, hlt⟩ := deliverChunks_written env tw chunks hrest rfl hp
    rcases h with h | h
    · exact absurd hpos (by omega)
    · rw [← Nat.mul_add_one]
      rw [hn] at hlt
      exact Nat.le_trans (Nat.mul_le_mul_left _ hlt) h

/-- No frame has entries. -/
def emptyFrames (_ : Nat) : Frame := ⟨0, fun _ => 0⟩

theorem emptyFrames_fits (k : Nat) : (emptyFrames k).nVectors ≤ vlibFrameSize := Nat.zero_le _

/-- The slot of a timer of a reassembly, which `sampleEnv` sends to the next node 5. -/
def reassemblySlot : Nat := handleData 4 5000

/-- Half a frame of reassembly timers fits. -/
theorem deliverChunks_inside_half : Inside sampleEnv sampleWheel.tw .ipReassOnTimer 16 5
    (ofFrames emptyFrames [])
      [List.replicate 100 reassemblySlot, List.replicate 28 reassemblySlot] :=
  (deliverChunks_inside_iff sampleEnv sampleWheel.tw .ipReassOnTimer 16 reassemblySlot 128
    emptyFrames [] emptyFrames_fits).mpr (.inr (by decide)) _ (by simp)

/-- A full frame of reassembly timers, which expire together, is written past the vector area
of the frame. -/
theorem reassembly_timers_outside : ¬ Inside sampleEnv sampleWheel.tw .ipReassOnTimer 16 5
    (ofFrames emptyFrames []) [List.replicate 256 reassemblySlot] := by
  intro h
  have hlast := h.written 255
    (deliverChunks_fills sampleEnv sampleWheel.tw reassemblySlot 256
      (ofFrames_rest [] emptyFrames_fits) rfl (by decide))
  exact absurd hlast (by decide)

end Tapplet.SfTimer
