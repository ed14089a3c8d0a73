import Mathlib.Data.List.Perm.Basic
import Tapplet.Huge.Bytes

/-!
# The buffers of received huge packets

`sf_hugepkt_input_node` joins the sub-buffers of each packet of a frame, two packets at a time
while there are four. The first buffer of a packet goes on with it; the others are collected in
a list that is freed when it might not have room for the next packets, and at the end. A
sub-buffer is lost when it is neither kept nor put on the list.
-/

namespace Tapplet.Huge

open Reass Lease

/-- `VLIB_FRAME_SIZE`, for which `drop_buffer_index` is allocated. -/
def vlibFrameSize : Nat := 256

/-- `sf_dpdk_process_subseq_segs`: a segment is its buffer, the offset of its data and their
length. -/
def sfDpdkProcessSubseqSegs (b : BufferId) (pkt : HugePkt) (segs : List HugepktSub) : HugePkt :=
  if segs = [] then pkt
  else
    { pkt with
      unused8 := pkt.unused8 ||| unused8FlagHugePkt
      helper :=
        { subTotalLenNoFirst := (segs.map HugepktSub.currentLength).sum
          subBufferCnt := segs.length + 1
          subBuffer := ⟨b, pkt.currentData, pkt.currentLength⟩ :: segs } }

/-- A packet of several buffers, and the pointer that `alloc_huge_pkt_16k` returns for it. -/
structure Received where
  bufferIndex : BufferId
  pkt : HugePkt
  dataPtr : DataPtr
  first : pkt.helper.subBuffer.head?.map HugepktSub.bufferIndex = some bufferIndex
  count : pkt.helper.subBuffer.length = pkt.helper.subBufferCnt
  room : pkt.helper.subBufferCnt ≤ sfHugepktMaxSubBufferCnt

/-- The receiving node makes such packets. -/
def Received.ofSegs (b : BufferId) (pkt : HugePkt) (segs : List HugepktSub) (dataPtr : DataPtr)
    (hmore : segs ≠ []) (hroom : segs.length < sfHugepktMaxSubBufferCnt) : Received where
  bufferIndex := b
  pkt := sfDpdkProcessSubseqSegs b pkt segs
  dataPtr := dataPtr
  first := by
    rw [sfDpdkProcessSubseqSegs, if_neg hmore]
    rfl
  count := by
    rw [sfDpdkProcessSubseqSegs, if_neg hmore]
    rfl
  room := by
    rw [sfDpdkProcessSubseqSegs, if_neg hmore]
    exact hroom

/-- The sub-buffers of a packet. -/
def Received.subBuffers (r : Received) : List BufferId :=
  r.pkt.helper.subBuffer.map HugepktSub.bufferIndex

/-- `handle_huge_packet`, as far as it is about the buffers: its result and what it puts on the
list of the buffers to drop. `data_ptr` may be any pointer here, although
`alloc_huge_pkt_16k` never returns the null pointer. -/
def handleBuffers (dataPtr : DataPtr) (pkt : HugePkt) : Int × List BufferId :=
  if sfHugePktMaxDataSize ≤ pkt.helper.subTotalLenNoFirst + pkt.currentLength then
    (hugepktReassFailTooLong, [])
  else if dataPtr ≠ .null then
    (0, pkt.helper.visited.tail.map HugepktSub.bufferIndex)
  else
    (hugepktReassFailNoMemory,
      (pkt.helper.subBuffer.take pkt.helper.subBufferCnt).map HugepktSub.bufferIndex)

/-- The variables of `sf_hugepkt_input_node`: `drop_buffer_index` up to `drop_buffer_cnt`,
`buffer_index`, and beside them what has been handed to `sf_vlib_buffer_free_no_next` and the
highest value that `drop_buffer_cnt` has had. -/
structure InputRun where
  dropBufferIndex : List BufferId
  bufferIndex : List BufferId
  freed : List BufferId
  high : Nat

namespace InputRun

def start : InputRun := ⟨[], [], [], 0⟩

/-- `sf_vlib_buffer_free_no_next` of the list, which is empty then. -/
def flush (s : InputRun) : InputRun :=
  { s with
    freed := s.freed ++ s.dropBufferIndex
    dropBufferIndex := [] }

/-- The test for room in front of `handle_huge_packet`. -/
def makeRoom (s : InputRun) (cnt : Nat) : InputRun :=
  if vlibFrameSize < s.dropBufferIndex.length + cnt then s.flush else s

/-- The call of `handle_huge_packet`. -/
def handle (s : InputRun) (r : Received) : InputRun × Int :=
  let h := handleBuffers r.dataPtr r.pkt
  let drop := s.dropBufferIndex ++ h.2
  ({ s with
      dropBufferIndex := drop
      high := max s.high drop.length }, h.1)

/-- The packet goes on in these buffers. -/
def keep (s : InputRun) (buffers : List BufferId) : InputRun :=
  { s with bufferIndex := s.bufferIndex ++ buffers }

/-- The body of the loop that takes one packet. -/
def single (s : InputRun) (r : Received) : InputRun :=
  let h := (s.makeRoom r.pkt.helper.subBufferCnt).handle r
  if h.2 = 0 then h.1.keep [r.bufferIndex] else h.1

/-- The body of the loop that takes two packets. -/
def pair (s : InputRun) (r0 r1 : Received) : InputRun :=
  let h0 := (s.makeRoom (r0.pkt.helper.subBufferCnt + r1.pkt.helper.subBufferCnt)).handle r0
  let h1 := h0.1.handle r1
  if h0.2 = 0 ∧ h1.2 = 0 then h1.1.keep [r0.bufferIndex, r1.bufferIndex]
  else
    let s := if h0.2 = 0 then h1.1.keep [r0.bufferIndex] else h1.1
    if h1.2 = 0 then s.keep [r1.bufferIndex] else s

/-- Both loops. -/
def loops : List Received → InputRun → InputRun
  | r0 :: r1 :: r2 :: r3 :: rest, s => loops (r2 :: r3 :: rest) (s.pair r0 r1)
  | r :: rest, s => loops rest (s.single r)
  | [], s => s

end InputRun

/-- `sf_hugepkt_input_node` on a frame. What is left on the list is freed in the end. -/
def sfHugepktInputNode (frame : List Received) : InputRun :=
  let s := InputRun.loops frame .start
  if 0 < s.dropBufferIndex.length then s.flush else s

/-! ## One packet -/

/-- `handle_huge_packet` gives up a packet of this length. -/
def Received.TooLong (r : Received) : Prop :=
  sfHugePktMaxDataSize ≤ r.pkt.helper.subTotalLenNoFirst + r.pkt.currentLength

instance (r : Received) : Decidable r.TooLong := inferInstanceAs (Decidable (_ ≤ _))

/-- The sub-buffers that are kept or dropped. -/
def Received.accounted (r : Received) : List BufferId := if r.TooLong then [] else r.subBuffers

/-- The sub-buffers are the buffer of the packet and those behind it. -/
theorem Received.subBuffers_eq (r : Received) :
    r.subBuffers = r.bufferIndex :: r.pkt.helper.subBuffer.tail.map HugepktSub.bufferIndex := by
  have hfirst := r.first
  rw [subBuffers]
  cases hsubs : r.pkt.helper.subBuffer with
  | nil =>
      rw [hsubs] at hfirst
      exact absurd hfirst (by simp)
  | cons sub subs =>
      rw [hsubs] at hfirst
      rw [List.map_cons, List.tail_cons, Option.some.inj hfirst]

theorem Received.length_subBuffers (r : Received) :
    r.subBuffers.length = r.pkt.helper.subBufferCnt := by
  rw [subBuffers, List.length_map, r.count]

theorem Received.visited (r : Received) : r.pkt.helper.visited = r.pkt.helper.subBuffer := by
  rw [HugepktHelper.visited, ← r.count]
  exact List.take_of_length_le (Nat.le_max_right _ _)

/-- The buffers that go on with a packet. -/
def Received.kept (r : Received) : List BufferId :=
  if (handleBuffers r.dataPtr r.pkt).1 = 0 then [r.bufferIndex] else []

/-- Whatever the outcome, what is kept and what is put on the list are the sub-buffers, unless
the packet is too long. -/
theorem handleBuffers_accounted (r : Received) :
    r.kept ++ (handleBuffers r.dataPtr r.pkt).2 = r.accounted := by
  rw [Received.kept, handleBuffers, Received.accounted, r.visited]
  by_cases hlong : r.TooLong
  · have hlength : sfHugePktMaxDataSize ≤
        r.pkt.helper.subTotalLenNoFirst + r.pkt.currentLength := hlong
    rw [if_pos hlength, if_pos hlong]
    rfl
  · have hlength : ¬ sfHugePktMaxDataSize ≤
        r.pkt.helper.subTotalLenNoFirst + r.pkt.currentLength := hlong
    rw [if_neg hlength, if_neg hlong]
    split
    next =>
      rw [r.subBuffers_eq]
      rfl
    next =>
      rw [← r.count, List.take_length]
      rfl

theorem Received.length_accounted_le (r : Received) :
    r.accounted.length ≤ r.pkt.helper.subBufferCnt := by
  rw [accounted]
  split
  next => exact Nat.zero_le _
  next => exact Nat.le_of_eq r.length_subBuffers

/-- No more is put on the list than there are sub-buffers. -/
theorem handleBuffers_length_le (r : Received) :
    (handleBuffers r.dataPtr r.pkt).2.length ≤ r.pkt.helper.subBufferCnt := by
  refine Nat.le_trans ?_ r.length_accounted_le
  rw [← handleBuffers_accounted, List.length_append]
  exact Nat.le_add_left _ _

/-! ## The frame -/

namespace InputRun

/-- The buffers that are kept or dropped so far. -/
def held (s : InputRun) : List BufferId := s.bufferIndex ++ (s.freed ++ s.dropBufferIndex)

theorem flush_held (s : InputRun) : s.flush.held = s.held := by
  simp [held, flush]

theorem makeRoom_held (s : InputRun) (cnt : Nat) : (s.makeRoom cnt).held = s.held := by
  rw [makeRoom]
  split
  next => exact s.flush_held
  next => rfl

theorem handle_held (s : InputRun) (r : Received) :
    (s.handle r).1.held = s.held ++ (handleBuffers r.dataPtr r.pkt).2 := by
  simp [held, handle]

theorem keep_held (s : InputRun) (buffers : List BufferId) :
    (s.keep buffers).held.Perm (buffers ++ s.held) := by
  show ((s.bufferIndex ++ buffers) ++ (s.freed ++ s.dropBufferIndex)).Perm
    (buffers ++ (s.bufferIndex ++ (s.freed ++ s.dropBufferIndex)))
  rw [← List.append_assoc buffers]
  exact List.perm_append_comm.append_right _

theorem keep_nil (s : InputRun) : s.keep [] = s := by
  rw [keep, List.append_nil]

/-- The tests of the results keep what goes on. -/
theorem single_eq (s : InputRun) (r : Received) :
    s.single r = ((s.makeRoom r.pkt.helper.subBufferCnt).handle r).1.keep r.kept := by
  rw [single, Received.kept]
  show (if (handleBuffers r.dataPtr r.pkt).1 = 0 then _ else _ : InputRun) = _
  split
  next => rfl
  next => exact (keep_nil _).symm

theorem pair_eq (s : InputRun) (r0 r1 : Received) :
    s.pair r0 r1 = (((s.makeRoom (r0.pkt.helper.subBufferCnt +
      r1.pkt.helper.subBufferCnt)).handle r0).1.handle r1).1.keep (r0.kept ++ r1.kept) := by
  rw [pair, Received.kept, Received.kept]
  show (if (handleBuffers r0.dataPtr r0.pkt).1 = 0 ∧ (handleBuffers r1.dataPtr r1.pkt).1 = 0
    then _ else if (handleBuffers r1.dataPtr r1.pkt).1 = 0
      then (if (handleBuffers r0.dataPtr r0.pkt).1 = 0 then _ else _ : InputRun).keep _
      else if (handleBuffers r0.dataPtr r0.pkt).1 = 0 then _ else _ : InputRun) = _
  by_cases h0 : (handleBuffers r0.dataPtr r0.pkt).1 = 0
  · by_cases h1 : (handleBuffers r1.dataPtr r1.pkt).1 = 0
    · rw [if_pos ⟨h0, h1⟩, if_pos h0, if_pos h1]
      rfl
    · rw [if_neg fun h => h1 h.2, if_neg h1, if_pos h0, if_pos h0, if_neg h1]
      rfl
  · by_cases h1 : (handleBuffers r1.dataPtr r1.pkt).1 = 0
    · rw [if_neg fun h => h0 h.1, if_pos h1, if_neg h0, if_neg h0, if_pos h1]
      rfl
    · rw [if_neg fun h => h0 h.1, if_neg h1, if_neg h0, if_neg h0, if_neg h1]
      exact (keep_nil _).symm

/-- The loop for one packet accounts for it. -/
theorem single_held (s : InputRun) (r : Received) :
    (s.single r).held.Perm (s.held ++ r.accounted) := by
  rw [single_eq, ← handleBuffers_accounted]
  refine (keep_held _ _).trans ?_
  rw [handle_held, makeRoom_held]
  exact List.perm_append_comm_assoc ..

/-- The loop for two packets accounts for both. -/
theorem pair_held (s : InputRun) (r0 r1 : Received) :
    (s.pair r0 r1).held.Perm (s.held ++ (r0.accounted ++ r1.accounted)) := by
  rw [pair_eq, ← handleBuffers_accounted, ← handleBuffers_accounted]
  refine (keep_held _ _).trans (List.perm_iff_count.mpr fun b => ?_)
  rw [handle_held, handle_held, makeRoom_held]
  simp only [List.count_append]
  omega

/-- After the test there is room for so many. -/
theorem makeRoom_room (s : InputRun) {cnt : Nat} (h : cnt ≤ vlibFrameSize) :
    (s.makeRoom cnt).dropBufferIndex.length + cnt ≤ vlibFrameSize := by
  rw [makeRoom]
  split
  next => exact Nat.le_trans (Nat.le_of_eq (Nat.zero_add _)) h
  next hroom => exact Nat.le_of_not_lt hroom

theorem makeRoom_high (s : InputRun) (cnt : Nat) : (s.makeRoom cnt).high = s.high := by
  rw [makeRoom]
  split
  next => rfl
  next => rfl

/-- With room for the sub-buffers of a packet the list does not overflow. -/
theorem handle_high {s : InputRun} {r : Received} (hhigh : s.high ≤ vlibFrameSize)
    (hroom : s.dropBufferIndex.length + r.pkt.helper.subBufferCnt ≤ vlibFrameSize) :
    (s.handle r).1.high ≤ vlibFrameSize := by
  have hlength := handleBuffers_length_le r
  refine Nat.max_le.mpr ⟨hhigh, ?_⟩
  rw [List.length_append]
  omega

theorem handle_length_le (s : InputRun) (r : Received) :
    (s.handle r).1.dropBufferIndex.length ≤
      s.dropBufferIndex.length + r.pkt.helper.subBufferCnt := by
  show (s.dropBufferIndex ++ _).length ≤ _
  rw [List.length_append]
  exact Nat.add_le_add_left (handleBuffers_length_le r) _

theorem single_high {s : InputRun} (r : Received) (hhigh : s.high ≤ vlibFrameSize) :
    (s.single r).high ≤ vlibFrameSize := by
  have hcnt : r.pkt.helper.subBufferCnt ≤ vlibFrameSize := Nat.le_trans r.room (by decide)
  rw [single_eq]
  exact handle_high (by rwa [makeRoom_high]) (s.makeRoom_room hcnt)

theorem pair_high {s : InputRun} (r0 r1 : Received) (hhigh : s.high ≤ vlibFrameSize) :
    (s.pair r0 r1).high ≤ vlibFrameSize := by
  have hcnt : r0.pkt.helper.subBufferCnt + r1.pkt.helper.subBufferCnt ≤ vlibFrameSize :=
    Nat.le_trans (Nat.add_le_add r0.room r1.room) (by decide)
  have hroom := s.makeRoom_room hcnt
  have hfirst := (s.makeRoom (r0.pkt.helper.subBufferCnt +
    r1.pkt.helper.subBufferCnt)).handle_length_le r0
  rw [pair_eq]
  refine handle_high (handle_high (by rwa [makeRoom_high]) (by omega)) (by omega)

/-- After both loops exactly the packets that are not too long are accounted for. -/
theorem loops_held (frame : List Received) (s : InputRun) :
    (loops frame s).held.Perm (s.held ++ frame.flatMap Received.accounted) := by
  fun_induction loops frame s with
  | case1 r0 r1 r2 r3 rest s ih =>
      refine ih.trans ?_
      refine ((pair_held s r0 r1).append_right _).trans ?_
      simp only [List.flatMap_cons, List.append_assoc]
      exact List.Perm.refl _
  | case2 r rest s hfew ih =>
      refine ih.trans ?_
      refine ((single_held s r).append_right _).trans ?_
      simp only [List.flatMap_cons, List.append_assoc]
      exact List.Perm.refl _
  | case3 s =>
      rw [List.flatMap_nil, List.append_nil]

theorem loops_high {frame : List Received} {s : InputRun} (h : s.high ≤ vlibFrameSize) :
    (loops frame s).high ≤ vlibFrameSize := by
  fun_induction loops frame s with
  | case1 r0 r1 r2 r3 rest s ih => exact ih (pair_high r0 r1 h)
  | case2 r rest s hfew ih => exact ih (single_high r h)
  | case3 s => exact h

theorem makeRoom_bufferIndex (s : InputRun) (cnt : Nat) :
    (s.makeRoom cnt).bufferIndex = s.bufferIndex := by
  rw [makeRoom]
  split
  next => rfl
  next => rfl

/-- Only buffers of packets of the frame go on. -/
theorem loops_bufferIndex (frame : List Received) (s : InputRun) :
    (loops frame s).bufferIndex = s.bufferIndex ++ frame.flatMap Received.kept := by
  fun_induction loops frame s with
  | case1 r0 r1 r2 r3 rest s ih =>
      have hpair : (s.pair r0 r1).bufferIndex = s.bufferIndex ++ (r0.kept ++ r1.kept) := by
        rw [pair_eq]
        exact congrArg (· ++ _) (s.makeRoom_bufferIndex _)
      rw [ih, hpair]
      simp only [List.flatMap_cons, List.append_assoc]
  | case2 r rest s hfew ih =>
      have hsingle : (s.single r).bufferIndex = s.bufferIndex ++ r.kept := by
        rw [single_eq]
        exact congrArg (· ++ _) (s.makeRoom_bufferIndex _)
      rw [ih, hsingle, List.flatMap_cons, List.append_assoc]
  | case3 s => rw [List.flatMap_nil, List.append_nil]

end InputRun

open InputRun

/-- The list is empty in the end. -/
theorem sfHugepktInputNode_held (frame : List Received) :
    (sfHugepktInputNode frame).bufferIndex ++ (sfHugepktInputNode frame).freed =
      (loops frame .start).held := by
  rw [sfHugepktInputNode]
  split
  next => rfl
  next hempty =>
    have hnil := List.length_eq_zero_iff.mp (Nat.le_zero.mp (Nat.le_of_not_lt hempty))
    rw [held, hnil, List.append_nil]

theorem sfHugepktInputNode_high (frame : List Received) :
    (sfHugepktInputNode frame).high ≤ vlibFrameSize := by
  have hhigh : (loops frame .start).high ≤ vlibFrameSize := loops_high (Nat.zero_le _)
  rw [sfHugepktInputNode]
  split
  next => exact hhigh
  next => exact hhigh

theorem sfHugepktInputNode_bufferIndex (frame : List Received) :
    (sfHugepktInputNode frame).bufferIndex = frame.flatMap Received.kept := by
  have hkept := loops_bufferIndex frame .start
  rw [sfHugepktInputNode]
  split
  next => exact hkept
  next => exact hkept

/-- No sub-buffer of a frame is lost or freed twice. -/
structure Conserves (frame : List Received) : Prop where
  /-- Each sub-buffer is kept or dropped, once. -/
  once : ((sfHugepktInputNode frame).bufferIndex ++ (sfHugepktInputNode frame).freed).Perm
    (frame.flatMap Received.subBuffers)
  /-- Only the first buffer of a packet is kept. -/
  first : ∀ b ∈ (sfHugepktInputNode frame).bufferIndex, ∃ r ∈ frame, r.bufferIndex = b
  /-- The list of the buffers to drop does not overflow. -/
  bounded : (sfHugepktInputNode frame).high ≤ vlibFrameSize

theorem Received.kept_first {r : Received} {b : BufferId} (h : b ∈ r.kept) :
    r.bufferIndex = b := by
  rw [kept] at h
  split at h
  next => exact (List.mem_singleton.mp h).symm
  next => exact absurd h List.not_mem_nil

theorem Received.accounted_of_short {r : Received} (h : ¬ r.TooLong) :
    r.accounted = r.subBuffers := if_neg h

/-- A packet that is too long has sub-buffers that are not accounted for. -/
theorem Received.length_accounted (r : Received) :
    r.accounted.length ≤ r.subBuffers.length ∧
      (r.TooLong → r.accounted.length < r.subBuffers.length) := by
  rw [accounted]
  split
  next =>
    rw [r.subBuffers_eq]
    exact ⟨Nat.zero_le _, fun _ => Nat.succ_pos _⟩
  next hshort => exact ⟨Nat.le_refl _, fun hlong => absurd hlong hshort⟩

theorem length_accounted_frame (frame : List Received) :
    (frame.flatMap Received.accounted).length ≤ (frame.flatMap Received.subBuffers).length ∧
      ((∃ r ∈ frame, r.TooLong) → (frame.flatMap Received.accounted).length <
        (frame.flatMap Received.subBuffers).length) := by
  induction frame with
  | nil => exact ⟨Nat.le_refl _, fun ⟨r, hr, _⟩ => absurd hr List.not_mem_nil⟩
  | cons r rest ih =>
      obtain ⟨hle, hlt⟩ := r.length_accounted
      simp only [List.flatMap_cons, List.length_append]
      refine ⟨Nat.add_le_add hle ih.1, ?_⟩
      rintro ⟨r', hr', hlong⟩
      obtain rfl | hrest := List.mem_cons.mp hr'
      · exact Nat.add_lt_add_of_lt_of_le (hlt hlong) ih.1
      · exact Nat.add_lt_add_of_le_of_lt hle (ih.2 ⟨r', hrest, hlong⟩)

/-- The node conserves the buffers of a frame if and only if no packet of it is too long. -/
theorem conserves_iff (frame : List Received) : Conserves frame ↔ ∀ r ∈ frame, ¬ r.TooLong := by
  have hheld : ((sfHugepktInputNode frame).bufferIndex ++ (sfHugepktInputNode frame).freed).Perm
      (frame.flatMap Received.accounted) := by
    rw [sfHugepktInputNode_held]
    exact loops_held frame .start
  constructor
  · intro h r hr hlong
    have hlength := (hheld.symm.trans h.once).length_eq
    exact Nat.ne_of_lt ((length_accounted_frame frame).2 ⟨r, hr, hlong⟩) hlength
  · intro h
    refine ⟨?_, ?_, sfHugepktInputNode_high frame⟩
    · have hall : frame.flatMap Received.accounted = frame.flatMap Received.subBuffers :=
        List.flatMap_congr fun r hr => Received.accounted_of_short (h r hr)
      rwa [hall] at hheld
    · intro b hb
      rw [sfHugepktInputNode_bufferIndex] at hb
      obtain ⟨r, hr, hkept⟩ := List.mem_flatMap.mp hb
      exact ⟨r, hr, Received.kept_first hkept⟩

/-- A packet of 16384 bytes in eight buffers. -/
def eightBuffers : Received :=
  .ofSegs 0 { threeParts with currentLength := 2048 }
    ((List.range 7).map fun i => ⟨i + 1, 0, 2048⟩) ⟨some 0, 128⟩ (by decide) (by decide)

/-- None of its buffers is kept or freed. -/
theorem eightBuffers_lost : ¬ Conserves [eightBuffers] := by
  intro h
  exact absurd h.once.length_eq (by decide)

end Tapplet.Huge
