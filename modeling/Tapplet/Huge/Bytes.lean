import Tapplet.Lib.Scatter
import Tapplet.Huge.Nodes

/-!
# The bytes of a huge packet

`sf_vlib_buffer_split` copies a packet from its node of the 16K pool to sub-buffers and records
them, and `sf_vlib_buffer_contents` copies recorded sub-buffers to a node. Here are the copies
that `Huge.Nodes` leaves out, and what comes back when the one follows the other.
-/

namespace Tapplet.Huge

open Reass Lease Scatter

/-- `b->data` of the buffers. -/
abbrev Buffers := BufferId → Nat → UInt8

/-- Where a sub-buffer has its bytes. -/
def HugepktSub.slot (sub : HugepktSub) : Slot BufferId :=
  ⟨sub.bufferIndex, sub.currentData, sub.currentLength⟩

/-- `sf_vlib_buffer_split` with the bytes behind `src_data_ptr`. Each `clib_memcpy` goes to the
place that is recorded for the sub-buffer, and the pointer moves on by its length. Without
buffers nothing is copied. -/
def splitBytes (free : List BufferId) (b0 : BufferId) (pkt : HugePkt) (data : Buffers)
    (src : Nat → UInt8) : HugePkt × Nat × Buffers :=
  let r := sfVlibBufferSplit free b0 pkt
  (r.1, r.2.1,
    if r.2.1 = 0 then data else scatter data (r.1.helper.subBuffer.map HugepktSub.slot) src)

/-- The sub-buffers that `sf_vlib_buffer_contents` visits: the first in any case, and so many
others that there are `sub_buffer_cnt`. -/
def HugepktHelper.visited (helper : HugepktHelper) : List HugepktSub :=
  helper.subBuffer.take (max 1 helper.subBufferCnt)

/-- `sf_vlib_buffer_contents` with the bytes behind `data_ptr`, and the number of copied bytes. -/
def contentsBytes (data : Buffers) (helper : HugepktHelper) (node : Nat → UInt8) :
    (Nat → UInt8) × Nat :=
  (gather data (helper.visited.map HugepktSub.slot) node 0,
    (helper.visited.map HugepktSub.currentLength).sum)

/-! ## The sub-buffers of a split packet -/

theorem total_slot (subs : List HugepktSub) :
    total (subs.map HugepktSub.slot) = (subs.map HugepktSub.currentLength).sum := by
  rw [total, List.map_map]
  rfl

theorem splitLeft_bufferIndex (buffers : List BufferId) (len : Nat) :
    (splitLeft buffers len).map HugepktSub.bufferIndex = buffers := by
  induction buffers generalizing len with
  | nil => rfl
  | cons b bs ih => rw [splitLeft, List.map_cons, ih]

/-- Each of the buffers behind the first gets something, if the others could not take it all,
and stays in its buffer. -/
theorem splitLeft_room {buffers : List BufferId} {len : Nat}
    (h : vlibBufferDataSize * buffers.length < len + vlibBufferDataSize) :
    ∀ sub ∈ splitLeft buffers len,
      0 < sub.currentLength ∧ sub.currentData + sub.currentLength ≤ vlibBufferDataSize := by
  induction buffers generalizing len with
  | nil => exact fun sub hsub => absurd hsub (List.not_mem_nil)
  | cons b bs ih =>
      rw [List.length_cons, Nat.mul_add, Nat.mul_one] at h
      intro sub hsub
      rw [splitLeft] at hsub
      obtain rfl | hrest := List.mem_cons.mp hsub
      · have hle := Nat.min_le_right len vlibBufferDataSize
        have hpos : 0 < min len vlibBufferDataSize := Nat.lt_min.mpr ⟨by omega, by decide⟩
        exact ⟨hpos, by rwa [Nat.zero_add]⟩
      · exact ih (by omega) sub hrest

/-- One buffer less does not have room for the packet and the space for tags. -/
theorem subBufferCnt_least (totalLen : Nat) :
    vlibBufferDataSize * subBufferCnt totalLen <
      totalLen + outputTagPreSize + vlibBufferDataSize := by
  rw [subBufferCnt, vlibBufferDataSize, outputTagPreSize]
  by_cases h : (totalLen + 8) % 2 ^ 11 = 0
  · rw [if_neg (not_not_intro h)]
    omega
  · rw [if_pos h]
    omega

/-- The record of a split packet. -/
structure SplitParts (totalLen : Nat) (helper : HugepktHelper) : Prop where
  used : helper.subBuffer.length = helper.subBufferCnt
  most : helper.subBufferCnt ≤ sfHugepktMaxSubBufferCnt
  apart : (helper.subBuffer.map HugepktSub.bufferIndex).Nodup
  sum : (helper.subBuffer.map HugepktSub.currentLength).sum = totalLen
  room : ∀ sub ∈ helper.subBuffer,
    0 < sub.currentLength ∧ sub.currentData + sub.currentLength ≤ vlibBufferDataSize

/-- What is allocated for a packet that is not too long. -/
theorem sfVlibAllocNoFail_some {free buffers : List BufferId} {n : Nat}
    (h : sfVlibAllocNoFail free n = some buffers) : buffers = free.take n ∧ buffers.length = n := by
  rw [sfVlibAllocNoFail] at h
  split at h
  next => exact absurd h (by simp)
  next henough =>
    obtain rfl := Option.some.inj h
    exact ⟨rfl, List.length_take_of_le (Nat.le_of_not_lt henough)⟩

/-- The record when the allocation succeeds. -/
theorem sfVlibBufferSplit_parts {free buffers : List BufferId} {b0 : BufferId} {pkt : HugePkt}
    (hpos : 1 ≤ pkt.currentLength) (hmax : pkt.currentLength < sfHugePktMaxDataSize)
    (hfree : free.Nodup) (hb0 : b0 ∉ free)
    (halloc : sfVlibAllocNoFail free (subBufferCnt pkt.currentLength - 1) = some buffers) :
    (sfVlibBufferSplit free b0 pkt).2.1 = pkt.currentLength ∧
      SplitParts pkt.currentLength (sfVlibBufferSplit free b0 pkt).1.helper := by
  obtain ⟨hcnt, hreach⟩ := subBufferCnt_bounds pkt.currentLength
  have hleast := subBufferCnt_least pkt.currentLength
  obtain ⟨hbuffers, hlength⟩ := sfVlibAllocNoFail_some halloc
  have hshort : ¬ sfHugepktMaxSubBufferCnt < subBufferCnt pkt.currentLength := by
    simp only [sfHugepktMaxSubBufferCnt, vlibBufferDataSize, outputTagPreSize,
      sfHugePktMaxDataSize, sfHugePktPreDataSize] at *
    omega
  have hfirst : 0 < min pkt.currentLength (vlibBufferDataSize - outputTagPreSize) :=
    Nat.lt_min.mpr ⟨hpos, by decide⟩
  have hsum : min pkt.currentLength (vlibBufferDataSize - outputTagPreSize) +
      ((splitLeft buffers (pkt.currentLength -
        min pkt.currentLength (vlibBufferDataSize - outputTagPreSize))).map
          HugepktSub.currentLength).sum = pkt.currentLength := by
    rw [splitLeft_sum, hlength]
    simp only [vlibBufferDataSize, outputTagPreSize] at *
    omega
  have hparts : (sfVlibBufferSplit free b0 pkt).2.1 = pkt.currentLength ∧
      (sfVlibBufferSplit free b0 pkt).1.helper.subBufferCnt = subBufferCnt pkt.currentLength ∧
      (sfVlibBufferSplit free b0 pkt).1.helper.subBuffer =
        ⟨b0, outputTagPreSize, min pkt.currentLength (vlibBufferDataSize - outputTagPreSize)⟩ ::
          splitLeft buffers (pkt.currentLength -
            min pkt.currentLength (vlibBufferDataSize - outputTagPreSize)) := by
    simp only [sfVlibBufferSplit, if_neg hshort, halloc, List.map_cons, List.sum_cons]
    exact ⟨hsum, trivial, trivial⟩
  obtain ⟨hcopied, hrecorded, hsubs⟩ := hparts
  refine ⟨hcopied, ?_, ?_, ?_, ?_, ?_⟩
  · rw [hsubs, hrecorded, List.length_cons, ← List.length_map (f := HugepktSub.bufferIndex),
      splitLeft_bufferIndex, hlength]
    omega
  · rw [hrecorded]
    exact Nat.le_of_not_lt hshort
  · rw [hsubs, List.map_cons, splitLeft_bufferIndex, hbuffers]
    exact List.nodup_cons.mpr
      ⟨fun hmem => hb0 (List.mem_of_mem_take hmem), hfree.sublist (List.take_sublist _ _)⟩
  · rw [hsubs, List.map_cons, List.sum_cons]
    exact hsum
  · rw [hsubs, List.forall_mem_cons]
    refine ⟨⟨hfirst, ?_⟩, splitLeft_room ?_⟩
    · show outputTagPreSize + min pkt.currentLength (vlibBufferDataSize - outputTagPreSize) ≤ _
      simp only [vlibBufferDataSize, outputTagPreSize]
      omega
    · rw [hlength]
      simp only [vlibBufferDataSize, outputTagPreSize] at hleast ⊢
      omega

/-! ## There and back -/

/-- A packet is split, and the recorded sub-buffers are joined in a node. -/
structure SplitJoin (free : List BufferId) (b0 : BufferId) (pkt : HugePkt) (data : Buffers)
    (src node : Nat → UInt8) : Prop where
  /-- The parts add up to the packet, each one in a buffer of its own, and as many as recorded. -/
  parts : SplitParts pkt.currentLength (splitBytes free b0 pkt data src).1.helper
  /-- Everything is copied. -/
  copied : (splitBytes free b0 pkt data src).2.1 = pkt.currentLength
  /-- Nothing is written behind the end of a buffer. -/
  bounded : ∀ b i, vlibBufferDataSize ≤ i → (splitBytes free b0 pkt data src).2.2 b i = data b i
  /-- As much comes back. -/
  length : (contentsBytes (splitBytes free b0 pkt data src).2.2
    (splitBytes free b0 pkt data src).1.helper node).2 = pkt.currentLength
  /-- The same bytes come back. -/
  bytes : ∀ i < pkt.currentLength, (contentsBytes (splitBytes free b0 pkt data src).2.2
    (splitBytes free b0 pkt data src).1.helper node).1 i = src i

/-- All sub-buffers of a split packet are visited. -/
theorem SplitParts.visited {totalLen : Nat} {helper : HugepktHelper}
    (h : SplitParts totalLen helper) : helper.visited = helper.subBuffer := by
  rw [HugepktHelper.visited, ← h.used]
  exact List.take_of_length_le (Nat.le_max_right _ _)

theorem SplitParts.keys {totalLen : Nat} {helper : HugepktHelper}
    (h : SplitParts totalLen helper) :
    ((helper.subBuffer.map HugepktSub.slot).map Slot.key).Nodup := by
  rw [List.map_map]
  exact h.apart

/-- No part of a split packet covers a place behind the end of its buffer. -/
theorem SplitParts.not_covers {totalLen : Nat} {helper : HugepktHelper}
    (h : SplitParts totalLen helper) {b : BufferId} {i : Nat} (hi : vlibBufferDataSize ≤ i) :
    ∀ p ∈ helper.subBuffer.map HugepktSub.slot, ¬ p.Covers b i := by
  intro p hp hcovers
  obtain ⟨sub, hsub, rfl⟩ := List.mem_map.mp hp
  have hroom := (h.room sub hsub).2
  have hlt : i < sub.currentData + sub.currentLength := hcovers.2.2
  omega

/-- Splitting and joining a packet gives the packet back. -/
theorem split_join {free buffers : List BufferId} {b0 : BufferId} {pkt : HugePkt}
    (hpos : 1 ≤ pkt.currentLength) (hmax : pkt.currentLength < sfHugePktMaxDataSize)
    (hfree : free.Nodup) (hb0 : b0 ∉ free)
    (halloc : sfVlibAllocNoFail free (subBufferCnt pkt.currentLength - 1) = some buffers)
    (data : Buffers) (src node : Nat → UInt8) : SplitJoin free b0 pkt data src node := by
  obtain ⟨hcopied, hparts⟩ := sfVlibBufferSplit_parts hpos hmax hfree hb0 halloc
  have hdata : (splitBytes free b0 pkt data src).2.2 =
      scatter data ((sfVlibBufferSplit free b0 pkt).1.helper.subBuffer.map HugepktSub.slot)
        src := by
    rw [splitBytes]
    exact if_neg (hcopied ▸ Nat.ne_of_gt hpos)
  have hpkt : (splitBytes free b0 pkt data src).1 = (sfVlibBufferSplit free b0 pkt).1 := rfl
  have htotal := (total_slot (sfVlibBufferSplit free b0 pkt).1.helper.subBuffer).trans hparts.sum
  refine ⟨hparts, hcopied, fun b i hi => ?_, ?_, fun i hi => ?_⟩
  · rw [hdata]
    exact scatter_of_not_covers (hparts.not_covers hi)
  · rw [contentsBytes, hpkt, hparts.visited]
    exact hparts.sum
  · rw [hdata, contentsBytes, hpkt, hparts.visited]
    have h := @gather_scatter _ _ _ data _ src node 0 i hparts.keys (htotal ▸ hi)
    rwa [Nat.zero_add] at h

/-- A packet of 4096 bytes, which takes three buffers. -/
def threeParts : HugePkt :=
  { Wdata.zero with
    currentLength := 4096
    interfaceId := 1
    interfaceOut := 1
    unused8 := unused8FlagHugePkt
    dataPtr := ⟨some 0, 128⟩
    helper := ⟨0, 0, []⟩ }

theorem split_join_three : subBufferCnt threeParts.currentLength = 3 ∧
    SplitJoin [4, 7, 9] 2 threeParts (fun _ _ => 0) (fun i => UInt8.ofNat i) fun _ => 0 :=
  ⟨by decide, @split_join _ [4, 7] _ _ (by decide) (by decide) (by decide) (by decide)
    (by decide) _ _ _⟩

end Tapplet.Huge
