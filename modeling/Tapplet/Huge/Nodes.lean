import Tapplet.Lib.Lease
import Tapplet.Reass.Build

/-!
# Huge packets in the transport nodes

A packet that does not fit one buffer keeps its bytes in a node of the 16K pool. The node is
attached when the fragments of a datagram are joined or when the segments of a received
packet are, and the flag `UNUSED8_FLAG_HUGE_PKT` of the metadata records it. `sf_pkt_output`,
`sf_huge_pkt_output` and `sf_pkt_drop` test the flag and decide who frees the node.

Each function returns, beside its result, what it does with nodes of the pool, in order. The
bytes that are copied and the counters of the interfaces are left out.
-/

namespace Tapplet.Huge

open Reass Lease

def maxInterfaceCnt : Nat := 63
def vlibBufferDataSize : Nat := 2048
def outputTagPreSize : Nat := 8
def sfHugepktMaxSubBufferCnt : Nat := 10
def sfHugePktMaxDataSize : Nat := 2 ^ 14 - sfHugePktPreDataSize

/-- `HUGEPKT_REASS_FAIL_TOO_LONG` -/
def hugepktReassFailTooLong : Int := -1

/-- `HUGEPKT_REASS_FAIL_NO_MEMORY` -/
def hugepktReassFailNoMemory : Int := -2

/-- `UNUSED8_FLAG_HUGE_PKT` -/
def unused8FlagHugePkt : UInt8 := 4

/-- `sf_hugepkt_sub_t` -/
structure HugepktSub where
  bufferIndex : BufferId
  currentData : Nat
  currentLength : Nat
deriving DecidableEq

/-- `sf_hugepkt_helper_t`, which is kept in `recv_pre_data`. -/
structure HugepktHelper where
  subTotalLenNoFirst : Nat
  subBufferCnt : Nat
  subBuffer : List HugepktSub
deriving DecidableEq

/-- The metadata of a packet with the parts that only the transport nodes use. -/
structure HugePkt extends Wdata where
  helper : HugepktHelper
deriving DecidableEq

/-- A node of the huge pool is attached, as far as the flag tells. -/
def IsHuge (w : Wdata) : Prop := w.unused8 &&& unused8FlagHugePkt ≠ 0

instance (w : Wdata) : Decidable (IsHuge w) := inferInstanceAs (Decidable (_ ≠ _))

/-! ## The pool -/

/-- Reading or writing at a pointer: it uses the node that the pointer is in. -/
def touch (p : DataPtr) : List (Event Block) := p.block.toList.map .use

/-- `free_huge_pkt_16k`: the node that the data pointer is in goes back. -/
def freeHugePkt16k (dataPtr : DataPtr) : List (Event Block) := dataPtr.block.toList.map .give

/-! ## Receiving -/

/-- The copies of `sf_vlib_buffer_contents`: the number of bytes. -/
def sfVlibBufferContents (helper : HugepktHelper) (dataPtr : DataPtr) :
    Nat × List (Event Block) :=
  ((helper.subBuffer.map HugepktSub.currentLength).sum,
    helper.subBuffer.flatMap fun _ => touch dataPtr)

/-- `handle_huge_packet`: the buffers that are to be freed are its third result. -/
def handleHugePacket (newHuge : Option Block) (pkt : HugePkt) :
    HugePkt × Int × List BufferId × List (Event Block) :=
  let totalLen := pkt.helper.subTotalLenNoFirst + pkt.currentLength
  if sfHugePktMaxDataSize ≤ totalLen then (pkt, hugepktReassFailTooLong, [], [])
  else
    let dataPtr := allocHugePkt16k newHuge
    let taken := newHuge.toList.map Event.take
    if dataPtr = .null then
      (pkt, hugepktReassFailNoMemory, pkt.helper.subBuffer.map HugepktSub.bufferIndex, taken)
    else
      let r := sfVlibBufferContents pkt.helper dataPtr
      ({ pkt with
          currentLength := r.1 % 2 ^ 16
          currentData := 0
          l2HdrOffset := 0
          dataPtr := dataPtr },
        0, pkt.helper.subBuffer.tail.map HugepktSub.bufferIndex, taken ++ r.2)

/-! ## Sending -/

/-- The tables that the transport nodes read. The interfaces are counted from 1. -/
structure SfMain where
  adminStatus : Nat → Nat
  intfOutputNextIndex : Nat → Nat
  hugepktOutputNextIndex : Nat → Nat

/-- Where a transport node sends a packet. -/
inductive Next where
  | sfHugePktOutput
  | sfPktDrop
  /-- the output node of an interface, by its number among the next nodes -/
  | intfOutput (index : Nat)
deriving DecidableEq

/-- The interface that a packet goes to exists and is up. -/
def SfMain.Up (m : SfMain) (interfaceOut : Nat) : Prop :=
  interfaceOut ≤ maxInterfaceCnt ∧ 0 < interfaceOut ∧ m.adminStatus interfaceOut ≠ 0

instance (m : SfMain) (interfaceOut : Nat) : Decidable (m.Up interfaceOut) :=
  inferInstanceAs (Decidable (_ ∧ _))

/-- `sf_pkt_output` for one packet. -/
def sfPktOutput (m : SfMain) (pkt : HugePkt) : Next × List (Event Block) :=
  if m.Up pkt.interfaceOut then
    (if IsHuge pkt.toWdata then .sfHugePktOutput
      else .intfOutput (m.intfOutputNextIndex pkt.interfaceOut), [])
  else
    (.sfPktDrop, if IsHuge pkt.toWdata then freeHugePkt16k pkt.dataPtr else [])

/-- `sf_pkt_drop` for one packet. -/
def sfPktDrop (pkt : HugePkt) : List (Event Block) :=
  if IsHuge pkt.toWdata then freeHugePkt16k pkt.dataPtr else []

/-- The number of buffers that a packet is split into. -/
def subBufferCnt (totalLen : Nat) : Nat :=
  (totalLen + outputTagPreSize) / 2 ^ 11 +
    if (totalLen + outputTagPreSize) % 2 ^ 11 ≠ 0 then 1 else 0

/-- The loop of `sf_vlib_buffer_split` over the buffers behind the first. -/
def splitLeft : List BufferId → Nat → List HugepktSub
  | [], _ => []
  | b :: bs, totalLen =>
      let len := min totalLen vlibBufferDataSize
      ⟨b, 0, len⟩ :: splitLeft bs (totalLen - len)

theorem subBufferCnt_bounds (totalLen : Nat) :
    0 < subBufferCnt totalLen ∧ totalLen + outputTagPreSize ≤ subBufferCnt totalLen * 2 ^ 11 := by
  rw [subBufferCnt, outputTagPreSize]
  by_cases h : (totalLen + 8) % 2 ^ 11 = 0
  · rw [if_neg (not_not_intro h)]
    omega
  · rw [if_pos h]
    omega

/-- The buffers behind the first take what is left, as far as they reach. -/
theorem splitLeft_sum (bs : List BufferId) (totalLen : Nat) :
    ((splitLeft bs totalLen).map HugepktSub.currentLength).sum =
      min totalLen (bs.length * vlibBufferDataSize) := by
  induction bs generalizing totalLen with
  | nil => simp [splitLeft]
  | cons b bs ih =>
      simp only [splitLeft, List.map_cons, List.sum_cons, ih, List.length_cons]
      rw [Nat.add_mul]
      omega

/-- `sf_vlib_alloc_no_fail` from the buffers that are free: all `n` or none. -/
def sfVlibAllocNoFail (free : List BufferId) (n : Nat) : Option (List BufferId) :=
  if free.length < n then none else some (free.take n)

/-- `sf_vlib_buffer_split` of the packet in the buffer `b0`: the metadata and the number of
bytes that are copied, 0 when the packet is too long or there are no buffers. -/
def sfVlibBufferSplit (free : List BufferId) (b0 : BufferId) (pkt : HugePkt) :
    HugePkt × Nat × List (Event Block) :=
  let totalLen := pkt.currentLength
  let cnt := subBufferCnt totalLen
  let pkt := { pkt with helper := { pkt.helper with subBufferCnt := cnt } }
  if sfHugepktMaxSubBufferCnt < cnt then (pkt, 0, [])
  else
    match sfVlibAllocNoFail free (cnt - 1) with
    | none => (pkt, 0, [])
    | some buffers =>
        let unused8 :=
          if 0 < cnt - 1 then pkt.unused8 ||| unused8FlagHugePkt else pkt.unused8
        let first := min totalLen (vlibBufferDataSize - outputTagPreSize)
        let subBuffer := ⟨b0, outputTagPreSize, first⟩ :: splitLeft buffers (totalLen - first)
        ({ pkt with
            unused8 := unused8
            currentData := outputTagPreSize
            helper := { pkt.helper with subBuffer := subBuffer } },
          (subBuffer.map HugepktSub.currentLength).sum,
          subBuffer.flatMap fun _ => touch pkt.current)

/-- `pkt_wdata->unused8 &= unset_huge_mask` -/
def HugePkt.unsetHuge (pkt : HugePkt) : HugePkt :=
  { pkt with unused8 := pkt.unused8 &&& ~~~unused8FlagHugePkt }

/-- `sf_huge_pkt_output` for one packet. The loop that takes two packets at a time leaves the
flag alone before the packet is split; the loop that takes one clears it. -/
def sfHugePktOutput (m : SfMain) (paired : Bool) (free : List BufferId) (b0 : BufferId)
    (pkt : HugePkt) : HugePkt × Next × List (Event Block) :=
  let pkt := if paired then pkt else pkt.unsetHuge
  let r := sfVlibBufferSplit free b0 pkt
  let events := r.2.2 ++ freeHugePkt16k r.1.dataPtr
  if r.2.1 = 0 then (r.1.unsetHuge, .sfPktDrop, events)
  else
    -- 0 is the drop node, also in an entry of the table that was never written
    match m.hugepktOutputNextIndex r.1.interfaceOut with
    | 0 => (r.1, .sfPktDrop, events)
    | index + 1 => (r.1, .intfOutput (index + 1), events)

end Tapplet.Huge
