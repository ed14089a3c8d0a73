import Tapplet.Pool.Functions
import Tapplet.Huge.Input

/-!
# The 16K pool is exhausted

`alloc_huge_pkt_16k` moves the pointer from the pool forward and its callers test the result for
the null pointer. Here the callers run on the pool itself: they take a node from it, and
`ip4_frag_build_pkt` and `ip6_frag_build_pkt` return it when there is no buffer for the packet.
-/

namespace Tapplet.Huge

open Reass SfPool

/-- The pool of one worker, with a stack as `sf_pool_init` makes it. -/
structure HugePool where
  head : PoolHead
  next : Node → Option Node
  perWorkerPool : LocalPool
  cached : 0 < perWorkerPool.stackMaxLen

theorem popNode_stackMaxLen (l : LocalPool) : (popNode l).2.stackMaxLen = l.stackMaxLen := by
  unfold popNode
  dsimp only
  split
  · rfl
  · split <;> rfl

theorem allocNodeFromPool_stackMaxLen (h : PoolHead) (next : Node → Option Node) (l : LocalPool)
    (newMem : Option Node) :
    (allocNodeFromPool h next l newMem).2.2.stackMaxLen = l.stackMaxLen := by
  unfold allocNodeFromPool
  dsimp only
  split
  · split
    · rfl
    · exact popNode_stackMaxLen _
  · exact popNode_stackMaxLen l

theorem freeNodeToPool_stackMaxLen (h : PoolHead) (next : Node → Option Node) (l : LocalPool)
    (data : Node) : (freeNodeToPool h next l data).2.2.stackMaxLen = l.stackMaxLen := by
  unfold freeNodeToPool
  dsimp only
  split
  · exact pushNode_stackMaxLen l next data
  · exact pushNode_stackMaxLen l next data

namespace HugePool

/-- `alloc_node_from_pool`. -/
def alloc (p : HugePool) (newMem : Option Node) : Option Node × HugePool :=
  let r := allocNodeFromPool p.head p.next p.perWorkerPool newMem
  (r.1, ⟨r.2.1, p.next, r.2.2, (allocNodeFromPool_stackMaxLen ..).symm ▸ p.cached⟩)

/-- `free_huge_pkt_16k`. The null pointer is the address 0. -/
def freeHugePkt16k (p : HugePool) (dataPtr : DataPtr) : HugePool :=
  let r := freeNodeToPool p.head p.next p.perWorkerPool (dataPtr.block.getD 0)
  ⟨r.1, r.2.1, r.2.2, (freeNodeToPool_stackMaxLen ..).symm ▸ p.cached⟩

end HugePool

/-! ## The callers -/

/-- `ip4_frag_build_pkt` and `ip6_frag_build_pkt` with the nodes of the pool. -/
def fragBuildPktFrom (v : Version) (env : Env) (s : Worker) (o : Outside) (first : BufferId)
    (status : Nat) (p : HugePool) (newMem : Option Node) :
    (Worker × Option BufferId × Int) × HugePool :=
  let a := p.alloc newMem
  let dataPtr := allocHugePkt16k a.1
  let r := fragBuildPkt v.fields env s { o with newHuge := a.1 } first status
  (({ r.1 with hugePool := s.hugePool }, r.2),
    if dataPtr = .null then a.2
    else
      match o.newBuffer with
      | none => a.2.freeHugePkt16k dataPtr
      | some _ => a.2)

/-- The copies of `sf_vlib_buffer_contents`. -/
def contentsCopies (huge : Option Block) : DataPtr → List HugepktSub → List Copy
  | _, [] => []
  | dst, sub :: subs =>
      ⟨huge, dst, sub.currentLength⟩ :: contentsCopies huge (dst.add sub.currentLength) subs

/-- `handle_huge_packet` with the nodes of the pool, and its copies. -/
def handleHugePacketFrom (pkt : HugePkt) (p : HugePool) (newMem : Option Node) :
    (HugePkt × Int × List BufferId × List Copy) × HugePool :=
  if sfHugePktMaxDataSize ≤ pkt.helper.subTotalLenNoFirst + pkt.currentLength then
    ((pkt, hugepktReassFailTooLong, [], []), p)
  else
    let a := p.alloc newMem
    let dataPtr := allocHugePkt16k a.1
    let r := handleHugePacket a.1 pkt
    ((r.1, r.2.1, r.2.2.1,
      if dataPtr = .null then [] else contentsCopies a.1 dataPtr pkt.helper.visited), a.2)

/-- A call that reaches `alloc_huge_pkt_16k`. -/
inductive AllocCall where
  | fragBuildPkt (v : Version) (env : Env) (s : Worker) (o : Outside) (first : BufferId)
      (status : Nat)
  | handleHugePacket (pkt : HugePkt)
      (short : pkt.helper.subTotalLenNoFirst + pkt.currentLength < sfHugePktMaxDataSize)

/-- The call takes its failure path: nothing is copied, the fragments or sub-buffers are
returned as they are, and the pool is as before. -/
def AllocCall.Handled (p : HugePool) (newMem : Option Node) : AllocCall → Prop
  | .fragBuildPkt v env s o first status =>
      fragBuildPktFrom v env s o first status p newMem = ((s, some first, (status : Int)), p)
  | .handleHugePacket pkt _ =>
      handleHugePacketFrom pkt p newMem =
        ((pkt, hugepktReassFailNoMemory, pkt.helper.subBuffer.map HugepktSub.bufferIndex, []), p)

/-! ## What they do -/

/-- Only a local pool without nodes is refilled in vain. -/
theorem allocNodeFromPool_none {h : PoolHead} {next : Node → Option Node} {l : LocalPool}
    {newMem : Option Node} (hnone : (allocNodeFromPool h next l newMem).1 = none) :
    l.currentStackLen = 0 ∧ (allocNodeFromPool h next l newMem).2.2.currentStackLen = 0 := by
  unfold allocNodeFromPool at hnone ⊢
  dsimp only at hnone ⊢
  split at hnone
  next hempty =>
    rw [if_pos hempty]
    split at hnone
    next hzero =>
      rw [if_pos hzero]
      exact ⟨hempty, hempty⟩
    next => exact absurd hnone (by simp)
  next => exact absurd hnone (by simp)

/-- Returning the null pointer to an empty stack puts it there. -/
theorem freeHugePkt16k_len {p : HugePool} (hempty : p.perWorkerPool.currentStackLen = 0)
    (dataPtr : DataPtr) : (p.freeHugePkt16k dataPtr).perWorkerPool.currentStackLen = 1 := by
  have hcached := p.cached
  have hlen := pushNode_currentStackLen p.perWorkerPool p.next (dataPtr.block.getD 0)
  have hmax := pushNode_stackMaxLen p.perWorkerPool p.next (dataPtr.block.getD 0)
  have hstay : recycleDue (pushNode p.perWorkerPool p.next (dataPtr.block.getD 0)).1 = false := by
    rw [recycleDue, hlen, hmax, hempty, Bool.and_eq_false_iff]
    exact .inl (decide_eq_false (by omega))
  simp only [HugePool.freeHugePkt16k, freeNodeToPool, hstay, Bool.false_eq_true, if_false, hlen,
    hempty, Nat.zero_add]

/-- The copy loop only adds to the copies. -/
theorem copyFrags_copies_le (s : Worker) (huge : Option Block) (ptr : DataPtr) (fuel : Nat)
    (p : Option BufferId) (c : Build) :
    c.copies.length ≤ (copyFrags s huge ptr fuel p c).copies.length := by
  induction fuel generalizing p c with
  | zero =>
    cases p with
    | none => exact Nat.le_refl _
    | some t => exact Nat.le_refl _
  | succ fuel ih =>
    cases p with
    | none => exact Nat.le_refl _
    | some t =>
      refine Nat.le_trans ?_ (ih _ _)
      rw [copyFrag, List.length_append]
      exact Nat.le_add_right _ _

/-- A packet is not built without copies. -/
theorem buildInto_copies_lt (F : FragFields) (env : Env) (s : Worker) (first b : BufferId)
    (huge : Option Block) (cnt : Nat) :
    s.copies.length < (buildInto F env s first b huge cnt).copies.length := by
  refine Nat.lt_of_lt_of_le ?_ (copyFrags_copies_le ..)
  rw [List.length_append]
  exact Nat.lt_add_of_pos_right Nat.two_pos

/-- Without a node the packet is built through the moved null pointer, or this pointer is
returned to the pool. -/
theorem fragBuildPktFrom_exhausted {p : HugePool} {newMem : Option Node}
    (h : (p.alloc newMem).1 = none) (v : Version) (env : Env) (s : Worker) (o : Outside)
    (first : BufferId) (status : Nat) :
    fragBuildPktFrom v env s o first status p newMem ≠ ((s, some first, (status : Int)), p) := by
  intro heq
  cases hbuffer : o.newBuffer with
  | none =>
    have hpool := congrArg (fun r => r.2.perWorkerPool.currentStackLen) heq
    obtain ⟨hempty, hstill⟩ := allocNodeFromPool_none h
    have hreturned : (fragBuildPktFrom v env s o first status p newMem).2 =
        (p.alloc newMem).2.freeHugePkt16k (allocHugePkt16k (p.alloc newMem).1) := by
      rw [fragBuildPktFrom, hbuffer]
      exact if_neg (allocHugePkt16k_ne_null _)
    dsimp only at hpool
    rw [hreturned, freeHugePkt16k_len hstill, hempty] at hpool
    exact absurd hpool Nat.one_ne_zero
  | some b =>
    have hcopies := congrArg (fun r => r.1.1.copies.length) heq
    have hbuilt : (fragBuildPktFrom v env s o first status p newMem).1.1.copies =
        (buildInto v.fields env { s with hugePool := s.hugePool.alloc (p.alloc newMem).1 } first b
          (p.alloc newMem).1 (status + 1)).copies := by
      rw [fragBuildPktFrom, fragBuildPkt, hbuffer]
      dsimp only
      rw [if_neg (allocHugePkt16k_ne_null _)]
    dsimp only at hcopies
    rw [hbuilt] at hcopies
    have hlt := buildInto_copies_lt v.fields env
      { s with hugePool := s.hugePool.alloc (p.alloc newMem).1 } first b (p.alloc newMem).1
      (status + 1)
    exact Nat.ne_of_lt hlt hcopies.symm

/-- Without a node a packet is copied through the moved null pointer and goes on. -/
theorem handleHugePacketFrom_exhausted {p : HugePool} {newMem : Option Node} {pkt : HugePkt}
    (short : pkt.helper.subTotalLenNoFirst + pkt.currentLength < sfHugePktMaxDataSize) :
    (handleHugePacketFrom pkt p newMem).1.2.1 = 0 := by
  simp only [handleHugePacketFrom, handleHugePacket, if_neg (Nat.not_le.mpr short),
    if_neg (allocHugePkt16k_ne_null _)]

/-- No caller takes its failure path when the pool is exhausted. -/
theorem exhausted_not_handled (c : AllocCall) (p : HugePool) (newMem : Option Node)
    (h : (p.alloc newMem).1 = none) : ¬ c.Handled p newMem := by
  cases c with
  | fragBuildPkt v env s o first status =>
    exact fragBuildPktFrom_exhausted h v env s o first status
  | handleHugePacket pkt short =>
    intro heq
    have hresult := congrArg (fun r => r.1.2.1) heq
    dsimp only at hresult
    rw [handleHugePacketFrom_exhausted short] at hresult
    exact absurd hresult (by decide)

/-- The pool has grown as often as it may, and other workers hold all the nodes. -/
def drainedPool : HugePool where
  head := ⟨4, 10, 1024, 16384, 10, 0, 1064, none⟩
  next := fun _ => none
  perWorkerPool := ⟨0, 1024, 0, 4, fun _ => 0, none, none⟩
  cached := by decide

/-- A packet of 4096 bytes in two buffers. -/
def twoBuffers : HugePkt :=
  sfDpdkProcessSubseqSegs 3 { threeParts with currentLength := 2048 } [⟨4, 0, 2048⟩]

theorem exhausted_not_handled_two :
    ¬ (AllocCall.handleHugePacket twoBuffers (by decide)).Handled drainedPool none :=
  exhausted_not_handled _ drainedPool none (by decide)

/-- The packet goes on, with its bytes at the address 128. -/
theorem twoBuffers_copied : (drainedPool.alloc none).1 = none ∧
    (handleHugePacketFrom twoBuffers drainedPool none).1.2 =
      (0, [4], [⟨none, ⟨none, 128⟩, 2048⟩, ⟨none, ⟨none, 2176⟩, 2048⟩]) ∧
    ¬ (AllocCall.handleHugePacket twoBuffers (by decide)).Handled drainedPool none := by
  have hcopied : (handleHugePacketFrom twoBuffers drainedPool none).1.2 =
      (0, [4], [⟨none, ⟨none, 128⟩, 2048⟩, ⟨none, ⟨none, 2176⟩, 2048⟩]) := by decide
  refine ⟨by decide, hcopied, fun heq => ?_⟩
  have hresult := congrArg (fun r => r.1.2.1) heq
  rw [congrArg Prod.fst hcopied] at hresult
  exact absurd hresult (by decide)

end Tapplet.Huge
