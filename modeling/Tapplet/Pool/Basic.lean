import Tapplet.Lib.Linked
import Mathlib.Algebra.GroupWithZero.Nat
import Mathlib.Logic.Function.Basic

/-!
# Object pools: global free list and per-worker stacks

The two-level allocator of `sf_pool.h` and `sf_pool.c`. A pool head owns a linked
free list; every worker owns a stack of nodes. The part of a stack above
`stack_max_len` is at the same time a linked segment, which is given back to the
free list in one piece when it has grown to `free_list_max_len` nodes.

The `next` word of a free node lives in the node itself, so it is a memory
`next : Node → Option Node` that whoever holds a node may overwrite. Node and byte
counts are natural numbers, since those of a `Config` fit `uint32_t`. `NULL` is `none`.
-/

namespace Tapplet.SfPool

/-- The address of a node. -/
abbrev Node := Nat

/-- `sf_pool_per_thread_t`. The stack array holds `stack_max_len + free_list_max_len`
entries; only the first `current_stack_len` of them are meaningful. -/
structure LocalPool where
  currentStackLen : Nat
  stackMaxLen : Nat
  freeListLen : Nat
  freeListMaxLen : Nat
  localPoolStack : Nat → Node
  localFreeList : Option Node
  localLastNode : Option Node

/-- The fields of `sf_pool_head_t` that the allocator reads or writes. -/
structure PoolHead where
  fillFreeSize : Nat
  poolMemIncMax : Nat
  localCacheSize : Nat
  dataAlignLen : Nat
  poolMemIncTime : Nat
  freeCnt : Nat
  totalCnt : Nat
  freelist : Option Node

def CLIB_CACHE_LINE_BYTES : Nat := 64
def SF_POOL_ALIGNED_LEN : Nat := 64

/-- `align_data_len`: the distance between two nodes of one memory block. -/
def alignDataLen (dataLen : Nat) : Nat :=
  let alignPageCnt := dataLen / CLIB_CACHE_LINE_BYTES +
    if 0 < dataLen % CLIB_CACHE_LINE_BYTES then 1 else 0
  if dataLen ≤ SF_POOL_ALIGNED_LEN then SF_POOL_ALIGNED_LEN
  else alignPageCnt * CLIB_CACHE_LINE_BYTES

theorem alignDataLen_pos (dataLen : Nat) : 0 < alignDataLen dataLen := by
  by_cases h : dataLen ≤ SF_POOL_ALIGNED_LEN
  · simp only [alignDataLen, if_pos h]
    decide
  · have hpages : 0 < dataLen / CLIB_CACHE_LINE_BYTES := by
      simp only [CLIB_CACHE_LINE_BYTES, SF_POOL_ALIGNED_LEN] at *
      omega
    simp only [alignDataLen, if_neg h]
    exact Nat.mul_pos (Nat.lt_of_lt_of_le hpages (Nat.le_add_right _ _)) (by decide)

/-! ## Filling a local stack -/

/-- `sf_pool_increase_nodes`. `newMem` is what the memory allocator answers when it
is asked; it is not asked once the pool has grown `pool_mem_inc_max` times. -/
def sfPoolIncreaseNodes (h : PoolHead) (targetArray : Nat → Node) (neededSize : Nat)
    (newMem : Option Node) : PoolHead × (Nat → Node) × Nat :=
  if h.poolMemIncTime < h.poolMemIncMax then
    match newMem with
    | some mem =>
        ({ h with poolMemIncTime := h.poolMemIncTime + 1 },
          fun i => if i < neededSize then mem + h.dataAlignLen * i else targetArray i,
          neededSize)
    | none => (h, targetArray, 0)
  else (h, targetArray, 0)

/-- The loop of `sf_pool_fill_cache` that takes up to `neededSize` nodes off a free
list: the nodes in the order they are stored, and the rest of the list. -/
def takeFree (next : Node → Option Node) : Nat → Option Node → List Node × Option Node
  | 0, p => ([], p)
  | _ + 1, none => ([], none)
  | needed + 1, some x =>
      let rest := takeFree next needed (next x)
      (x :: rest.1, rest.2)

/-- `sf_pool_fill_cache`: the new head, the new target array and the number of nodes
stored in it. The whole function runs under the pool's lock when `isRuntime`. -/
def sfPoolFillCache (h : PoolHead) (next : Node → Option Node) (targetArray : Nat → Node)
    (isRuntime : Bool) (newMem : Option Node) : PoolHead × (Nat → Node) × Nat :=
  let neededSize := if isRuntime then h.fillFreeSize else h.localCacheSize
  if h.freeCnt = 0 then
    let r := sfPoolIncreaseNodes h targetArray neededSize newMem
    ({ r.1 with totalCnt := r.1.totalCnt + r.2.2 }, r.2.1, r.2.2)
  else
    let r := takeFree next neededSize h.freelist
    ({ h with freelist := r.2, freeCnt := h.freeCnt - r.1.length },
      fun i => r.1.getD i (targetArray i), r.1.length)

/-! ## Local part of allocation and release -/

/-- The part of `alloc_node_from_pool` after the refill: pop the top of the stack
and, if it belonged to the linked segment, unlink it there. -/
def popNode (l : LocalPool) : Node × LocalPool :=
  let len := l.currentStackLen - 1
  let pnode := l.localPoolStack len
  if len > l.stackMaxLen then
    (pnode, { l with
      currentStackLen := len
      localFreeList := some (l.localPoolStack (len - 1))
      freeListLen := l.freeListLen - 1 })
  else if len = l.stackMaxLen then
    (pnode, { l with
      currentStackLen := len
      localFreeList := none
      localLastNode := none
      freeListLen := l.freeListLen - 1 })
  else (pnode, { l with currentStackLen := len })

/-- The part of `free_node_to_pool` before the list is given back: push the node
and, above `stack_max_len`, link it in front of the segment. -/
def pushNode (l : LocalPool) (next : Node → Option Node) (data : Node) :
    LocalPool × (Node → Option Node) :=
  let pushed := { l with
    localPoolStack := Function.update l.localPoolStack l.currentStackLen data
    currentStackLen := l.currentStackLen + 1 }
  if pushed.currentStackLen > l.stackMaxLen then
    ({ pushed with
        localFreeList := some data
        freeListLen := l.freeListLen + 1
        localLastNode := if l.localLastNode = none then some data else l.localLastNode },
      Function.update next data l.localFreeList)
  else (pushed, next)

/-- The test of `free_node_to_pool` whether the segment goes back to the free list. -/
def recycleDue (l : LocalPool) : Bool :=
  decide (l.currentStackLen > l.stackMaxLen) && decide (l.freeListLen ≥ l.freeListMaxLen)

/-- `sf_pool_recycle_cache`, under the pool's lock: put the segment in front of the
global free list. -/
def sfPoolRecycleCache (h : PoolHead) (next : Node → Option Node)
    (localFreeList localLastNode : Option Node) : PoolHead × (Node → Option Node) :=
  ({ h with freelist := localFreeList, freeCnt := h.freeCnt + h.fillFreeSize },
    match localLastNode with
    | some last => Function.update next last h.freelist
    | none => next)

/-- The end of `free_node_to_pool` after the segment went back. -/
def dropSegment (l : LocalPool) : LocalPool :=
  { l with
    localFreeList := none
    localLastNode := none
    freeListLen := 0
    currentStackLen := l.currentStackLen - l.freeListMaxLen }

/-! ## Whole calls -/

/-- `alloc_node_from_pool` on a local pool whose head is `h`, run to its end. -/
def allocNodeFromPool (h : PoolHead) (next : Node → Option Node) (l : LocalPool)
    (newMem : Option Node) : Option Node × PoolHead × LocalPool :=
  if l.currentStackLen = 0 then
    let r := sfPoolFillCache h next l.localPoolStack true newMem
    let filled := { l with localPoolStack := r.2.1 }
    if r.2.2 = 0 then (none, r.1, filled)
    else
      let popped := popNode { filled with currentStackLen := r.2.2 }
      (some popped.1, r.1, popped.2)
  else
    let popped := popNode l
    (some popped.1, h, popped.2)

/-- `free_node_to_pool`, run to its end. -/
def freeNodeToPool (h : PoolHead) (next : Node → Option Node) (l : LocalPool) (data : Node) :
    PoolHead × (Node → Option Node) × LocalPool :=
  let pushed := pushNode l next data
  if recycleDue pushed.1 then
    let r := sfPoolRecycleCache h pushed.2 pushed.1.localFreeList pushed.1.localLastNode
    (r.1, r.2, dropSegment pushed.1)
  else (h, pushed.2, pushed.1)

end Tapplet.SfPool
