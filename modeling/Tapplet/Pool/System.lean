import Tapplet.Lib.Run
import Tapplet.Lib.Ledger
import Tapplet.Pool.Basic

/-!
# A pool shared by several workers

The whole pool and its steps. A call is cut at its locked section: entering, the
locked section itself, and leaving are one step each, and the steps of all calls
interleave freely. `calls` records which step each call under way on a local pool
waits for.

Neither function keeps a second call off the local pool. Calls that overlap on one
interleave in the source at every access and not only at the locked sections, but
already these steps lose nodes then; `Alone` says of a step that no calls overlap.

`handed` and `created` are not in the source. They record the nodes that callers hold
and all the nodes the pool has carved out of memory.
-/

namespace Tapplet.SfPool

open Linked

/-- Where a call on a local pool stands between its atomic sections. -/
inductive Phase where
  | fill
  | filled (ret : Nat)
  | recycle
  | recycled

structure Pool where
  head : PoolHead
  next : Node → Option Node
  workers : Nat
  perWorkerPool : Nat → LocalPool
  calls : Nat → List Phase
  handed : List Node
  created : List Node

namespace Pool

def setLocal (s : Pool) (w : Nat) (l : LocalPool) (calls : List Phase) : Pool :=
  { s with
    perWorkerPool := Function.update s.perWorkerPool w l
    calls := Function.update s.calls w calls }

/-- Pop a node off the local pool `l` of worker `w` and hand it to the caller. `others`
are the other calls under way on that pool, here and below. -/
def handOut (s : Pool) (w : Nat) (l : LocalPool) (others : List Phase) : Pool :=
  { s.setLocal w (popNode l).2 others with handed := (popNode l).1 :: s.handed }

/-- `alloc_node_from_pool` up to the refill of an empty stack. -/
def allocEnter (s : Pool) (w : Nat) : Pool :=
  if (s.perWorkerPool w).currentStackLen = 0 then
    s.setLocal w (s.perWorkerPool w) (.fill :: s.calls w)
  else s.handOut w (s.perWorkerPool w) (s.calls w)

/-- The locked refill inside `alloc_node_from_pool`. -/
def fill (s : Pool) (w : Nat) (newMem : Option Node) (others : List Phase) : Pool :=
  let l := s.perWorkerPool w
  let r := sfPoolFillCache s.head s.next l.localPoolStack true newMem
  { s.setLocal w { l with localPoolStack := r.2.1 } (.filled r.2.2 :: others) with
    head := r.1
    created := s.created ++ (List.range (r.1.totalCnt - s.head.totalCnt)).map r.2.1 }

/-- `alloc_node_from_pool` after a refill that stored `ret` nodes. -/
def allocLeave (s : Pool) (w : Nat) (ret : Nat) (others : List Phase) : Pool :=
  if ret = 0 then s.setLocal w (s.perWorkerPool w) others
  else s.handOut w { s.perWorkerPool w with currentStackLen := ret } others

/-- `free_node_to_pool` up to the test whether the segment goes back. -/
def freeEnter (s : Pool) (w : Nat) (data : Node) : Pool :=
  let r := pushNode (s.perWorkerPool w) s.next data
  { s.setLocal w r.1 (if recycleDue r.1 then .recycle :: s.calls w else s.calls w) with
    next := r.2
    handed := s.handed.erase data }

/-- The locked section of `free_node_to_pool`. -/
def recycle (s : Pool) (w : Nat) (others : List Phase) : Pool :=
  let l := s.perWorkerPool w
  let r := sfPoolRecycleCache s.head s.next l.localFreeList l.localLastNode
  { s.setLocal w l (.recycled :: others) with head := r.1, next := r.2 }

/-- The end of `free_node_to_pool`. -/
def freeLeave (s : Pool) (w : Nat) (others : List Phase) : Pool :=
  s.setLocal w (dropSegment (s.perWorkerPool w)) others

end Pool

inductive Event where
  | allocEnter (w : Nat)
  | fill (w : Nat) (newMem : Option Node)
  | allocLeave (w : Nat)
  | freeEnter (w : Nat) (data : Node)
  | recycle (w : Nat)
  | freeLeave (w : Nat)
  | write (data : Node) (value : Option Node)

/-- The memory allocator returns a block that overlaps no node of the pool. -/
def FreshMem (s : Pool) (cnt : Nat) : Option Node → Prop
  | none => True
  | some mem => ∀ x ∈ s.created,
      x + s.head.dataAlignLen ≤ mem ∨ mem + s.head.dataAlignLen * cnt ≤ x

/-- The steps of the pool. A caller releases a node that it holds, to any local pool,
and may write to the nodes that it holds. -/
inductive Step : Pool → Event → Pool → Prop where
  | allocEnter {s w} (hw : w < s.workers) : Step s (.allocEnter w) (s.allocEnter w)
  | fill {s w newMem others} (hw : w < s.workers) (waits : (s.calls w).Perm (.fill :: others))
      (fresh : FreshMem s s.head.fillFreeSize newMem) :
      Step s (.fill w newMem) (s.fill w newMem others)
  | allocLeave {s w ret others} (hw : w < s.workers)
      (waits : (s.calls w).Perm (.filled ret :: others)) :
      Step s (.allocLeave w) (s.allocLeave w ret others)
  | freeEnter {s w data} (hw : w < s.workers) (holds : data ∈ s.handed) :
      Step s (.freeEnter w data) (s.freeEnter w data)
  | recycle {s w others} (hw : w < s.workers) (waits : (s.calls w).Perm (.recycle :: others)) :
      Step s (.recycle w) (s.recycle w others)
  | freeLeave {s w others} (hw : w < s.workers) (waits : (s.calls w).Perm (.recycled :: others)) :
      Step s (.freeLeave w) (s.freeLeave w others)
  | write {s data value} (holds : data ∈ s.handed) :
      Step s (.write data value) { s with next := Function.update s.next data value }

/-- A call starts on a local pool on which no other one is under way. -/
def Alone (s : Pool) : Event → Prop
  | .allocEnter w | .freeEnter w _ => s.calls w = []
  | _ => True

/-! ## Initialisation -/

/-- The arguments of `sf_pool_init`, with the number of worker threads. The memory of all
nodes that the pool can have is counted in a `uint32_t`, and a stack array in an `int`. -/
structure Config where
  dataLen : Nat
  initSizePerWorker : Nat
  localCacheSize : Nat
  fillFreeSize : Nat
  incrementMaxTimes : Nat
  workerThreadCnt : Nat
  bytes_lt : alignDataLen dataLen *
    (initSizePerWorker * workerThreadCnt + incrementMaxTimes * localCacheSize) < 2 ^ 32
  stack_lt : localCacheSize + fillFreeSize < 2 ^ 31

/-- The loop of `sf_pool_init` that links the nodes of the first memory block. -/
def splitMemory (memoryStart align : Nat) (next : Node → Option Node) :
    Nat → (Node → Option Node) × Option Node
  | 0 => (next, none)
  | i + 1 =>
      let r := splitMemory memoryStart align next i
      (Function.update r.1 (memoryStart + i * align) r.2, some (memoryStart + i * align))

/-- `sf_pool_init` up to the per-worker pools. `next` is the earlier contents of the
memory block. -/
def splitPool (cfg : Config) (memoryStart : Nat) (next : Node → Option Node) : Pool :=
  let align := alignDataLen cfg.dataLen
  let initSize := cfg.initSizePerWorker * cfg.workerThreadCnt
  let r := splitMemory memoryStart align next initSize
  { head :=
      { fillFreeSize := cfg.fillFreeSize
        poolMemIncMax := cfg.incrementMaxTimes
        localCacheSize := cfg.localCacheSize
        dataAlignLen := align
        poolMemIncTime := 0
        freeCnt := initSize
        totalCnt := initSize
        freelist := r.2 }
    next := r.1
    workers := 0
    perWorkerPool := fun _ => ⟨0, 0, 0, 0, fun _ => 0, none, none⟩
    calls := fun _ => []
    handed := []
    created := (List.range initSize).map fun i => memoryStart + i * align }

/-- `sf_pool_init_local` for the next worker. -/
def Pool.initLocal (s : Pool) (newMem : Option Node) : Pool :=
  let r := sfPoolFillCache s.head s.next (fun _ => 0) false newMem
  let l : LocalPool :=
    { currentStackLen := r.2.2
      stackMaxLen := s.head.localCacheSize
      freeListLen := 0
      freeListMaxLen := s.head.fillFreeSize
      localPoolStack := r.2.1
      localFreeList := none
      localLastNode := none }
  { s.setLocal s.workers l [] with
    head := r.1
    workers := s.workers + 1
    created := s.created ++ (List.range (r.1.totalCnt - s.head.totalCnt)).map r.2.1 }

/-- The states of `sf_pool_init` after it has initialised `w` local pools. -/
inductive SfPoolInit (cfg : Config) : Nat → Pool → Prop where
  | split (memoryStart : Nat) (next : Node → Option Node) :
      SfPoolInit cfg 0 (splitPool cfg memoryStart next)
  | initLocal {w s newMem} (h : SfPoolInit cfg w s)
      (fresh : FreshMem s s.head.localCacheSize newMem) :
      SfPoolInit cfg (w + 1) (s.initLocal newMem)

/-! ## Where the nodes are -/

/-- The first `n` entries of the stack array. -/
def stackNodes (l : LocalPool) (n : Nat) : List Node := (List.range n).map l.localPoolStack

/-- How many entries of the stack array belong to the local pool. In the middle of a
call this is not `current_stack_len`: a refill has stored nodes before it updates the
length, and a segment has gone back before the length is reduced. -/
def keptLen (l : LocalPool) : List Phase → Nat
  | .filled ret :: _ => ret
  | .recycled :: _ => l.currentStackLen - l.freeListMaxLen
  | _ => l.currentStackLen

/-- The nodes of the local pool of worker `w`. -/
def Pool.localStack (s : Pool) (w : Nat) : List Node :=
  stackNodes (s.perWorkerPool w) (keptLen (s.perWorkerPool w) (s.calls w))

/-- The nodes of all local pools. -/
def Pool.localStacks (s : Pool) : List Node := (List.range s.workers).flatMap s.localStack

/-- The part of the stack above `stack_max_len`. -/
def upper (l : LocalPool) : List Node :=
  (stackNodes l l.currentStackLen).drop l.stackMaxLen

/-- The linked segment of a local pool is exactly the upper part of its stack, from the
top down, `local_last_node` is its last node and `free_list_len` its length. -/
structure SegmentInv (l : LocalPool) (next : Node → Option Node) : Prop where
  linked : Seg next l.localFreeList (upper l).reverse none
  last : l.localLastNode = (upper l).head?
  length : l.freeListLen = (upper l).length

/-- What holds of a local pool between calls and in each phase of a call. There is never
more than one. -/
def LocalInv (h : PoolHead) (l : LocalPool) (next : Node → Option Node) : List Phase → Prop
  | [] => l.currentStackLen < l.stackMaxLen + l.freeListMaxLen ∧ SegmentInv l next
  | [.fill] => l.currentStackLen = 0 ∧ SegmentInv l next
  | [.filled ret] => l.currentStackLen = 0 ∧ ret ≤ h.fillFreeSize ∧ SegmentInv l next
  | [.recycle] => l.currentStackLen = l.stackMaxLen + l.freeListMaxLen ∧ SegmentInv l next
  | [.recycled] => l.currentStackLen = l.stackMaxLen + l.freeListMaxLen
  | _ :: _ :: _ => False

/-- The nodes of the pool are conserved. `free` is the global free list. -/
structure Conserved (s : Pool) (free : List Node) : Prop where
  freelist : Seg s.next s.head.freelist free none
  freeCnt : s.head.freeCnt = free.length
  totalCnt : s.head.totalCnt = s.created.length
  nodup : s.created.Nodup
  places : s.created.Perm (free ++ s.localStacks ++ s.handed)
  stackMax : ∀ w < s.workers, (s.perWorkerPool w).stackMaxLen = s.head.localCacheSize
  freeListMax : ∀ w < s.workers, (s.perWorkerPool w).freeListMaxLen = s.head.fillFreeSize
  localInv : ∀ w < s.workers, LocalInv s.head (s.perWorkerPool w) s.next (s.calls w)

end Tapplet.SfPool
