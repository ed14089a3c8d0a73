import Mathlib.Algebra.GroupWithZero.Nat
import Mathlib.Data.List.Basic
import Mathlib.Logic.Function.Basic
import Tapplet.Lib.DualLoop
import Tapplet.Lib.Run
import Tapplet.Net.Handoff

/-!
# Packets between the workers

A worker that receives packets keeps those that `sf_pkt_get_worker_index` gives to itself and puts
the others into a queue to their worker. `sf_pkt_handoff` does the first, `sf_pkt_hf_input` takes
packets out of a queue. The queues are those of `vlib_buffer_enqueue_to_thread`, which is told to
wait rather than to drop: nothing is lost, and from one worker to another the order is kept.
-/

namespace Tapplet.Net

open Transition

def UNUSED8_FLAG_HUGE_PKT : UInt8 := (1 : UInt8) <<< 2

/-- A buffer with the fields of its `sf_wdata_t` that are read. `data` is what
`sf_wqe_get_current_wdata` points to. -/
structure Pkt where
  bi : UInt32
  data : Bytes
  interfaceId : UInt8
  unused8 : UInt8

/-- The nodes that take the packets of a worker. -/
inductive InputNode where
  | ethInput
  | hugePktInput
deriving DecidableEq

/-- `handoff_cnt_array` of a worker. -/
abbrev HandoffCnt := Int → UInt64

/-- `handoff_cnt_array[interface_id - 1] ++` -/
def HandoffCnt.count (cnt : HandoffCnt) (p : Pkt) : HandoffCnt :=
  Function.update cnt (p.interfaceId.toNat - 1) (cnt (p.interfaceId.toNat - 1) + 1)

/-- `SF_NEXT_NODE_ETH_INPUT`, unless the packet is flagged. -/
def Pkt.inputNode (p : Pkt) : InputNode :=
  if p.unused8 &&& UNUSED8_FLAG_HUGE_PKT ≠ 0 then .hugePktInput else .ethInput

/-! ## `sf_pkt_handoff` -/

/-- `pkt_handoff_runtime_t`: the packets that the worker keeps with their next node, and those that
go to another thread. -/
structure HandoffRuntime where
  self : List (Pkt × InputNode)
  handoff : List (Pkt × UInt16)
  cnt : HandoffCnt

/-- What is done with a packet whose worker is known. -/
def HandoffRuntime.place (rt : HandoffRuntime) (me : Nat) (p : Pkt) (nextWorker : UInt16) :
    HandoffRuntime :=
  if nextWorker.toNat = me then
    { rt with
      self := rt.self ++ [(p, p.inputNode)]
      cnt := rt.cnt.count p }
  else { rt with handoff := rt.handoff ++ [(p, nextWorker + 1)] }

/-- The workers. The thread of a worker has the index of the worker and one. -/
structure Workers where
  clib : Clib
  numWorkers : UInt32
  some_worker : numWorkers ≠ 0
  few : numWorkers.toNat < 2 ^ 16

namespace Workers

variable (w : Workers)

/-- The worker of a packet. -/
def index (p : Pkt) : UInt16 := sfPktGetWorkerIndex w.clib p.data w.numWorkers

/-- The packet is one of worker `d`. -/
def goesTo (d : Nat) (p : Pkt) : Bool := (w.index p).toNat = d

/-- The round for one packet. -/
def handoffOne (me : Nat) (rt : HandoffRuntime) (p : Pkt) : HandoffRuntime :=
  rt.place me p (w.index p)

/-- The round for two packets. -/
def handoffTwo (me : Nat) (rt : HandoffRuntime) (p q : Pkt) : HandoffRuntime :=
  let nextWorker0 := w.index p
  let nextWorker1 := w.index q
  (rt.place me p nextWorker0).place me q nextWorker1

/-- The loops of `sf_pkt_handoff_node`: two packets as long as there are four. -/
def handoffLoop (me : Nat) : HandoffRuntime → List Pkt → HandoffRuntime
  | rt, p :: q :: r :: s :: rest => handoffLoop me (w.handoffTwo me rt p q) (r :: s :: rest)
  | rt, p :: rest => handoffLoop me (w.handoffOne me rt p) rest
  | rt, [] => rt

theorem handoffLoop_eq_foldl (me : Nat) (rt : HandoffRuntime) (frame : List Pkt) :
    w.handoffLoop me rt frame = frame.foldl (w.handoffOne me) rt := by
  fun_induction Workers.handoffLoop w me rt frame with
  | case1 rt p q r s rest ih => exact ih
  | case2 rt p rest _ ih => exact ih
  | case3 => rfl

theorem index_lt (p : Pkt) : (w.index p).toNat < w.numWorkers.toNat :=
  sfPktGetWorkerIndex_lt w.clib p.data w.some_worker

/-- The thread of a packet is that of its worker. -/
theorem index_succ (p : Pkt) : (w.index p + 1).toNat = (w.index p).toNat + 1 := by
  have hlt := w.index_lt p
  have hfew := w.few
  rw [UInt16.toNat_add]
  exact Nat.mod_eq_of_lt (by rw [UInt16.toNat_one]; omega)

/-- The packets of the frame are sorted into those of the worker and the others, each in order. -/
theorem handoffLoop_eq (me : Nat) (rt : HandoffRuntime) (frame : List Pkt) :
    w.handoffLoop me rt frame =
      { self := rt.self ++ (frame.filter (w.goesTo me)).map fun p => (p, p.inputNode)
        handoff := rt.handoff ++
          (frame.filter fun p => !w.goesTo me p).map fun p => (p, w.index p + 1)
        cnt := (frame.filter (w.goesTo me)).foldl HandoffCnt.count rt.cnt } := by
  rw [handoffLoop_eq_foldl]
  induction frame generalizing rt with
  | nil => simp
  | cons p frame ih =>
      rw [List.foldl_cons, ih]
      by_cases hmine : (w.index p).toNat = me
      · simp [handoffOne, HandoffRuntime.place, goesTo, hmine]
      · simp [handoffOne, HandoffRuntime.place, goesTo, hmine]

end Workers

/-! ## `sf_pkt_hf_input` -/

/-- The round of `sf_pkt_hf_input_node` for one packet. -/
def hfInputOne (cnt : HandoffCnt) (p : Pkt) : HandoffCnt × InputNode :=
  let cnt := cnt.count p
  let next0 : InputNode := .ethInput
  (cnt, if p.unused8 &&& UNUSED8_FLAG_HUGE_PKT ≠ 0 then .hugePktInput else next0)

/-- The round for two packets. -/
def hfInputTwo (cnt : HandoffCnt) (p q : Pkt) : HandoffCnt × InputNode × InputNode :=
  let next0 : InputNode := .ethInput
  let next1 : InputNode := .ethInput
  let cnt := (cnt.count p).count q
  (cnt, if p.unused8 &&& UNUSED8_FLAG_HUGE_PKT ≠ 0 then .hugePktInput else next0,
    if q.unused8 &&& UNUSED8_FLAG_HUGE_PKT ≠ 0 then .hugePktInput else next1)

theorem hfInput_unrolled : DualLoop.Unrolled hfInputOne hfInputTwo := by
  intro cnt p q
  rfl

theorem hfInput_singles (cnt : HandoffCnt) (frame : List Pkt) :
    DualLoop.singles hfInputOne cnt frame
      = (frame.foldl HandoffCnt.count cnt, frame.map Pkt.inputNode) := by
  induction frame generalizing cnt with
  | nil => rfl
  | cons p frame ih =>
      rw [DualLoop.singles, ih]
      rfl

/-! ## The queues -/

/-- The frame queues between the threads. `waiting` is what a worker has put in for a thread and
that thread has not been given, and `Dequeue` gives a thread a frame, whose packets may come from
several workers. -/
structure FrameQueues where
  State : Type
  empty : State
  vlibBufferEnqueueToThread : State → Nat → List (Pkt × UInt16) → State
  Dequeue : State → Nat → List (Nat × Pkt) → State → Prop
  waiting : State → Nat → Nat → List Pkt

/-- The packets of a frame that come from this worker. -/
def fromWorker (source : Nat) (frame : List (Nat × Pkt)) : List Pkt :=
  (frame.filter fun x => x.1 = source).map Prod.snd

/-- The packets for this thread. -/
def forThread (thread : Nat) (items : List (Pkt × UInt16)) : List Pkt :=
  (items.filter fun item => item.2.toNat = thread).map Prod.fst

/-- Queues that do not drop: what is put in waits behind what the worker has put in before, and
what a thread is given is the first that waits. -/
structure FrameQueues.Lossless (v : FrameQueues) : Prop where
  empty : ∀ source thread, v.waiting v.empty source thread = []
  enqueue : ∀ q me items source thread,
    v.waiting (v.vlibBufferEnqueueToThread q me items) source thread
      = v.waiting q source thread ++ if source = me then forThread thread items else []
  dequeue : ∀ q me frame q', v.Dequeue q me frame q' → ∀ source thread,
    v.waiting q source thread
      = (if thread = me then fromWorker source frame else []) ++ v.waiting q' source thread

/-! ## All workers -/

/-- The packets that came to a worker, the queues, and the packets that a worker took with the
worker they came to and the node that takes them. -/
structure Dispatch (v : FrameQueues) where
  arrived : Nat → List Pkt
  queues : v.State
  taken : Nat → List (Nat × Pkt × InputNode)
  cnt : Nat → HandoffCnt

inductive DispatchEvent where
  | handoff (me : Nat)
  | hfInput (me : Nat)

/-- A worker handles a frame of packets it received, or one from its queues. -/
inductive DispatchStep (w : Workers) (v : FrameQueues) :
    Dispatch v → DispatchEvent → Dispatch v → Prop where
  | handoff {s me rt} (frame : List Pkt) :
      me < w.numWorkers.toNat → rt = w.handoffLoop me ⟨[], [], s.cnt me⟩ frame →
      DispatchStep w v s (.handoff me)
        { arrived := Function.update s.arrived me (s.arrived me ++ frame)
          queues :=
            if 0 < rt.handoff.length then v.vlibBufferEnqueueToThread s.queues me rt.handoff
            else s.queues
          taken := Function.update s.taken me
            (s.taken me ++ rt.self.map fun item => (me, item.1, item.2))
          cnt := Function.update s.cnt me rt.cnt }
  | hfInput {s me frame queues nexts cnt} :
      me < w.numWorkers.toNat → v.Dequeue s.queues (me + 1) frame queues →
      DualLoop.Loops hfInputOne hfInputTwo 2 (s.cnt me) (frame.map Prod.snd) cnt nexts →
      DispatchStep w v s (.hfInput me)
        { s with
          queues
          taken := Function.update s.taken me
            (s.taken me ++ (frame.zip nexts).map fun item => (item.1.1, item.1.2, item.2))
          cnt := Function.update s.cnt me cnt }

variable {v : FrameQueues}

/-- Before the first packet. -/
def Dispatch.start (v : FrameQueues) : Dispatch v where
  arrived _ := []
  queues := v.empty
  taken _ := []
  cnt _ _ := 0

/-- The packets that worker `d` has taken of those that came to `source`. -/
def Dispatch.takenFrom (s : Dispatch v) (source d : Nat) : List Pkt :=
  ((s.taken d).filter fun t => t.1 = source).map fun t => t.2.1

/-- What wait in the queues of the packets that came to `source` for worker `d`. -/
def Dispatch.queue (s : Dispatch v) (source d : Nat) : List Pkt :=
  v.waiting s.queues source (d + 1)

/-- Packets with the workers they came to, as they are taken. -/
def takeAll (frame : List (Nat × Pkt)) : List (Nat × Pkt × InputNode) :=
  frame.map fun x => (x.1, x.2, x.2.inputNode)

/-- What worker `me` takes besides. -/
theorem takenFrom_update {s s' : Dispatch v} {me : Nat} {frame : List (Nat × Pkt)}
    (h : s'.taken = Function.update s.taken me (s.taken me ++ takeAll frame)) (source d : Nat) :
    s'.takenFrom source d
      = s.takenFrom source d ++ if d = me then fromWorker source frame else [] := by
  by_cases hd : d = me
  · subst hd
    rw [Dispatch.takenFrom, h, Function.update_self, List.filter_append, List.map_append,
      if_pos rfl, takeAll, List.filter_map, List.map_map]
    rfl
  · simp [Dispatch.takenFrom, h, hd]

/-- What holds between two frames. -/
structure Dispatched (w : Workers) (s : Dispatch v) : Prop where
  own : ∀ d, s.queue d d = []
  exact : ∀ source d, s.takenFrom source d ++ s.queue source d
    = (s.arrived source).filter (w.goesTo d)
  next : ∀ d, ∀ t ∈ s.taken d, t.2.2 = t.2.1.inputNode
  cnt : ∀ d, s.cnt d = ((s.taken d).map fun t => t.2.1).foldl HandoffCnt.count fun _ => 0

namespace Dispatched

variable {w : Workers}

theorem start (lossless : v.Lossless) : Dispatched w (.start v) where
  own _ := lossless.empty _ _
  exact _ _ := lossless.empty _ _
  next _ _ h := by cases h
  cnt _ := rfl

/-- The packets that a worker takes are counted, and go to the node they are for. -/
theorem taken {s u : Dispatch v} {me : Nat} {frame : List (Nat × Pkt)} (h : Dispatched w s)
    (htaken : u.taken = Function.update s.taken me (s.taken me ++ takeAll frame))
    (hcnt : u.cnt = Function.update s.cnt me
      ((frame.map Prod.snd).foldl HandoffCnt.count (s.cnt me))) :
    (∀ d, ∀ t ∈ u.taken d, t.2.2 = t.2.1.inputNode) ∧
      ∀ d, u.cnt d = ((u.taken d).map fun t => t.2.1).foldl HandoffCnt.count fun _ => 0 := by
  constructor
  · intro d t ht
    by_cases hd : d = me
    · subst hd
      rw [htaken, Function.update_self, List.mem_append] at ht
      rcases ht with ht | ht
      · exact h.next d t ht
      · obtain ⟨x, -, rfl⟩ := List.mem_map.mp ht
        rfl
    · rw [htaken, Function.update_of_ne hd] at ht
      exact h.next d t ht
  · intro d
    by_cases hd : d = me
    · subst hd
      rw [htaken, hcnt, Function.update_self, Function.update_self, h.cnt d, List.map_append,
        List.foldl_append, takeAll, List.map_map]
      rfl
    · rw [htaken, hcnt, Function.update_of_ne hd, Function.update_of_ne hd, h.cnt d]

/-- What goes to another worker waits for it. -/
theorem forThread_others (w : Workers) (me d : Nat) (frame : List Pkt) :
    forThread (d + 1) ((frame.filter fun p => !w.goesTo me p).map fun p => (p, w.index p + 1))
      = if d = me then [] else frame.filter (w.goesTo d) := by
  rw [forThread, List.filter_map, List.filter_filter, List.map_map]
  simp only [Function.comp_def, w.index_succ, Nat.succ_inj]
  by_cases hd : d = me
  · simp [Workers.goesTo, hd]
  · have hother : ∀ p ∈ frame, (decide ((w.index p).toNat = d) && !w.goesTo me p)
        = w.goesTo d p := by
      intro p _
      by_cases hp : (w.index p).toNat = d
      · simp [Workers.goesTo, hp, hd]
      · simp [Workers.goesTo, hp]
    rw [if_neg hd, List.filter_congr hother, List.map_id']

/-- The queues are left alone when nothing is for another worker. -/
theorem waiting_handoff (lossless : v.Lossless) (q : v.State) (me : Nat)
    (items : List (Pkt × UInt16)) (source thread : Nat) :
    v.waiting (if 0 < items.length then v.vlibBufferEnqueueToThread q me items else q) source thread
      = v.waiting q source thread ++ if source = me then forThread thread items else [] := by
  by_cases hsome : 0 < items.length
  · rw [if_pos hsome, lossless.enqueue]
  · obtain rfl := List.eq_nil_of_length_eq_zero (Nat.eq_zero_of_not_pos hsome)
    rw [if_neg hsome]
    simp [forThread]

theorem handoff {s u : Dispatch v} {me : Nat} (h : Dispatched w s) (lossless : v.Lossless)
    (frame : List Pkt) {rt : HandoffRuntime} (hrt : rt = w.handoffLoop me ⟨[], [], s.cnt me⟩ frame)
    (harrived : u.arrived = Function.update s.arrived me (s.arrived me ++ frame))
    (hqueues : u.queues =
      if 0 < rt.handoff.length then v.vlibBufferEnqueueToThread s.queues me rt.handoff
      else s.queues)
    (htaken : u.taken = Function.update s.taken me
      (s.taken me ++ rt.self.map fun item => (me, item.1, item.2)))
    (hcnt : u.cnt = Function.update s.cnt me rt.cnt) : Dispatched w u := by
  rw [w.handoffLoop_eq] at hrt
  subst hrt
  have hself : (((frame.filter (w.goesTo me)).map fun p => (p, p.inputNode)).map
        fun item => (me, item.1, item.2)) = takeAll ((frame.filter (w.goesTo me)).map (me, ·)) := by
    simp [takeAll, Function.comp_def]
  have hmine : ((frame.filter (w.goesTo me)).map (me, ·)).map Prod.snd
      = frame.filter (w.goesTo me) := by
    simp [Function.comp_def]
  rw [List.nil_append, hself] at htaken
  obtain ⟨hnext, hcounted⟩ := h.taken htaken (by rw [hmine]; exact hcnt)
  have hqueue : ∀ source d, u.queue source d = s.queue source d ++
      if source = me then (if d = me then [] else frame.filter (w.goesTo d)) else [] := by
    intro source d
    rw [Dispatch.queue, hqueues, waiting_handoff lossless]
    dsimp only
    rw [List.nil_append, forThread_others]
    rfl
  refine { own := ?_, exact := ?_, next := hnext, cnt := hcounted }
  · intro d
    rw [hqueue, h.own]
    by_cases hd : d = me
    · simp [hd]
    · simp [hd]
  · intro source d
    rw [hqueue, takenFrom_update htaken, harrived]
    by_cases hsource : source = me
    · subst hsource
      rw [Function.update_self, List.filter_append, ← h.exact source d]
      by_cases hd : d = source
      · subst hd
        simp [h.own, fromWorker, List.filter_map, Function.comp_def]
      · simp [hd]
    · have hnone : fromWorker source ((frame.filter (w.goesTo me)).map (me, ·)) = [] := by
        rw [fromWorker, List.filter_map]
        simp [Function.comp_def, Ne.symm hsource]
      simpa [Function.update_of_ne hsource, hsource, hnone] using h.exact source d

theorem hfInput {s u : Dispatch v} {me : Nat} {frame : List (Nat × Pkt)} (h : Dispatched w s)
    (lossless : v.Lossless) (hdequeue : v.Dequeue s.queues (me + 1) frame u.queues)
    (harrived : u.arrived = s.arrived)
    (htaken : u.taken = Function.update s.taken me (s.taken me ++ takeAll frame))
    (hcnt : u.cnt = Function.update s.cnt me
      ((frame.map Prod.snd).foldl HandoffCnt.count (s.cnt me))) : Dispatched w u := by
  obtain ⟨hnext, hcounted⟩ := h.taken htaken hcnt
  have hqueue : ∀ source d, s.queue source d
      = (if d = me then fromWorker source frame else []) ++ u.queue source d := by
    intro source d
    rw [Dispatch.queue, lossless.dequeue _ _ _ _ hdequeue]
    simp only [Nat.succ_inj]
    rfl
  refine { own := ?_, exact := ?_, next := hnext, cnt := hcounted }
  · intro d
    have hnil := h.own d
    rw [hqueue, List.append_eq_nil_iff] at hnil
    exact hnil.2
  · intro source d
    rw [takenFrom_update htaken, harrived, ← h.exact source d, hqueue, List.append_assoc]

theorem step {s s' : Dispatch v} {e : DispatchEvent} (lossless : v.Lossless) (h : Dispatched w s)
    (hs : DispatchStep w v s e s') : Dispatched w s' := by
  cases hs with
  | handoff frame hme hrt => exact h.handoff lossless frame hrt rfl rfl rfl rfl
  | @hfInput me frame queues nexts cnt hme hdequeue hloops =>
      have hsingles := hloops.singles hfInput_unrolled
      rw [hfInput_singles, Prod.mk.injEq] at hsingles
      obtain ⟨rfl, rfl⟩ := hsingles
      have hzip : frame.zip ((frame.map Prod.snd).map Pkt.inputNode)
          = frame.map fun x => (x, x.2.inputNode) := by
        rw [List.map_map]
        simpa using List.zip_map' (f := id) (g := Pkt.inputNode ∘ Prod.snd) (l := frame)
      refine h.hfInput (u := ⟨_, queues, _, _⟩) lossless hdequeue rfl ?_ rfl
      dsimp only
      rw [hzip, List.map_map]
      rfl

end Dispatched

theorem foldl_count (cnt : HandoffCnt) (frame : List Pkt) (i : UInt8) :
    frame.foldl HandoffCnt.count cnt (i.toNat - 1)
      = cnt (i.toNat - 1) + UInt64.ofNat (frame.countP fun p => p.interfaceId = i) := by
  induction frame generalizing cnt with
  | nil => simp
  | cons p frame ih =>
      rw [List.foldl_cons, ih, List.countP_cons]
      by_cases hp : p.interfaceId = i
      · simp only [HandoffCnt.count, hp, Function.update_self, decide_true, if_true,
          UInt64.ofNat_add, UInt64.add_assoc]
        rw [UInt64.add_comm 1]
        rfl
      · have hne : (i.toNat : Int) - 1 ≠ (p.interfaceId.toNat : Int) - 1 := by
          intro heq
          apply hp
          rw [← UInt8.toNat_inj]
          omega
        simp [HandoffCnt.count, hp, Function.update_of_ne hne]

/-- The packets that `flow` picks are of one flow of IP packets without tags. -/
def OneFlow (version : IpVersion) (flow : Pkt → Bool) : Prop :=
  ∀ p q, flow p → flow q → Carries version 0 p.data ∧
    SameFlow version (p.data.skip (ipOffset 0)) (q.data.skip (ipOffset 0))

theorem OneFlow.index {w : Workers} {version : IpVersion} {flow : Pkt → Bool}
    (h : OneFlow version flow) : ∃ d, ∀ p, flow p → (w.index p).toNat = d := by
  by_cases hsome : ∃ q, flow q
  · obtain ⟨q, hq⟩ := hsome
    refine ⟨(w.index q).toNat, ?_⟩
    intro p hp
    have hkey : hashKey p.data = hashKey q.data := by
      rw [hashKey_untagged (h p q hp hq).1, hashKey_untagged (h q p hq hp).1,
        ipKey_eq (h p q hp hq).2]
    rw [Workers.index, Workers.index, sfPktGetWorkerIndex, sfPktGetWorkerIndex, hkey]
  · exact ⟨0, fun p hp => absurd ⟨p, hp⟩ hsome⟩

/-- However the workers take turns: of the packets that came to a worker, each worker has taken or
is going to take just those that are its own, in the order in which they came. Each is counted
where it is taken, and a flow is taken by one worker. -/
theorem dispatch_exact {w : Workers} {v : FrameQueues} (lossless : v.Lossless)
    {events : List DispatchEvent} {s : Dispatch v}
    (run : Run (DispatchStep w v) (.start v) events s) :
    (∀ source d, s.takenFrom source d ++ s.queue source d
      = (s.arrived source).filter (w.goesTo d)) ∧
    (∀ d, ∀ t ∈ s.taken d, t.2.2 = t.2.1.inputNode) ∧
    (∀ d (i : UInt8), s.cnt d (i.toNat - 1)
      = UInt64.ofNat ((s.taken d).countP fun t => t.2.1.interfaceId = i)) ∧
    ∀ version flow, OneFlow version flow → ∃ d, ∀ source,
      (s.takenFrom source d).filter flow ++ (s.queue source d).filter flow
        = (s.arrived source).filter flow ∧
      ∀ d', d' ≠ d → (s.takenFrom source d').filter flow = [] := by
  have h : Dispatched w s :=
    run.invariant (Dispatched.start lossless) fun _ _ _ h hs => h.step lossless hs
  refine ⟨h.exact, h.next, ?_, ?_⟩
  · intro d i
    rw [h.cnt d, foldl_count, List.countP_map]
    simp [Function.comp_def]
  · intro version flow hflow
    obtain ⟨d, hd⟩ := hflow.index (w := w)
    refine ⟨d, ?_⟩
    intro source
    constructor
    · rw [← List.filter_append, h.exact, List.filter_filter]
      apply List.filter_congr
      intro p _
      cases hp : flow p with
      | false => rfl
      | true => simp [Workers.goesTo, hd p hp]
    · intro d' hne
      have hmine : ∀ p ∈ s.takenFrom source d', w.goesTo d' p := by
        intro p hp
        have hmem : p ∈ (s.arrived source).filter (w.goesTo d') := by
          rw [← h.exact source d']
          exact List.mem_append_left _ hp
        exact (List.mem_filter.mp hmem).2
      rw [List.filter_eq_nil_iff]
      intro p hp hpflow
      have hindex := hmine p hp
      rw [Workers.goesTo, decide_eq_true_eq, hd p hpflow] at hindex
      exact hne hindex.symm

/-- One list for each worker and thread. -/
abbrev ListQueues := Nat → Nat → List Pkt

namespace ListQueues

def enqueue (q : ListQueues) (me : Nat) (items : List (Pkt × UInt16)) : ListQueues :=
  Function.update q me fun thread => q me thread ++ forThread thread items

/-- A frame is the beginning of one of the lists. -/
def Dequeue (q : ListQueues) (me : Nat) (frame : List (Nat × Pkt)) (q' : ListQueues) : Prop :=
  ∃ source first rest, q source me = first ++ rest ∧ frame = first.map (source, ·) ∧
    q' = Function.update q source (Function.update (q source) me rest)

theorem enqueue_apply (q : ListQueues) (me : Nat) (items : List (Pkt × UInt16))
    (source thread : Nat) : q.enqueue me items source thread
      = q source thread ++ if source = me then forThread thread items else [] := by
  by_cases hsource : source = me
  · subst hsource
    simp [enqueue]
  · simp [enqueue, hsource]

theorem Dequeue.apply {q q' : ListQueues} {me : Nat} {frame : List (Nat × Pkt)}
    (h : q.Dequeue me frame q') (source thread : Nat) : q source thread
      = (if thread = me then fromWorker source frame else []) ++ q' source thread := by
  obtain ⟨src, first, rest, hq, rfl, rfl⟩ := h
  have hframe : fromWorker source (first.map (src, ·)) = if source = src then first else [] := by
    rw [fromWorker, List.filter_map]
    by_cases hsource : source = src
    · simp [Function.comp_def, hsource]
    · simp [Function.comp_def, hsource, Ne.symm hsource]
  rw [hframe]
  by_cases hsource : source = src
  · subst hsource
    by_cases hthread : thread = me
    · subst hthread
      simp [hq]
    · simp [hthread]
  · simp [hsource]

end ListQueues

def listQueues : FrameQueues where
  State := ListQueues
  empty _ _ := []
  vlibBufferEnqueueToThread := ListQueues.enqueue
  Dequeue := ListQueues.Dequeue
  waiting q := q

theorem listQueues_lossless : listQueues.Lossless where
  empty _ _ := rfl
  enqueue := ListQueues.enqueue_apply
  dequeue _ _ _ _ h := h.apply

/-- A worker that receives five packets keeps two, and the other one takes two of its three. -/
def twoWorkers : Workers := ⟨⟨id, fun _ => true⟩, 2, by decide, by decide⟩

def samplePkt (type : UInt8) : Pkt where
  bi := type.toUInt32
  data i := if i = 12 then type else 0
  interfaceId := 1
  unused8 := if type = 3 then UNUSED8_FLAG_HUGE_PKT else 0

theorem dispatch_exact_two : ∃ s,
    Run (DispatchStep twoWorkers listQueues) (.start listQueues) [.handoff 0, .hfInput 1] s ∧
      s.arrived 0 = [1, 2, 3, 4, 5].map samplePkt ∧ s.queue 0 1 = [samplePkt 5] ∧
      s.takenFrom 0 1 ++ s.queue 0 1 = (s.arrived 0).filter (twoWorkers.goesTo 1) ∧
      s.cnt 1 0 = UInt64.ofNat ((s.taken 1).countP fun t => t.2.1.interfaceId = 1) := by
  have hrun : ∃ s,
      Run (DispatchStep twoWorkers listQueues) (.start listQueues) [.handoff 0, .hfInput 1] s ∧
        s.arrived 0 = [1, 2, 3, 4, 5].map samplePkt ∧ s.queue 0 1 = [samplePkt 5] := by
    apply Exists.intro
    apply And.intro
    · apply Run.cons (DispatchStep.handoff ([1, 2, 3, 4, 5].map samplePkt) (by decide) rfl)
      apply Run.cons
      · exact @DispatchStep.hfInput _ _ _ 1 ([1, 3].map fun type => (0, samplePkt type)) _ _ _
          (by decide) ⟨0, [1, 3].map samplePkt, [5].map samplePkt, rfl, rfl, rfl⟩
          (.of_singles _ _)
      · exact .refl _
    · exact ⟨rfl, rfl⟩
  obtain ⟨s, run, harrived, hqueue⟩ := hrun
  obtain ⟨hexact, -, hcnt, -⟩ := dispatch_exact listQueues_lossless run
  exact ⟨s, run, harrived, hqueue, hexact 0 1, hcnt 1 1⟩

end Tapplet.Net
