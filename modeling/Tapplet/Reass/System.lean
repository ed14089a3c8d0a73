import Tapplet.Lib.Run
import Tapplet.Reass.Arrival
import Tapplet.Reass.Nodes

/-!
# Runs of reassembly

One worker with its reassembly nodes, step by step. A fragment arrives at a node, a frame
ends, the clock advances, the timer input node runs, a delivered timer is handled, or a
built packet comes to the forward node. The steps may come in any order.

The fragments come from `sf_ip4_input` and `sf_ip6_input`. What reassembly builds goes on to
`sf_tcp_input`, `sf_udp_input` or `sf_acl_entry`, none of which leads back to these, so a
packet that arrives was not built here.

`flying` are the built packets that were handed on and have not come to the forward node
yet. The fields from `fragment` on are not in the source. They record what each buffer came
in with, which buffers came in and were made, which timers were handled while their datagram
was waiting, and what the processing of each fragment returned.
-/

namespace Tapplet.Reass

open SfTimer Transition

/-- A built packet as the next node finds it: the metadata, the bytes before the payload, the
payload, and the fragments behind it. -/
structure Reassembled where
  children : List Fragment
  wdata : Wdata
  ipReassOutput : Nat
  interfaceId : Nat
  header : List UInt8
  payload : List UInt8

/-- What the processing of a fragment returned. -/
structure Result where
  fragment : Fragment
  ret : Option BufferId
  status : Int
  packet : Option Reassembled

structure System extends Graph where
  pendingTimers : List Nat
  gets : Nat
  flying : List BufferId
  fragment : BufferId → Fragment
  entered : List BufferId
  created : List BufferId
  timedOut : List Nat
  results : List Result

/-- The `n` bytes from a pointer on. -/
def loadBytes (mem : PacketMem) (p : DataPtr) (n : Nat) : List UInt8 :=
  (List.range n).map (load mem p)

/-- The cached fragments of a built buffer. -/
def Worker.children (s : Worker) (b : BufferId) : List BufferId :=
  s.chain ipReassMaxCachePkts (s.record b).childFrag

/-- The packet in a built buffer, where `fragment` is what the buffers came in with. -/
def Worker.reassembled (s : Worker) (fragment : BufferId → Fragment) (b : BufferId) :
    Reassembled where
  children := (s.children b).map fragment
  wdata := s.wdata b
  ipReassOutput := (s.record b).ipReassOutput
  interfaceId := (s.record b).interfaceId
  header := loadBytes s.mem (s.wdata b).dataPtr (s.wdata b).currentData
  payload := loadBytes s.mem (s.wdata b).current (s.wdata b).currentLength

/-- `bytes` are the contents of the block of the packet. -/
inductive Event where
  | packet (v : Version) (b : BufferId) (w : Wdata) (bytes : Nat → UInt8) (o : Outside)
  | endFrame (v : Version)
  | clock (d : Nat)
  | poll
  | onTimer
  | forward (b : BufferId) (w : Wdata)

/-- The fragment that arrives. -/
def arriving (v : Version) (b : BufferId) (w : Wdata) (bytes : Nat → UInt8) (o : Outside) :
    Fragment where
  buffer := b
  version := v
  wdata := w
  data := fun i => bytes (w.dataPtr.offset + i)
  output := o.ipReassOutputEnable (w.interfaceId - 1)

/-- The worker with a packet in the buffer `b`. -/
def Worker.receive (s : Worker) (b : BufferId) (w : Wdata) (bytes : Nat → UInt8) : Worker :=
  { s with
    wdata := Function.update s.wdata b w
    mem :=
      match w.dataPtr.block with
      | none => s.mem
      | some blk => Function.update s.mem blk bytes }

namespace System

variable (env : Env) (nenv : NodeEnv) (S : System)

/-- The processing of a fragment. -/
def proc (v : Version) (b : BufferId) (w : Wdata) (bytes : Nat → UInt8) (o : Outside) :
    Worker × Option BufferId × Int :=
  fragProc v.fields env (S.worker.receive b w bytes) o b

/-- One round of the loop of a reassembly node. -/
def packet (v : Version) (b : BufferId) (w : Wdata) (bytes : Nat → UInt8) (o : Outside) :
    System :=
  let f := arriving v b w bytes o
  let fragment := Function.update S.fragment b f
  let r := S.proc env v b w bytes o
  let built := if r.2.2 = 0 then r.2.1 else none
  { S with
    toGraph := { S.toGraph with worker := r.1 }.dispatch v r.2.1 r.2.2
    flying := built.toList ++ S.flying
    fragment := fragment
    entered := S.entered ++ [b]
    created := S.created ++ built.toList
    results := S.results ++ [⟨f, r.2.1, r.2.2, built.map (r.1.reassembled fragment)⟩] }

/-- A run of the timer input node. -/
def poll : System :=
  let p := sfTimerInputNode nenv ⟨S.worker.tw, S.worker.chunkHeld, [], S.gets, 0⟩ S.worker.now
  { S with
    worker := { S.worker with tw := p.tw, chunkHeld := p.held }
    gets := p.gets
    pendingTimers := S.pendingTimers ++ Books.sentTimers nenv p.sent }

/-- `ip_reass_on_timer` handles the first timer on its way. -/
def onTimer : System :=
  match S.pendingTimers with
  | [] => S
  | info :: rest =>
      { S with
        toGraph := S.toGraph.onTimer info
        pendingTimers := rest
        timedOut :=
          match (S.worker.timerData info).pnode with
          | none => S.timedOut
          | some _ => info :: S.timedOut }

/-- The forward node takes a built packet apart, which has the metadata `w` by now. -/
def forward (b : BufferId) (w : Wdata) : System :=
  let s := { S.worker with wdata := Function.update S.worker.wdata b w }
  { S with
    toGraph := { S.toGraph with worker := s }.forward b
    flying := S.flying.erase b
    entered := S.entered ++ [b] }

def after : Event → System
  | .packet v b w bytes o => S.packet env v b w bytes o
  | .endFrame v => { S with toGraph := S.toGraph.enqueueToNext v }
  | .clock d => { S with worker := { S.worker with now := S.worker.now + d } }
  | .poll => S.poll nenv
  | .onTimer => S.onTimer
  | .forward b w => S.forward b w

/-- The buffer came in or was made, and was not enqueued since. -/
def Inside (b : BufferId) : Prop :=
  (S.enqueued.map Prod.fst).count b < (S.entered ++ S.created).count b

instance (b : BufferId) : Decidable (S.Inside b) := inferInstanceAs (Decidable (_ < _))

/-- The data of a packet in the block `p` is not that of another buffer in reassembly. -/
def Unshared (p : Option Block) : Prop :=
  ∀ c ∈ S.entered ++ S.created, S.Inside c → (S.worker.wdata c).dataPtr.block ≠ p

instance (p : Option Block) : Decidable (S.Unshared p) :=
  inferInstanceAs (Decidable (∀ c ∈ S.entered ++ S.created, S.Inside c → _ ≠ p))

end System

/-- What the surrounding nodes and the pools promise: a buffer that arrives is not in reassembly
at that time, its data is its own, and the pools hand out what nobody holds. -/
def Enabled (S : System) : Event → Prop
  | .packet _ b w _ o =>
      (¬S.Inside b ∧ b ∉ S.flying ∧ ¬w.isReass ∧ w.ipWdataCnt < 2 ^ 8) ∧
        (w.dataPtr.block ≠ none ∧ S.Unshared w.dataPtr.block) ∧
        (∀ blk ∈ o.newHuge, w.dataPtr.block ≠ some blk ∧ S.Unshared (some blk)) ∧
        (∀ c ∈ o.newBuffer, c ≠ b ∧ ¬S.Inside c ∧ c ∉ S.flying) ∧
        (∀ n ∈ o.newNode, S.worker.nodePool.Has n) ∧
        (∀ i ∈ o.newInfo, S.worker.infoPool.Has i ∧ Fits S.worker.tw i) ∧
        ∀ c ∈ o.newChunk, c ∉ S.worker.chunkHeld
  | .forward b w => b ∈ S.flying ∧ ¬S.Inside b ∧ w.isReass
  | _ => True

instance (S : System) (e : Event) : Decidable (Enabled S e) := by
  cases e <;> unfold Enabled <;> infer_instance

def Step (env : Env) (nenv : NodeEnv) (S : System) (e : Event) (T : System) : Prop :=
  Enabled S e ∧ T = S.after env nenv e

/-- The start: empty tables and pools, and a wheel that was just set up. `w` is what the memory
happens to hold. -/
def System.init (w : Worker) (arr : EnqueueArrays) (timerInfoStart timerInterval : Nat) :
    System where
  worker :=
    { w with
      nodePool := ⟨[], []⟩
      infoPool := ⟨[], []⟩
      hugePool := ⟨[], []⟩
      tw := sfTwTimerInit timerInfoStart timerInterval w.tw.chunk
      chunkHeld := []
      now := 0
      table := { w.table with buckets := fun _ => ⟨0, none⟩ }
      copies := []
      completed := [] }
  arr := fun _ => { arr with top := 0 }
  preIndex := fun _ => 0
  timerArr := { arr with top := 0 }
  forwardArr := { arr with top := 0 }
  enqueued := []
  pendingTimers := []
  gets := 0
  flying := []
  fragment := fun b => ⟨b, .ip4, w.wdata b, fun _ => 0, 0⟩
  entered := []
  created := []
  timedOut := []
  results := []

end Tapplet.Reass
