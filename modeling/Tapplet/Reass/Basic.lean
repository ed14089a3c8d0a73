import Tapplet.Hash.Generic
import Tapplet.Timer.Input
import Tapplet.Reass.Packet

/-!
# Fragment processing

`ip4_frag_proc` and `ip6_frag_proc` with everything they call: the datagram nodes in the
hash table, their timers, and the building of the reassembled packet. The state is that
of one worker. What a call reads from outside is `Outside`: the configuration, and what
the pools hand out.

`copies`, `completed` and the two lists of a pool are not in the source. They record the
copies that the build functions make, the datagrams that were found to be complete, and
what was taken from and returned to a pool.
-/

namespace Tapplet.Reass

open GenericHash SfTimer

abbrev NodeId := Nat

/-- `node_ip_reass_t`. -/
structure NodeIpReass where
  key : KeyIpReass
  head : Option BufferId
  tail : Option BufferId
  recvNewPktInInterval : Nat
  cachePktNum : Nat
  recvLastFrag : Nat
  totalLen : Nat
  meetLen : Nat
  interfaceId : Nat

/-- A node after `memset` to zero, with its key. -/
def NodeIpReass.zero (key : KeyIpReass) : NodeIpReass := ⟨key, none, none, 0, 0, 0, 0, 0, 0⟩

/-- `ip_reass_timer_data_t`, the contents of a timer info. -/
structure IpReassTimerData where
  hashIndex : Nat
  pnode : Option NodeId

/-- What was taken from a pool and what was returned to it. -/
structure Pool (α : Type) where
  allocated : List α
  freed : List α

def Pool.alloc {α : Type} (p : Pool α) (x : α) : Pool α := { p with allocated := x :: p.allocated }

def Pool.free {α : Type} (p : Pool α) (x : α) : Pool α := { p with freed := x :: p.freed }

/-- A copy of `len` bytes to `dst` while a packet is built in `huge`. -/
structure Copy where
  huge : Option Block
  dst : DataPtr
  len : Nat
  deriving DecidableEq

/-- A datagram that was found to be complete: what its node held, and the offsets and sizes
of its cached fragments. -/
structure Completion where
  totalLen : Nat
  recvLastFrag : Nat
  intervals : List (Nat × Nat)
  deriving DecidableEq

/-- The timers of the datagrams, and the pools of their infos and of the nodes. -/
structure Bookkeeping where
  nodePool : Pool NodeId
  timerRecord : NodeId → SfTimerRecord
  timerData : Nat → IpReassTimerData
  infoPool : Pool Nat
  tw : SfTwTimer
  chunkHeld : List ChunkId
  now : Nat

structure Worker extends Bookkeeping where
  mem : PacketMem
  wdata : BufferId → Wdata
  record : BufferId → IpReassRecord
  table : Table NodeId
  node : NodeId → NodeIpReass
  hugePool : Pool (Option Block)
  copies : List Copy
  completed : List Completion

/-- What one call reads from outside. -/
structure Outside where
  ipReassLayers : Nat → Nat
  ipReassOutputEnable : Nat → Nat
  newNode : Option NodeId
  newInfo : Option Nat
  newChunk : Option ChunkId
  newHuge : Option Block
  newBuffer : Option BufferId

/-- Functions that the code gets from elsewhere: the hash of a key, and the IPv4 header
checksum of the headers library. -/
structure Env where
  getHashIndex : List UInt8 → Nat
  ip4HeaderChecksum : View → Nat

/-- `IP_REASS_MAX_CACHE_PKTS`. -/
def ipReassMaxCachePkts : Nat := 10

/-- `IP_REASS_DEFAULT_TIMEOUT_SEC`, which nothing changes. -/
def timeoutSec : Nat := 3

/-- `SF_TW_TIMER_GROUP_IP_REASS`. -/
def sfTwTimerGroupIpReass : Nat := 4

/-- `SF_HUGE_PKT_PRE_DATA_SIZE`. -/
def sfHugePktPreDataSize : Nat := 128

/-- `SF_HUGE_PKT_MAX_DATA_SIZE`. -/
def sfHugePktMaxDataSize : Nat := 16 * 1024 - sfHugePktPreDataSize

namespace Worker

variable (s : Worker)

/-- The bytes from the IP header of a buffer on. -/
def view (b : BufferId) : View := load s.mem (s.wdata b).current

def setRecord (b : BufferId) (r : IpReassRecord) : Worker :=
  { s with record := Function.update s.record b r }

def setNode (n : NodeId) (d : NodeIpReass) : Worker :=
  { s with node := Function.update s.node n d }

def nextFrag (b : BufferId) : Option BufferId := (s.record b).nextFrag

/-- The buffers from `p` on, for at most `fuel` of them. -/
def chain (fuel : Nat) (p : Option BufferId) : List BufferId :=
  (Linked.collect s.nextFrag fuel p).getD []

def interval (b : BufferId) : Nat × Nat := ((s.record b).fragOffset, (s.record b).fragSize)

/-- `hashFindNode_memcmp` on the reassembly table. -/
def hashFind (hashIndex : Nat) (key : KeyIpReass) : Option NodeId :=
  hashFindNodeMemcmp s.table (fun n => (s.node n).key.bytes) hashIndex key.bytes

def hashInsert (hashIndex : Nat) (n : NodeId) : Worker :=
  { s with table := hashInsertNode s.table hashIndex n }

def hashFree (n : NodeId) (hashIndex : Nat) : Worker :=
  { s with table := hashFreeNode s.table n hashIndex }

/-- `alloc_ip_reass_hash_node`. -/
def allocNode (n : NodeId) : Worker := { s with nodePool := s.nodePool.alloc n }

/-- `free_ip_reass_hash_node`. -/
def freeNode (n : NodeId) : Worker := { s with nodePool := s.nodePool.free n }

def allocInfo (info : Nat) : Worker := { s with infoPool := s.infoPool.alloc info }

/-- `free_timer_info`. -/
def freeInfo (info : Nat) : Worker := { s with infoPool := s.infoPool.free info }

def setTimerData (info : Nat) (d : IpReassTimerData) : Worker :=
  { s with timerData := Function.update s.timerData info d }

end Worker

/-! ## Timers -/

/-- `ip_reass_submit_timer`. -/
def ipReassSubmitTimer (s : Worker) (pnode : NodeId) (hashIndex : Nat) (o : Outside) :
    Int × Worker :=
  match o.newInfo with
  | none => (-1, s)
  | some info =>
      let s := (s.allocInfo info).setTimerData info ⟨hashIndex, some pnode⟩
      match sfSubmitTimerTw s.tw info sfTwTimerGroupIpReass (timeoutSec * 10) o.newChunk with
      | (_, tw, none) => (-1, { s with tw := tw }.freeInfo info)
      | (_, tw, some record) =>
          (0,
            { s with
              tw := tw
              chunkHeld := heldAfterSubmit s.tw (timeoutSec * 10) o.newChunk s.chunkHeld
              timerRecord := Function.update s.timerRecord pnode record })

/-- `sf_stop_timer_void`: a timer that cannot have expired is taken out of the wheel and its
info freed, otherwise its info is zeroed. -/
def sfStopTimerVoid (s : Worker) (record : SfTimerRecord) : Worker :=
  if s.now < record.safeClibTime then
    { s with tw := s.tw.setSlot record.slotHandler 0 }.freeInfo record.timerInfo
  else s.setTimerData record.timerInfo ⟨0, none⟩

/-- `ip_reass_delete_timer`. -/
def ipReassDeleteTimer (s : Worker) (pnode : NodeId) : Worker :=
  sfStopTimerVoid s (s.timerRecord pnode)

/-! ## Building the packet -/

/-- The variables of the copy loop of the build functions. -/
structure Build where
  mem : PacketMem
  currentLength : Nat
  followedNodesCnt : Nat
  copies : List Copy

/-- One round of the copy loop: the payload of the fragment `t` is copied behind the header. -/
def copyFrag (s : Worker) (huge : Option Block) (dataPtr : DataPtr) (t : BufferId) (c : Build) :
    Build :=
  let r := s.record t
  let dst := dataPtr.add r.fragOffset
  { mem := memcpy c.mem dst ((s.wdata t).current.add r.ipHdrLen) r.fragSize
    currentLength := (c.currentLength + r.fragSize) % 2 ^ 16
    followedNodesCnt := (c.followedNodesCnt + r.followedNodesCnt + 1) % 2 ^ 8
    copies := c.copies ++ [⟨huge, dst, r.fragSize⟩] }

/-- The copy loop along the cached fragments, for at most `fuel` of them. -/
def copyFrags (s : Worker) (huge : Option Block) (dataPtr : DataPtr) :
    Nat → Option BufferId → Build → Build
  | _, none, c => c
  | 0, some _, c => c
  | fuel + 1, some t, c =>
      copyFrags s huge dataPtr fuel (s.nextFrag t) (copyFrag s huge dataPtr t c)

/-- `update_ip_reass_pkt`: the length fields of the header at `hdr`, and for IPv4 its
checksum. -/
def updateIpReassPkt (env : Env) (mem : PacketMem) (w : IpWdata) (hdr : DataPtr) : PacketMem :=
  let store16 (mem : PacketMem) (i x : Nat) : PacketMem :=
    store mem (hdr.add i) 2 fun j => UInt8.ofNat (x / 256 ^ j)
  if w.version = 4 then
    let total := (w.headerLen + w.payloadLen) % 2 ^ 16
    let mem := store16 mem 2 (total % 256 * 256 + total / 256)
    store16 mem 10 (env.ip4HeaderChecksum (load mem hdr))
  else
    let payload := (w.headerLen + w.payloadLen + 2 ^ 16 - 40) % 2 ^ 16
    store16 mem 4 (payload % 256 * 256 + payload / 256)

/-- `alloc_huge_pkt_16k`: the data of the node that the pool hands out. -/
def allocHugePkt16k (newHuge : Option Block) : DataPtr :=
  (DataPtr.mk newHuge 0).add sfHugePktPreDataSize

/-- The body of `ip4_frag_build_pkt` and `ip6_frag_build_pkt` once both allocations have
succeeded: `first` is the first cached fragment and `b` the new buffer. -/
def buildInto (F : FragFields) (env : Env) (s : Worker) (first b : BufferId) (huge : Option Block)
    (cnt : Nat) : Worker :=
  let w := s.wdata first
  let r := s.record first
  let dataPtr := allocHugePkt16k huge
  let hdr := dataPtr.add w.currentData
  -- the bytes before the IP header, then the header
  let mem := memcpy s.mem dataPtr w.dataPtr w.currentData
  let mem := F.clearFrag (memcpy mem hdr w.current r.ipHdrLen) hdr r.ipHdrLen
  let start : Build :=
    { mem := mem
      currentLength := 0
      followedNodesCnt := 0
      copies := s.copies ++ [⟨huge, dataPtr, w.currentData⟩, ⟨huge, hdr, r.ipHdrLen⟩] }
  let c := copyFrags s huge (hdr.add r.ipHdrLen) cnt (some first) start
  let newWdata : Wdata :=
    { w with
      unused8 := w.unused8 ||| unused8FlagIpReassPkt ||| unused8PktHugePktWithWdata
      dataPtr := dataPtr
      currentData := w.currentData + r.ipHdrLen
      currentLength := c.currentLength
      ipWdata := { w.ipWdata with payloadLen := c.currentLength, reassOver := 1 } }
  { s with
    mem := if r.ipReassOutput ≠ 0 then updateIpReassPkt env c.mem newWdata.ipWdata hdr else c.mem
    wdata := Function.update s.wdata b newWdata
    record :=
      Function.update s.record b
        { s.record b with
          followedNodesCnt := c.followedNodesCnt
          ipReassOutput := r.ipReassOutput
          interfaceId := r.interfaceId
          childFrag := some first
          nextFrag := none }
    copies := c.copies }

/-- `ip4_frag_build_pkt` and `ip6_frag_build_pkt`. Without a buffer the cached fragments are
returned as they came in, and the node of the huge pool goes back. -/
def fragBuildPkt (F : FragFields) (env : Env) (s : Worker) (o : Outside) (first : BufferId)
    (status : Nat) : Worker × Option BufferId × Int :=
  let s := { s with hugePool := s.hugePool.alloc o.newHuge }
  if allocHugePkt16k o.newHuge = .null then (s, some first, status)
  else
    match o.newBuffer with
    | none => ({ s with hugePool := s.hugePool.free o.newHuge }, some first, status)
    | some b => (buildInto F env s first b o.newHuge (status + 1), some b, 0)

/-! ## Processing a fragment -/

/-- The datagram is given up: its timer is deleted and its node released, and the cached
fragments are returned. -/
def dropDatagram (s : Worker) (pnode : NodeId) (hashIndex : Nat) :
    Worker × Option BufferId × Int :=
  let d := s.node pnode
  (((ipReassDeleteTimer s pnode).hashFree pnode hashIndex).freeNode pnode, d.head,
    d.cachePktNum)

/-- The datagram is complete: its packet is built and its node released. -/
def completeDatagram (F : FragFields) (env : Env) (s : Worker) (o : Outside) (pnode : NodeId)
    (hashIndex : Nat) : Worker × Option BufferId × Int :=
  let d := s.node pnode
  let intervals := (s.chain (d.cachePktNum + 1) d.head).map s.interval
  let s := { s with completed := s.completed ++ [⟨d.totalLen, d.recvLastFrag, intervals⟩] }
  let s := (ipReassDeleteTimer s pnode).hashFree pnode hashIndex
  match d.head with
  | none => (s.freeNode pnode, none, d.cachePktNum) -- a node in the table has fragments
  | some first =>
      let r := fragBuildPkt F env s o first d.cachePktNum
      (r.1.freeNode pnode, r.2)

/-- A cached fragment has the offset `fragOffset`. -/
def hasOffset (s : Worker) (d : NodeIpReass) (fragOffset : Nat) : Bool :=
  (Linked.search s.nextFrag (fun b => (s.record b).fragOffset = fragOffset)
    (d.cachePktNum + 1) d.head).isSome

/-- Append the fragment `b0` to the cached ones. -/
def appendFrag (s : Worker) (pnode : NodeId) (b0 : BufferId) : Worker :=
  let d := s.node pnode
  let s :=
    match d.tail with
    | none => s -- a node in the table has fragments
    | some tail => s.setRecord tail { s.record tail with nextFrag := some b0 }
  s.setNode pnode { d with tail := some b0, cachePktNum := (d.cachePktNum + 1) % 2 ^ 8 }

/-- The last fragment fixes the total length. -/
def setTotalLen (s : Worker) (pnode : NodeId) (r : IpReassRecord) : Worker :=
  s.setNode pnode
    { s.node pnode with
      recvLastFrag := 1
      totalLen := (r.fragOffset + r.fragSize) % 2 ^ 16 }

/-- `ip4_frag_proc` and `ip6_frag_proc` when the datagram of the fragment has a node. -/
def foundNode (F : FragFields) (env : Env) (s : Worker) (o : Outside) (b0 : BufferId)
    (pnode : NodeId) (hashIndex : Nat) : Worker × Option BufferId × Int :=
  let w := s.wdata b0
  let r := s.record b0
  if hasOffset s (s.node pnode) r.fragOffset then (s, some b0, 1)
  else
    let s := appendFrag s pnode b0
    if ipReassMaxCachePkts ≤ (s.node pnode).cachePktNum then dropDatagram s pnode hashIndex
    else
      let isLast := F.isLast w (s.view b0)
      let s := if isLast then setTotalLen s pnode r else s
      if isLast ∧ sfHugePktMaxDataSize < (s.node pnode).totalLen + w.currentData then
        dropDatagram s pnode hashIndex
      else
        let d := s.node pnode
        let s := s.setNode pnode { d with meetLen := (d.meetLen + r.fragSize) % 2 ^ 16 }
        if (s.node pnode).meetLen = (s.node pnode).totalLen then
          completeDatagram F env s o pnode hashIndex
        else (s.setNode pnode { s.node pnode with recvNewPktInInterval := 1 }, none, 0)

/-- `ip4_frag_proc` and `ip6_frag_proc` when the datagram of the fragment has no node. -/
def newNode (F : FragFields) (s : Worker) (o : Outside) (b0 : BufferId) (key : KeyIpReass)
    (hashIndex : Nat) : Worker × Option BufferId × Int :=
  match o.newNode with
  | none => (s, some b0, 1)
  | some pnode =>
      let s := ((s.allocNode pnode).setNode pnode (.zero key)).hashInsert hashIndex pnode
      let (ret, s) := ipReassSubmitTimer s pnode hashIndex o
      if ret ≠ 0 then ((s.hashFree pnode hashIndex).freeNode pnode, some b0, 1)
      else
        let r := s.record b0
        let s := s.setRecord b0 { r with nextFrag := none }
        let s :=
          s.setNode pnode
            { s.node pnode with
              head := some b0
              tail := some b0
              interfaceId := r.interfaceId }
        let s := if F.isLast (s.wdata b0) (s.view b0) then setTotalLen s pnode r else s
        let d := s.node pnode
        (s.setNode pnode { d with meetLen := (d.meetLen + r.fragSize) % 2 ^ 16 }, none, 0)

/-- Fill in the record of a fragment. -/
def fillRecord (F : FragFields) (s : Worker) (o : Outside) (b0 : BufferId) : Worker :=
  let w := s.wdata b0
  let r := s.record b0
  s.setRecord b0
    { r with
      nextFrag := none
      fragOffset := F.fragOffset w (s.view b0)
      fragSize := w.ipWdata.payloadLen
      ipHdrLen := w.ipWdata.headerLen
      interfaceId := w.interfaceId % 2 ^ 8
      ipReassOutput := o.ipReassOutputEnable (w.interfaceId - 1)
      followedNodesCnt := if w.isReass then r.followedNodesCnt else 0 }

/-- The common code of `ip4_frag_proc` and `ip6_frag_proc`. The result is the state, the
returned buffer and the status: a positive status hands back a chain of buffers, 0 without
a buffer waits for more fragments, 0 with one returns the reassembled packet, and -1 a
fragment of a layer that is not reassembled. -/
def fragProc (F : FragFields) (env : Env) (s : Worker) (o : Outside) (b0 : BufferId) :
    Worker × Option BufferId × Int :=
  let s := fillRecord F s o b0
  let w := s.wdata b0
  if o.ipReassLayers (w.interfaceId - 1) < w.ipWdataCnt then (s, some b0, -1)
  else
    let key := F.key w (s.view b0)
    let hashIndex := env.getHashIndex key.bytes
    match s.hashFind hashIndex key with
    | some pnode => foundNode F env s o b0 pnode hashIndex
    | none => newNode F s o b0 key hashIndex

/-- `ip4_frag_proc`. -/
def ip4FragProc : Env → Worker → Outside → BufferId → Worker × Option BufferId × Int :=
  fragProc ip4Fields

/-- `ip6_frag_proc`. -/
def ip6FragProc : Env → Worker → Outside → BufferId → Worker × Option BufferId × Int :=
  fragProc ip6Fields

end Tapplet.Reass
