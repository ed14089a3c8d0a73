import Tapplet.Lib.DualLoop
import Tapplet.Lib.Memory
import Tapplet.Lib.Run
import Tapplet.Actions.Basic
import Tapplet.Reass.Packet

/-!
# Encapsulation

`action_main.c`, `action_path_tools.h` and the three nodes that put a header in front of a packet.
`get_action_forward_path` notes in the metadata which nodes the packet is to visit, and each of
them takes the next one from there.

The memory of a packet is counted from `data_ptr`. The list of the nodes is a part of it, so that
a header may be written over it. The fields of the metadata that are read here lie at least 128
bytes further in front, and are fields of their own.
-/

namespace Tapplet.Actions

open Memory

def ACTION_TYPE_COUNT : Int := 4
def ADDITIONAL_TYPE_COUNT : Int := 3

def SF_NEXT_NODE_ACTION_GRE_ENCAPSULATION : UInt8 := 0
def SF_NEXT_NODE_ACTION_ERSPAN_ENCAPSULATION : UInt8 := 1
def SF_NEXT_NODE_ACTION_VXLAN_ENCAPSULATION : UInt8 := 2
def SF_NEXT_NODE_SF_PKT_DROP : UInt8 := 3

def VLIB_BUFFER_PRE_DATA_SIZE : Nat := 128
def VLIB_BUFFER_DATA_SIZE : Nat := 2048

def ETH_HEADER_LEN : Nat := 14
def IPV4_HEADER_LEN : Nat := 20
def IPV6_HEADER_LEN : Nat := 40
def GRE_HEADER_LEN : Nat := 4
def UDP_HEADER_LEN : Nat := 8
def VXLAN_HEADER_LEN : Nat := 8

/-- The sizes of `sf_gre_option_t`, `sf_erspan_ii_header_t` and `sf_erspan_iii_header_t`. -/
def GRE_OPTION_LEN : Nat := 4
def ERSPAN_II_HEADER_LEN : Nat := 8
def ERSPAN_III_HEADER_LEN : Nat := 12

def IP_PRO_GRE : UInt8 := 47
def IP_PRO_UDP : UInt8 := 0x11

/-- `interfaces_config->interfaces`: the fields that are read here. -/
structure Interface where
  mac : List UInt8
  ipv4Addr : List UInt8
  ipv6Addr : List UInt8
  length_mac : mac.length = 6
  length_ipv4Addr : ipv4Addr.length = 4
  length_ipv6Addr : ipv6Addr.length = 16

/-- What the nodes read in the shared memory, by the ids of actions and interfaces, and the
checksum of the headers library. -/
structure Dataplane where
  conf : Conf
  interfaces : UInt8 → Interface
  ip4HeaderChecksum : Reass.View → Nat

/-- A packet with the part of `sf_wdata_t` that is used here. `recv_for_opaque` lies at `recvAt`.
The clocks are read when the packet gets the header that wants the time. -/
structure Packet where
  mem : Int → UInt8
  recvAt : Int
  currentData : Int16
  currentLength : UInt16
  interfaceId : UInt8
  interfaceOut : UInt8
  l2HdrOffset : UInt8
  arg1ToNext : UInt16
  arg2ToNext : UInt16
  clock : UInt32

namespace Packet

def store (p : Packet) (a : Int) (bytes : List UInt8) : Packet :=
  { p with mem := Memory.store p.mem a bytes }

/-- The bytes from the current data on. -/
def frame (p : Packet) : List UInt8 := load p.mem p.currentData.toInt p.currentLength.toNat

/-- The bytes in front of the current data, and `sf_wqe_advance` back to them. -/
def prepend (p : Packet) (bytes : List UInt8) : Packet :=
  { p.store (p.currentData.toInt - bytes.length) bytes with
    currentData := p.currentData - .ofNat bytes.length
    currentLength := p.currentLength + .ofNat bytes.length }

end Packet

/-! ## Numbers in memory -/

/-- A number of two bytes. -/
def bytes16 (n : Nat) : List UInt8 := [.ofNat n, .ofNat (n / 256)]

/-- A number of two bytes in network order. -/
def netBytes16 (n : Nat) : List UInt8 := [.ofNat (n / 256), .ofNat n]

def bytes32 (n : Nat) : List UInt8 := bytes16 n ++ bytes16 (n / 65536)

def netBytes32 (n : Nat) : List UInt8 := netBytes16 (n / 65536) ++ netBytes16 n

/-! ## The list of the nodes

`sf_additional_list_t`: `delta` in two bytes, `pre_index`, `forward_id`, and the nodes. -/

namespace Packet

def preIndex (p : Packet) : UInt8 := p.mem (p.recvAt + 2)

def setPreIndex (p : Packet) (i : UInt8) : Packet := p.store (p.recvAt + 2) [i]

def resetAddtionalList (p : Packet) : Packet := p.store p.recvAt (.replicate 64 0)

def setDelta (p : Packet) (delta : Nat) : Packet := p.store p.recvAt (bytes16 delta)

/-- `*delta += size` -/
def addDelta (p : Packet) (size : Nat) : Packet :=
  p.setDelta ((p.mem p.recvAt).toNat + 256 * (p.mem (p.recvAt + 1)).toNat + size)

def appendAddtionalList (p : Packet) (value : UInt8) : Packet :=
  let p := p.store (p.recvAt + 4 + p.preIndex.toNat) [value]
  p.setPreIndex (p.preIndex + 1)

def popAddtionalList (p : Packet) : Packet × UInt8 :=
  (p.setPreIndex (p.preIndex + 1), p.mem (p.recvAt + 4 + p.preIndex.toNat))

end Packet

/-! ## Selecting the path -/

/-- `get_action` -/
def Conf.getAction (conf : Conf) (actionId : Nat) : Option Action :=
  if isValidActionId actionId then
    if (conf.actions actionId).refCounter = 0 then none else some (conf.actions actionId)
  else none

/-- `action_type_to_next_index` -/
def actionTypeToNextIndex (type : Int) : UInt8 :=
  .ofNat (type + ADDITIONAL_TYPE_COUNT - 1).toNat

/-- `switch_flags` -/
def AdditionalActions.switchFlags (a : AdditionalActions) : Bool :=
  a.flagGreEncapsulation || a.flagVxlanEncapsulation || a.flagErspanEncapsulation

/-- The nodes of an action, in the order in which they are appended. -/
def AdditionalActions.appended (a : AdditionalActions) : List UInt8 :=
  (if a.flagErspanEncapsulation then [SF_NEXT_NODE_ACTION_ERSPAN_ENCAPSULATION] else []) ++
    (if a.flagVxlanEncapsulation then [SF_NEXT_NODE_ACTION_VXLAN_ENCAPSULATION] else []) ++
    (if a.flagGreEncapsulation then [SF_NEXT_NODE_ACTION_GRE_ENCAPSULATION] else [])

/-- `get_action_forward_path` -/
def getActionForwardPath (d : Dataplane) (p : Packet) : Packet × UInt8 :=
  let action := d.conf.getAction (p.arg1ToNext.toNat + 65536 * p.arg2ToNext.toNat)
  let p := { p with arg2ToNext := 0 }
  match action with
  | none => (p, SF_NEXT_NODE_SF_PKT_DROP)
  | some action =>
      if action.type ≤ ACTION_TYPE_DROP ∨ ACTION_TYPE_COUNT ≤ action.type then
        (p, SF_NEXT_NODE_SF_PKT_DROP)
      else
        let forwardNextIndex := actionTypeToNextIndex action.type
        let p := { p with interfaceOut := action.forwardInterfaceId }
        if action.additionalActions.switchFlags then
          let p := p.resetAddtionalList.setDelta (-p.currentData).toUInt16.toNat
          let p := (action.additionalActions.appended ++ [forwardNextIndex]).foldl
            Packet.appendAddtionalList p
          (p.setPreIndex 0).popAddtionalList
        else (p, forwardNextIndex)

/-! ## Headers -/

/-- `ipv4_header_t` of a template with the fields that are set. -/
def ipv4Header (tos : UInt8) (totalLen : Nat) (protocol : UInt8) (checksum : Nat)
    (srcIp dstIp : List UInt8) : List UInt8 :=
  [0x45, tos] ++ netBytes16 totalLen ++ [0, 0, 0, 0, 0x40, protocol] ++ bytes16 checksum ++
    srcIp ++ dstIp

/-- `ipv6_header_t` of a template with the fields that are set. -/
def ipv6Header (trafficClass : UInt8) (payloadLen : Nat) (nextHeader : UInt8)
    (srcIp dstIp : List UInt8) : List UInt8 :=
  [(0x60 : UInt8) ||| trafficClass >>> 4, (trafficClass &&& 0xF) <<< 4, 0, 0] ++
    netBytes16 payloadLen ++
    [nextHeader, 0x40] ++ srcIp ++ dstIp

/-- The address of the interface, or the one of the template when it has none. -/
def srcIp (addr template : List UInt8) : List UInt8 :=
  if addr.any (· ≠ 0) then addr else template

def templateIpv4 : List UInt8 := [0xc0, 0xa8, 0xff, 0xfe]

def templateIpv6 : List UInt8 :=
  [0xab, 0xcd, 0xab, 0xcd, 0xab, 0xcd, 0xab, 0xcd, 0x12, 0x34, 0x12, 0x34, 0x12, 0x34, 0x12, 0x34]

/-- The Ethernet and the IPv4 header in front of `len` bytes. -/
def outerIpv4 (d : Dataplane) (intf : Interface) (t : Tunnel) (protocol : UInt8) (len : Nat) :
    List UInt8 :=
  let header := fun checksum => ipv4Header t.dscp (IPV4_HEADER_LEN + len) protocol checksum
    (srcIp intf.ipv4Addr templateIpv4) (t.dip.take 4)
  t.dmac ++ intf.mac ++ [0x08, 0x00] ++ header (d.ip4HeaderChecksum fun i => (header 0).getD i 0)

/-- The Ethernet and the IPv6 header in front of `len` bytes. -/
def outerIpv6 (intf : Interface) (t : Tunnel) (protocol : UInt8) (len : Nat) : List UInt8 :=
  t.dmac ++ intf.mac ++ [0x86, 0xDD] ++
    ipv6Header t.dscp len protocol (srcIp intf.ipv6Addr templateIpv6) t.dip

/-- `sf_gre_header_t` -/
def sfGreHeader (flagS : Bool) (protocolType : Nat) : List UInt8 :=
  [if flagS then 0x10 else 0, 0] ++ netBytes16 protocolType

/-- `sf_udp_header_t`, with the source port of the template. The destination port is in network
order already. -/
def sfUdpHeader (dstPort : UInt16) (length : Nat) : List UInt8 :=
  bytes16 0xb512 ++ bytes16 dstPort.toNat ++ netBytes16 length ++ [0, 0]

/-- `sf_vxlan_header_t`. The VNI is in network order already. -/
def sfVxlanHeader (vni : UInt32) : List UInt8 := bytes32 0x08 ++ bytes32 vni.toNat

/-- The first three words of 16 bits that the two ERSPAN headers have: the version with the VLAN,
and the fields behind them. -/
def erspanWords (ver vlan cos en sessionId : Nat) (order : Nat → List UInt8) : List UInt8 :=
  order (vlan % 4096 + ver * 4096) ++ order (sessionId % 1024 + en * 2048 + cos % 8 * 8192)

/-- `sf_erspan_ii_header_t`, with the words in host or in network order. -/
def sfErspanIiHeader (cos sessionId : Nat) (order : Nat → List UInt8) : List UInt8 :=
  erspanWords 1 0 cos 3 sessionId order ++ [0, 0, 0, 0]

/-- `sf_erspan_iii_header_t`, with the words in host or in network order. -/
def sfErspanIiiHeader (vlan cos sessionId timestamp : Nat) (order : Nat → List UInt8) :
    List UInt8 :=
  erspanWords 2 vlan cos 0 sessionId order ++ netBytes32 timestamp ++ [0, 0] ++ order 0x8000

/-! ## The nodes -/

/-- `get_action_ptr_nocheck` -/
def getActionPtrNocheck (d : Dataplane) (p : Packet) : Action := d.conf.actions p.arg1ToNext.toNat

/-- `sf_encap_gre_node` for one packet, up to the list. -/
def sfEncapGre (d : Dataplane) (p : Packet) : Packet :=
  let t := (getActionPtrNocheck d p).additionalActions.gre
  let intf := d.interfaces p.interfaceId
  let len := GRE_HEADER_LEN + p.currentLength.toNat
  let gre := sfGreHeader false 0x6558
  if t.dipType = 4 then p.prepend (outerIpv4 d intf t IP_PRO_GRE len ++ gre)
  else if t.dipType = 6 then p.prepend (outerIpv6 intf t IP_PRO_GRE len ++ gre)
  else p

/-- `sf_encap_vxlan_node` for one packet, up to the list. -/
def sfEncapVxlan (d : Dataplane) (p : Packet) : Packet :=
  let a := (getActionPtrNocheck d p).additionalActions
  let t := a.vxlan
  let intf := d.interfaces p.interfaceId
  let len := UDP_HEADER_LEN + VXLAN_HEADER_LEN + p.currentLength.toNat
  let vxlan := sfUdpHeader a.vxlanDport len ++ sfVxlanHeader a.vxlanVni
  if t.dipType = 4 then p.prepend (outerIpv4 d intf t IP_PRO_UDP len ++ vxlan)
  else if t.dipType = 6 then p.prepend (outerIpv6 intf t IP_PRO_UDP len ++ vxlan)
  else p

/-- The VLAN tag of the packet, if it has one. -/
def Packet.tag (p : Packet) : Option Nat :=
  let packet := fun i : Int => (p.mem (p.l2HdrOffset.toNat + i)).toNat
  if packet 12 * 256 + packet 13 = 0x8100 then some (packet 14 * 256 + packet 15) else none

/-- `encap_erspan_proc` and `encap_erspan_proc_ipv6`, which have different `outer` headers in
front of so many bytes. The tag is read when the header of the template is in its place already.
The words of the template are in host order, and a tag is not looked for in them. -/
def encapErspanProc (outer : Nat → List UInt8) (a : AdditionalActions) (option : UInt32)
    (p : Packet) : UInt32 × Packet :=
  let len := p.currentLength.toNat
  if a.erspanType = 1 then
    let header := outer (GRE_HEADER_LEN + len) ++ sfGreHeader false 0x88BE
    (option, (p.prepend header).addDelta header.length)
  else if a.erspanType = 2 then
    let common := outer (GRE_HEADER_LEN + GRE_OPTION_LEN + ERSPAN_II_HEADER_LEN + len) ++
      sfGreHeader true 0x88BE ++ netBytes32 option.toNat
    let template := common ++ sfErspanIiHeader 0 0 bytes16
    let tag := (p.store (p.currentData.toInt - template.length) template).tag
    let header := common ++
      sfErspanIiHeader (tag.elim 0 (· / 8192)) a.erspanSessionId.toNat netBytes16
    (option + 1, (p.prepend header).addDelta header.length)
  else if a.erspanType = 3 then
    let common := outer (GRE_HEADER_LEN + GRE_OPTION_LEN + ERSPAN_III_HEADER_LEN + len) ++
      sfGreHeader true 0x22EB ++ netBytes32 option.toNat
    let template := common ++ sfErspanIiiHeader 0 0 0 0 bytes16
    let tag := (p.store (p.currentData.toInt - template.length) template).tag
    let header := common ++
      sfErspanIiiHeader (tag.getD 0) (tag.elim 0 (· / 8192)) a.erspanSessionId.toNat
        p.clock.toNat netBytes16
    (option + 1, (p.prepend header).addDelta header.length)
  else (option, p)

/-- `sf_encap_erspan_node` for one packet, up to the list. The numbers of the packets are counted
in `sf_gre_option_template`. -/
def sfEncapErspan (d : Dataplane) (option : UInt32) (p : Packet) : UInt32 × Packet :=
  let a := (getActionPtrNocheck d p).additionalActions
  let intf := d.interfaces p.interfaceId
  if a.erspan.dipType = 4 then encapErspanProc (outerIpv4 d intf a.erspan IP_PRO_GRE) a option p
  else if a.erspan.dipType = 6 then encapErspanProc (outerIpv6 intf a.erspan IP_PRO_GRE) a option p
  else (option, p)

/-- The three nodes. -/
inductive Node where
  | gre
  | erspan
  | vxlan
deriving DecidableEq

/-- The node at an index of `next_nodes`. The others do not encapsulate. -/
def nodeAt (index : UInt8) : Option Node :=
  if index = SF_NEXT_NODE_ACTION_GRE_ENCAPSULATION then some .gre
  else if index = SF_NEXT_NODE_ACTION_ERSPAN_ENCAPSULATION then some .erspan
  else if index = SF_NEXT_NODE_ACTION_VXLAN_ENCAPSULATION then some .vxlan
  else none

/-- The header of a node. -/
def Node.encap (d : Dataplane) (n : Node) (option : UInt32) (p : Packet) : UInt32 × Packet :=
  match n with
  | .gre => (option, sfEncapGre d p)
  | .erspan => sfEncapErspan d option p
  | .vxlan => (option, sfEncapVxlan d p)

/-- The loop of a node for one packet. -/
def Node.single (d : Dataplane) (n : Node) (option : UInt32) (p : Packet) :
    UInt32 × (Packet × UInt8) :=
  let r := n.encap d option p
  (r.1, r.2.popAddtionalList)

/-- The loop of a node for two packets: both get their headers first. -/
def Node.pair (d : Dataplane) (n : Node) (option : UInt32) (p0 p1 : Packet) :
    UInt32 × (Packet × UInt8) × (Packet × UInt8) :=
  let r0 := n.encap d option p0
  let r1 := n.encap d r0.1 p1
  (r1.1, r0.2.popAddtionalList, r1.2.popAddtionalList)

/-- A vector of packets in a node, with the number of the next packet before and after. There
are four packets left for the loop that takes two. -/
abbrev Node.Loops (d : Dataplane) (n : Node) :
    UInt32 → List Packet → UInt32 → List (Packet × UInt8) → Prop :=
  DualLoop.Loops (n.single d) (n.pair d) 2

/-- A vector of packets in `action_main_node`. -/
abbrev MainLoops (d : Dataplane) : Unit → List Packet → Unit → List (Packet × UInt8) → Prop :=
  DualLoop.Loops (fun _ p => ((), getActionForwardPath d p))
    (fun _ p0 p1 => ((), getActionForwardPath d p0, getActionForwardPath d p1)) 2

/-- A packet in front of a node. -/
abbrev Arrival : Type := Packet × UInt8

/-- A packet goes through `action_main_node`, in some vector. -/
def Enters (d : Dataplane) (p : Packet) (t : Arrival) : Prop :=
  ∃ ps rs, ∃ k : Nat, MainLoops d () ps () rs ∧ ps[k]? = some p ∧ rs[k]? = some t

/-- A packet goes through a node, in some vector. -/
def Visits (d : Dataplane) (s : Arrival) (n : Node) (t : Arrival) : Prop :=
  nodeAt s.2 = some n ∧ ∃ option ps option' rs, ∃ k : Nat,
    n.Loops d option ps option' rs ∧ ps[k]? = some s.1 ∧ rs[k]? = some t

/-! ## The loops -/

variable {d : Dataplane} {p : Packet} {s t : Arrival} {n : Node}

theorem Node.unrolled (d : Dataplane) (n : Node) : DualLoop.Unrolled (n.single d) (n.pair d) :=
  fun _ _ _ => rfl

theorem mainLoops_iff {ps : List Packet} {rs : List (Packet × UInt8)} :
    MainLoops d () ps () rs ↔ rs = ps.map (getActionForwardPath d) := by
  refine (DualLoop.loops_iff fun _ _ _ => rfl).trans ?_
  rw [DualLoop.singles_map, Prod.mk.injEq]
  exact ⟨fun h => h.2.symm, fun h => ⟨rfl, h.symm⟩⟩

/-- Entering is what `get_action_forward_path` does. -/
theorem enters_iff : Enters d p t ↔ t = getActionForwardPath d p := by
  constructor
  · rintro ⟨ps, rs, k, hloops, hp, ht⟩
    obtain ⟨-, rfl⟩ := hloops.getElem? (fun _ _ _ => rfl) hp ht
    rfl
  · rintro rfl
    exact ⟨[p], _, 0, .of_singles () [p], rfl, rfl⟩

/-- A visit is what the loop for one packet does, with some number. -/
theorem visits_iff : Visits d s n t ↔
    nodeAt s.2 = some n ∧ ∃ option, t = (n.single d option s.1).2 := by
  constructor
  · rintro ⟨hn, option, ps, option', rs, k, hloops, hs, ht⟩
    exact ⟨hn, hloops.getElem? (n.unrolled d) hs ht⟩
  · rintro ⟨hn, option, rfl⟩
    exact ⟨hn, option, [s.1], _, _, 0, .of_singles option [s.1], rfl, rfl⟩

end Tapplet.Actions
