import Tapplet.Acl.Entry
import Tapplet.Net.FrameDecode

/-!
# From a frame to its action

Frames come in at the interfaces, are decoded and classified, and are sent on with an action. The
action is the one that the interface has for the first rule that is about the addresses, the
protocol and the ports in the frame.
-/

namespace Tapplet.Net

open Acl (PktWdata SfAclEntryNode)
open Acl.Hits (hitIndex)
open Intf (InArray)
open Reass (BufferId)

/-- A frame that has come in, in a buffer, and the loop of `sf_ip6_input_node` that would take it.
`mem` is counted from `data_ptr`. Fragments, and what has been made of fragments, go another way. -/
structure Arrival where
  buffer : BufferId
  mem : Int → UInt8
  recvAt : Int
  interfaceId : UInt8
  l2HdrOffset : UInt8
  length : UInt16
  unused8 : UInt8
  clock : UInt32
  cachelineBytes : Vector UInt8 64
  frame : Frame
  body : Body
  inArray : InArray interfaceId.toNat
  starts : Bytes.Starts (fun i => mem (l2HdrOffset.toNat + i)) frame.bytes
  fits : frame.bytes.length ≤ length.toNat
  whole : frame.ip.isFrag = false
  first : unused8 &&& Acl.UNUSED8_FLAG_IP_REASS_PKT = 0

namespace Arrival

variable (a : Arrival)

/-- What lies behind the pointer to the frame. -/
def data : Bytes := fun i => a.mem (a.l2HdrOffset.toNat + i)

/-- The metadata as the frame comes in. -/
def received : Wdata := (Decoding.start a.data a.l2HdrOffset.toUInt16 a.length).wdata

/-- The metadata behind the decoding nodes, in front of `sf_acl_entry`. -/
def pktWdata : PktWdata where
  currentData := (decodeFrame a.body a.received).wdata.currentData
  currentLength := (decodeFrame a.body a.received).wdata.currentLength
  interfaceId := a.interfaceId
  l2HdrOffset := a.l2HdrOffset
  unused8 := a.unused8
  argToNext := (decodeFrame a.body a.received).wdata.arg1ToNext.toUInt32 |||
    (decodeFrame a.body a.received).wdata.arg2ToNext.toUInt32 <<< 16
  decoded := (decodeFrame a.body a.received).wdata.stored a.cachelineBytes

/-- The packet in the frame. -/
def packet : Acl.Packet := a.frame.packet a.l2HdrOffset.toUInt16

/-- The first rule that is about the packet, of its own family or of the other one. -/
noncomputable def rule (s : Acl.Conf) : Option Nat :=
  Acl.firstRule (Acl.admitting s 1 a.packet.isIpv6 a.packet.tuple ∪ Acl.crossing s 1 a.packet)

/-- The metadata in front of the action. -/
noncomputable def directed (s : Acl.Conf) (conf : Intf.Conf) : PktWdata where
  currentData := a.l2HdrOffset.toUInt16
  currentLength := a.length
  interfaceId := a.interfaceId
  l2HdrOffset := a.l2HdrOffset
  unused8 := a.unused8
  argToNext := (Acl.boundAction (conf a.interfaceId.toNat) (a.rule s)).toUInt32
  decoded := a.packet.wdata a.cachelineBytes

theorem decodedTo : DecodedTo a.packet a.frame.headersLen a.received
    (decodeFrame a.body a.received).wdata :=
  (decodeFrame_frame a.frame a.body a.starts a.fits).1

theorem pktWdata_decoded : a.pktWdata.decoded = a.packet.wdata a.cachelineBytes :=
  a.decodedTo.stored _

theorem selected_eq (s : Acl.Conf) :
    Acl.selected s 1 a.pktWdata.decoded.tuple = a.rule s := by
  rw [pktWdata_decoded, Acl.selected, Acl.accepting_eq]
  rfl

/-- What was left behind of the window comes back. -/
theorem window_back : a.pktWdata.currentLength +
    (a.pktWdata.currentData - a.l2HdrOffset.toUInt16) = a.length := by
  have hmoved := a.decodedTo.moved
  have hlength : a.pktWdata.currentLength.toNat + a.frame.headersLen = a.length.toNat :=
    hmoved.length
  have hoffset : a.pktWdata.currentData =
      a.l2HdrOffset.toUInt16 + .ofNat a.frame.headersLen := hmoved.offset
  rw [hoffset, UInt16.add_comm a.l2HdrOffset.toUInt16, UInt16.add_sub_cancel, ← UInt16.toNat_inj,
    UInt16.toNat_add,
    UInt16.toNat_ofNat', ← hlength]
  have hlt := a.length.toNat_lt
  omega

theorem directed_eq (s : Acl.Conf) (conf : Intf.Conf) :
    Acl.directed conf a.pktWdata (a.rule s) = a.directed s conf := by
  rw [Acl.directed, Acl.sfWqeResetWdata]
  simp only [directed, ← a.pktWdata_decoded, ← a.window_back]
  rfl

theorem entryNext_eq : Acl.entryNext a.pktWdata = .sfActionMain :=
  if_neg fun h => h a.first

end Arrival

theorem inArray_arrivals (frames : List Arrival) :
    ∀ x ∈ frames.map fun a => (a.buffer, a.pktWdata), InArray x.2.interfaceId.toNat := by
  intro x hx
  obtain ⟨a, -, rfl⟩ := List.mem_map.mp hx
  exact a.inArray

/-- Frames that come in leave `sf_acl_entry` as they came in, with the action that their interface
has for the first rule about them, and are counted for that rule. -/
theorem frames_directed {env : Acl.Env} {s : Acl.Conf} (acl : Acl.RteAcl)
    (pton : Acl.InetPtonLength env) (stored : Acl.Stored env s 1) (conf : Intf.Conf)
    (workerIndex : Nat) (frames : List Arrival) :
    ∃ context, Acl.rteAclTableSetup acl s 1 = some context ∧ ∀ hits hits' out,
      SfAclEntryNode acl context conf workerIndex (frames.map fun a => (a.buffer, a.pktWdata))
          hits hits' out ↔
        hits' = (fun i => hits i + BitVec.ofNat 32 (frames.countP fun a =>
          (a.rule s).map (hitIndex workerIndex 0) = some i)) ∧
        out = frames.map fun a =>
          (a.buffer, .sfActionMain, some (a.directed s conf)) := by
  obtain ⟨context, hsetup, hentry⟩ :=
    Acl.sfAclEntryNode_iff acl pton stored conf workerIndex _ (inArray_arrivals frames)
  refine ⟨context, hsetup, fun hits hits' out => ?_⟩
  simp only [hentry, List.countP_map, List.map_map, Function.comp_def, Arrival.selected_eq,
    Arrival.directed_eq, Arrival.entryNext_eq]

/-- A DNS query in one VLAN, behind IP options that do nothing. -/
def queryFrame : Frame where
  dmac := .replicate 6 2
  smac := .replicate 6 4
  tags := [⟨false, .replicate 2 0⟩]
  ip := .v4
    { tos := 0
      totalLen := #v[0, 32]
      ident := .replicate 2 0
      fragment := .replicate 2 0
      ttl := 64
      checksum := .replicate 2 0
      srcIp := #v[10, 0, 0].push 1
      dstIp := #v[10, 0, 0].push 2
      options := [.replicate 4 1]
      few := by decide }
  upper := .udp (.replicate 2 0x12) (#v[0].push 53) #v[0, 8, 0, 0]
  payload := []
  carries := trivial

theorem Bytes.starts_mem (l : List UInt8) (o : Nat) :
    Bytes.Starts (fun i => (fun j : Int => l.getD (j - o).toNat 0) (o + i)) l := by
  have hmem : (fun i : Nat => l.getD ((o : Int) + i - o).toNat 0) = fun i => l.getD i 0 := by
    funext i
    rw [Int.add_comm, Int.add_sub_cancel, Int.toNat_natCast]
  exact hmem ▸ Bytes.starts_getD l

/-- The query comes in at interface 1. -/
def queryArrival : Arrival where
  buffer := 5
  mem := fun j => queryFrame.bytes.getD (j - 16).toNat 0
  recvAt := -256
  interfaceId := 1
  l2HdrOffset := 16
  length := 60
  unused8 := 0
  clock := 0
  cachelineBytes := .replicate 64 0
  frame := queryFrame
  body := .single
  inArray := by decide
  starts := Bytes.starts_mem _ 16
  fits := by decide
  whole := by decide
  first := by decide

/-- Interface 1 has action 3 for rule 1. -/
def queryConf : Intf.Conf := fun _ =>
  { Intf.initSingleInterfaceConfig fun _ => 2 with
    defaultActionId := 2
    ruleToAction := fun _ => 3 }

theorem frames_directed_query :
    ∃ context, Acl.rteAclTableSetup Acl.sampleRteAcl Acl.overlapStore 1 = some context ∧
      ∀ hits hits' out,
      SfAclEntryNode Acl.sampleRteAcl context queryConf 0
          ([queryArrival].map fun a => (a.buffer, a.pktWdata)) hits hits' out ↔
        hits' = (fun i => hits i + BitVec.ofNat 32 ([queryArrival].countP fun a =>
          (a.rule Acl.overlapStore).map (hitIndex 0 0) = some i)) ∧
        out = [queryArrival].map fun a =>
          (a.buffer, .sfActionMain, some (a.directed Acl.overlapStore queryConf)) :=
  frames_directed Acl.sampleRteAcl Acl.sampleInetPton_length
    (.of_run Acl.sampleInetPton_length Acl.overlapStore_run 1) queryConf 0 [queryArrival]

end Tapplet.Net
