import Tapplet.Actions.Stacked
import Tapplet.Net.Directed

/-!
# From a frame to its encapsulation

Behind `sf_acl_entry` a packet enters `sf_action_main` with its action, and goes along the nodes of
its encapsulations to the node that forwards it. What is forwarded is the frame that came in, with
the headers of the action in front of it.
-/

namespace Tapplet.Net

open Acl (PktWdata SfAclEntryNode)
open Actions (Action Dataplane Encapsulations Enters Visits Stacked nodeAt actionTypeToNextIndex
  enters_iff exists_forward run_stacked)
open Reass (BufferId)
open Transition

/-- `sf_wdata_t` and the buffer, as the actions see them. -/
def Arrival.entering (a : Arrival) (w : PktWdata) : Actions.Packet where
  mem := a.mem
  recvAt := a.recvAt
  currentData := w.currentData.toInt16
  currentLength := w.currentLength
  interfaceId := w.interfaceId
  interfaceOut := 0
  l2HdrOffset := w.l2HdrOffset
  arg1ToNext := w.argToNext.toUInt16
  arg2ToNext := (w.argToNext >>> 16).toUInt16
  clock := a.clock

/-- The action forwards packets, with these encapsulations. -/
structure Forwards (act : Action) (e : Encapsulations) : Prop where
  type : act.type = Actions.ACTION_TYPE_FORWARD_INTERFACE ∨
    act.type = Actions.ACTION_TYPE_LOAD_BALANCE_INTERFACES
  encap : act.additionalActions = e.toAdditional

/-- There is room for the headers, and the packet stays below 65536 bytes. -/
structure Room (e : Encapsulations) (p : Actions.Packet) : Prop where
  headroom : p.Headroom (e.nodes.map e.size).sum
  short : p.currentLength.toNat + (e.nodes.map e.size).sum < 2 ^ 16

/-- What becomes of a packet with this action. -/
structure Handled (d : Dataplane) (action : Option Action) (p : Actions.Packet) : Prop where
  /-- Without an action it is dropped. -/
  dropped : action = none → ∀ t, Enters d p t → t.2 = Actions.SF_NEXT_NODE_SF_PKT_DROP
  /-- Otherwise it comes to the node that forwards it. -/
  arrives : ∀ act e, action = some act → Forwards act e → Room e p →
    ∃ s t, Enters d p s ∧ Run (Visits d) s e.nodes t ∧ t.2 = actionTypeToNextIndex act.type
  /-- Whatever way it has gone, it has the headers of its action then. -/
  stacked : ∀ act e, action = some act → Forwards act e → Room e p →
    ∀ s path t, Enters d p s → Run (Visits d) s path t → nodeAt t.2 = none →
      path = e.nodes ∧ t.2 = actionTypeToNextIndex act.type ∧ Stacked e p t.1

/-- The id of an action in the argument. -/
theorem argToNext_toUInt32 (a : Arrival) {w : PktWdata} {id : UInt8}
    (h : w.argToNext = id.toUInt32) : (a.entering w).argToNext = id.toNat := by
  have hid : id.toNat < 256 := id.toNat_lt
  show w.argToNext.toUInt16.toNat + 65536 * (w.argToNext >>> 16).toUInt16.toNat = id.toNat
  rw [h, UInt32.toNat_toUInt16, UInt32.toNat_toUInt16, UInt32.toNat_shiftRight,
    UInt8.toNat_toUInt32,
    Nat.shiftRight_eq_div_pow]
  show id.toNat % 65536 + 65536 * (id.toNat / 65536 % 65536) = id.toNat
  omega

theorem handled_of_argToNext {d : Dataplane} (complements : d.ChecksumComplements)
    {p : Actions.Packet} {id : Nat} (harg : p.argToNext = id) :
    Handled d (d.conf.getAction id) p := by
  subst harg
  constructor
  · intro hnone t ht
    obtain rfl := enters_iff.mp ht
    have hnone' : d.conf.getAction (p.arg1ToNext.toNat + 65536 * p.arg2ToNext.toNat) = none := hnone
    rw [Actions.getActionForwardPath, hnone']
  · intro act e haction forwards room
    exact exists_forward haction forwards.type forwards.encap room.headroom
  · intro act e haction forwards room s path t hs hrun hend
    exact run_stacked haction forwards.type forwards.encap room.headroom complements room.short
      hs hrun hend

/-- A frame in memory is the beginning of the window that it lies in. -/
theorem isPrefix_load {m : Int → UInt8} {o : Int} {l : List UInt8} {n : Nat}
    (h : Bytes.Starts (fun i => m (o + i)) l) (hle : l.length ≤ n) : l <+: Memory.load m o n := by
  obtain ⟨k, rfl⟩ := Nat.exists_eq_add_of_le hle
  have hload : Memory.load m o l.length = l := by
    apply List.ext_getElem Memory.length_load
    intro i hi hi'
    have hget := Memory.getElem?_load (m := m) (a := o) hi'
    rw [List.getElem?_eq_getElem hi] at hget
    rw [Option.some.inj hget, ← Bytes.starts_getElem h i hi']
  rw [Memory.load_add, hload]
  exact List.prefix_append _ _

theorem Arrival.toInt_l2HdrOffset (a : Arrival) :
    a.l2HdrOffset.toUInt16.toInt16.toInt = a.l2HdrOffset.toNat := by
  have hlt : a.l2HdrOffset.toNat < 256 := a.l2HdrOffset.toNat_lt
  have hint : a.l2HdrOffset.toUInt16.toInt16.toInt = a.l2HdrOffset.toUInt16.toBitVec.toInt := rfl
  have hnat : a.l2HdrOffset.toUInt16.toBitVec.toNat = a.l2HdrOffset.toNat :=
    UInt8.toNat_toUInt16 _
  rw [hint, BitVec.toInt_eq_toNat_of_lt (by rw [hnat]; omega), hnat]

/-- The frame of a packet in front of its action is the one that has come in. -/
theorem Arrival.frame_entering (a : Arrival) (s : Acl.Conf) (conf : Intf.Conf) :
    a.frame.bytes <+: (a.entering (a.directed s conf)).frame := by
  show _ <+: Memory.load a.mem a.l2HdrOffset.toUInt16.toInt16.toInt a.length.toNat
  rw [a.toInt_l2HdrOffset]
  exact isPrefix_load a.starts a.fits

/-- In a vector of frames each frame comes out of `sf_acl_entry` with its bytes as they came in,
and is handled as the action says that its interface has for the first rule about it. -/
theorem frames_forwarded {env : Acl.Env} {s : Acl.Conf} (acl : Acl.RteAcl)
    (pton : Acl.InetPtonLength env) (stored : Acl.Stored env s 1) (conf : Intf.Conf)
    {d : Dataplane} (complements : d.ChecksumComplements) (workerIndex : Nat)
    (frames : List Arrival) :
    ∃ context, Acl.rteAclTableSetup acl s 1 = some context ∧ ∀ hits hits' out,
      SfAclEntryNode acl context conf workerIndex (frames.map fun a => (a.buffer, a.pktWdata))
          hits hits' out →
        ∀ (k : Nat) a, frames[k]? = some a → ∃ w, out[k]? = some (a.buffer, .sfActionMain, some w) ∧
          a.frame.bytes <+: (a.entering w).frame ∧
          Handled d (d.conf.getAction (Acl.boundAction (conf a.interfaceId.toNat) (a.rule s)).toNat)
            (a.entering w) := by
  obtain ⟨context, hsetup, hentry⟩ :=
    Acl.sfAclEntryNode_iff acl pton stored conf workerIndex _ (inArray_arrivals frames)
  refine ⟨context, hsetup, fun hits hits' out hrun k a ha => ⟨a.directed s conf, ?_, ?_, ?_⟩⟩
  · obtain ⟨-, rfl⟩ := (hentry hits hits' out).mp hrun
    rw [List.map_map, List.getElem?_map, ha]
    simp only [Option.map_some, Function.comp_def, Arrival.selected_eq, Arrival.directed_eq,
      Arrival.entryNext_eq]
  · exact a.frame_entering s conf
  · exact handled_of_argToNext complements (argToNext_toUInt32 a rfl)

theorem frames_forwarded_query : Actions.Dataplane.ChecksumComplements
      (Actions.sampleDataplane Actions.threeIpv4) ∧
    ∃ context, Acl.rteAclTableSetup Acl.sampleRteAcl Acl.overlapStore 1 = some context ∧
      ∀ hits hits' out, SfAclEntryNode Acl.sampleRteAcl context queryConf 0
          ([queryArrival].map fun a => (a.buffer, a.pktWdata)) hits hits' out →
        ∀ (k : Nat) a, [queryArrival][k]? = some a →
          ∃ w, out[k]? = some (a.buffer, .sfActionMain, some w) ∧
            a.frame.bytes <+: (a.entering w).frame ∧
            Handled (Actions.sampleDataplane Actions.threeIpv4)
              ((Actions.sampleDataplane Actions.threeIpv4).conf.getAction
                (Acl.boundAction (queryConf a.interfaceId.toNat) (a.rule Acl.overlapStore)).toNat)
              (a.entering w) :=
  ⟨fun _ _ => .inl rfl, frames_forwarded Acl.sampleRteAcl Acl.sampleInetPton_length
    (.of_run Acl.sampleInetPton_length Acl.overlapStore_run 1) queryConf (fun _ _ => .inl rfl) 0
    [queryArrival]⟩

end Tapplet.Net
