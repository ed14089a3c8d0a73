import Tapplet.Net.Headers

/-!
# Decoding a packet

The decoders move a window over the frame: `current_data` is where the next header begins and
`current_length` is how much of the packet is left from there on. Both are 16 bits wide. What
they find on the way goes to the working data of the packet.
-/

namespace Tapplet.Net

/-- `ip_addr_t`, a union. -/
inductive IpAddr where
  | v4 (addr : UInt32)
  | v6 (upper lower : UInt64)
deriving DecidableEq

/-- `ip_wdata_t` -/
structure IpWdata where
  offset : UInt16
  version : UInt8
  protocol : UInt8
  headerLen : UInt16
  payloadLen : UInt16
  sip : IpAddr
  dip : IpAddr
  isFrag : Bool

/-- `l4_wdata_t` -/
structure L4Wdata where
  offset : UInt16
  sport : UInt16
  dport : UInt16
  headerLen : UInt16

/-- `vlan_wdata_t` -/
structure VlanWdata where
  offset : UInt16
  innerLayerCount : UInt8

/-- The part of `sf_wdata_t` that the decoders use. `current` is what lies behind
`data_ptr + current_data`; `packetError` is the error bit of `packet_type`. -/
structure Wdata where
  current : Bytes
  currentData : UInt16
  currentLength : UInt16
  packetError : Bool
  ipWdataCnt : UInt8
  l4WdataCnt : UInt8
  vlanWdataCnt : UInt8
  vlanWdatas : VlanWdata
  ipWdata : IpWdata
  l4Wdata : L4Wdata
  arg1ToNext : UInt16
  arg2ToNext : UInt16

/-- `sf_wqe_advance_wdata` -/
def Wdata.advance (w : Wdata) (l : UInt16) : Wdata :=
  { w with
    current := w.current.skip l.toNat
    currentData := w.currentData + l
    currentLength := w.currentLength - l }

/-- `set_packet_type(.. , PACKET_TYPE_ERROR)` -/
def Wdata.setError (w : Wdata) : Wdata := { w with packetError := true }

/-- `update_vlan_wdata` -/
def Wdata.updateVlan (w : Wdata) (offset : UInt16) (layerCnt : UInt8) : Wdata :=
  { w with
    vlanWdatas := { offset, innerLayerCount := layerCnt }
    vlanWdataCnt := 1 }

/-- `update_ipv4_wdata` and `update_ipv6_wdata`, after the packet has been counted. -/
def Wdata.updateIp (w : Wdata) (ip : IpWdata) : Wdata :=
  { w with
    ipWdata := ip
    ipWdataCnt := w.ipWdataCnt + 1 }

/-- `update_l4_wdata` -/
def Wdata.updateL4 (w : Wdata) (offset sport dport headerLen : UInt16) : Wdata :=
  { w with
    l4Wdata := { offset, sport, dport, headerLen }
    l4WdataCnt := 1 }

/-! ## What a decoder touches -/

/-- A field of `size` bytes is read `start` bytes behind the current data, or a header is left
behind whose fixed part has `fixed` bytes. `left` is `current_length` at that point. -/
inductive Access where
  | read (start size : Nat) (left : UInt16)
  | advance (length fixed : Nat) (left : UInt16)
deriving DecidableEq

/-- The access stays in the packet, and an advance gets past the fixed part of its header. -/
def Access.Inside : Access → Prop
  | .read start size left => start + size ≤ left.toNat
  | .advance length fixed left => length ≤ left.toNat ∧ fixed ≤ length

instance : DecidablePred Access.Inside
  | .read .. => inferInstanceAs (Decidable (_ ≤ _))
  | .advance .. => inferInstanceAs (Decidable (_ ∧ _))

/-- The working data of a packet and what has been touched of it so far. -/
structure Decoding where
  wdata : Wdata
  log : List Access

def Decoding.read (d : Decoding) (start size : Nat) : Decoding :=
  { d with log := d.log ++ [.read start size d.wdata.currentLength] }

def Decoding.advance (d : Decoding) (l : UInt16) (fixed : Nat) : Decoding where
  wdata := d.wdata.advance l
  log := d.log ++ [.advance l.toNat fixed d.wdata.currentLength]

/-- Change the working data. -/
def Decoding.update (d : Decoding) (f : Wdata → Wdata) : Decoding := { d with wdata := f d.wdata }

/-- `reset_pkt_wdata`, and the window set to a header of a packet. -/
def Decoding.start (current : Bytes) (currentData currentLength : UInt16) : Decoding where
  wdata :=
    { current, currentData, currentLength
      packetError := false
      ipWdataCnt := 0
      l4WdataCnt := 0
      vlanWdataCnt := 0
      vlanWdatas := ⟨0, 0⟩
      ipWdata := ⟨0, 0, 0, 0, 0, .v4 0, .v4 0, false⟩
      l4Wdata := ⟨0, 0, 0, 0⟩
      arg1ToNext := 0
      arg2ToNext := 0 }
  log := []

/-- Everything touched so far was in the packet. -/
def Decoding.Inside (d : Decoding) : Prop := ∀ access ∈ d.log, access.Inside

instance (d : Decoding) : Decidable d.Inside := inferInstanceAs (Decidable (∀ _ ∈ _, _))

section

variable (d : Decoding) (l : UInt16) (start size fixed : Nat) (f : Wdata → Wdata)

@[simp] theorem Decoding.read_wdata : (d.read start size).wdata = d.wdata := rfl

@[simp] theorem Decoding.update_wdata : (d.update f).wdata = f d.wdata := rfl

@[simp] theorem Decoding.advance_wdata : (d.advance l fixed).wdata = d.wdata.advance l := rfl

@[simp] theorem Decoding.inside_read :
    (d.read start size).Inside ↔ d.Inside ∧ start + size ≤ d.wdata.currentLength.toNat := by
  simp [Decoding.Inside, Decoding.read, Access.Inside, or_imp, forall_and]

@[simp] theorem Decoding.inside_advance :
    (d.advance l fixed).Inside ↔
      d.Inside ∧ l.toNat ≤ d.wdata.currentLength.toNat ∧ fixed ≤ l.toNat := by
  simp [Decoding.Inside, Decoding.advance, Access.Inside, or_imp, forall_and]

@[simp] theorem Decoding.inside_update : (d.update f).Inside ↔ d.Inside := Iff.rfl

end

/-- An advance that does not wrap takes that much from the rest. -/
theorem Wdata.advance_length {w : Wdata} {l : UInt16} (h : l.toNat ≤ w.currentLength.toNat) :
    (w.advance l).currentLength.toNat = w.currentLength.toNat - l.toNat :=
  UInt16.toNat_sub_of_le _ _ (UInt16.le_iff_toNat_le.mpr h)

end Tapplet.Net
