import Mathlib.Data.List.Basic
import Mathlib.Logic.Function.Basic
import Mathlib.Tactic.Common
import Mathlib.Algebra.GroupWithZero.Nat

/-!
# Packets and fragments

The packet memory, the metadata that the decoding nodes leave on a buffer, and what the
two reassembly nodes read from a fragment: its key, its place in the datagram and whether
it is the last one. The nodes share one code path, so the parts in which they differ are
collected in `FragFields`.

Packet memory is a set of blocks. A pointer is a block and an offset in it, and the null
pointer has no block.
-/

namespace Tapplet.Reass

abbrev BufferId := Nat

abbrev Block := Nat

/-- A pointer into packet memory. -/
structure DataPtr where
  block : Option Block
  offset : Nat
  deriving DecidableEq

def DataPtr.null : DataPtr := ⟨none, 0⟩

/-- Pointer arithmetic. -/
def DataPtr.add (p : DataPtr) (n : Nat) : DataPtr := { p with offset := p.offset + n }

@[simp] theorem DataPtr.add_block (p : DataPtr) (n : Nat) : (p.add n).block = p.block := rfl

@[simp] theorem DataPtr.add_offset (p : DataPtr) (n : Nat) :
    (p.add n).offset = p.offset + n := rfl

/-- The bytes of each block. -/
abbrev PacketMem := Block → Nat → UInt8

/-- The bytes from a pointer on. -/
def load (mem : PacketMem) (p : DataPtr) (i : Nat) : UInt8 :=
  match p.block with
  | none => 0
  | some b => mem b (p.offset + i)

/-- Overwrite the `n` bytes from a pointer on. -/
def store (mem : PacketMem) (p : DataPtr) (n : Nat) (bytes : Nat → UInt8) : PacketMem :=
  match p.block with
  | none => mem
  | some b => Function.update mem b fun j =>
      if p.offset ≤ j ∧ j < p.offset + n then bytes (j - p.offset) else mem b j

def memcpy (mem : PacketMem) (dst src : DataPtr) (n : Nat) : PacketMem :=
  store mem dst n (load mem src)

/-- Reading what was written. -/
theorem load_store {mem : PacketMem} {p : DataPtr} {n : Nat} {bytes : Nat → UInt8} {q : DataPtr}
    {b : Block} (hp : p.block = some b) (hq : q.block = some b) (i : Nat) :
    load (store mem p n bytes) q i =
      if p.offset ≤ q.offset + i ∧ q.offset + i < p.offset + n then
        bytes (q.offset + i - p.offset)
      else load mem q i := by
  simp [load, store, hp, hq]

/-- Writes to another block. -/
theorem load_store_of_ne {mem : PacketMem} {p q : DataPtr} {n : Nat} {bytes : Nat → UInt8}
    (h : p.block ≠ q.block) : load (store mem p n bytes) q = load mem q := by
  funext i
  obtain ⟨_ | b, o⟩ := p
  · rfl
  · obtain ⟨_ | c, o'⟩ := q
    · rfl
    · have hne : c ≠ b := fun hcb => h (by rw [hcb])
      simp [load, store, hne]

/-! ## Metadata -/

/-- `ip_addr_t` by its two 64-bit words. -/
structure IpAddr where
  addrV6Upper : UInt64
  addrV6Lower : UInt64
  deriving DecidableEq

/-- A zeroed address after a store to `addr_v4`, the first four of its bytes. -/
def IpAddr.ofV4 (addr : UInt32) : IpAddr := ⟨addr.toUInt64, 0⟩

/-- `ip_wdata_t`. -/
structure IpWdata where
  offset : Nat
  version : Nat
  protocol : Nat
  headerLen : Nat
  payloadLen : Nat
  sip : IpAddr
  dip : IpAddr
  isFrag : Nat
  reassOver : Nat
  deriving DecidableEq

/-- `l4_wdata_t`. -/
structure L4Wdata where
  offset : Nat
  sport : Nat
  dport : Nat
  headerLen : Nat
  deriving DecidableEq

/-- `vlan_wdata_t`. -/
structure VlanWdata where
  offset : Nat
  innerLayerCount : Nat
  deriving DecidableEq

/-- The main part of `sf_wdata_t`, all of its `SF_WDATA_MAIN_LEN` bytes. `l3l4Rest` is what the
union of `l3l4_decode_t` has behind its two records. -/
structure Wdata where
  currentData : Nat
  currentLength : Nat
  interfaceId : Nat
  interfaceOut : Nat
  l2HdrOffset : Nat
  unused8 : UInt8
  dataPtr : DataPtr
  timestamp : Nat
  packetType : Nat
  outerVlanId : Nat
  outerEtherType : Nat
  ipWdataCnt : Nat
  l4WdataCnt : Nat
  vlanWdataCnt : Nat
  recv8 : UInt8
  vlanWdatas : VlanWdata
  recv82 : UInt8
  argToNext : Nat
  ipWdata : IpWdata
  l4Wdata : L4Wdata
  l3l4Rest : Vector UInt8 14
  deriving DecidableEq

/-- `UNUSED8_FLAG_IP_REASS_PKT`. -/
def unused8FlagIpReassPkt : UInt8 := 8

/-- `UNUSED8_PKT_HUGE_PKT_WITH_WDATA`. -/
def unused8PktHugePktWithWdata : UInt8 := 7

namespace Wdata

/-- `reset_pkt_wdata`. -/
def zero : Wdata where
  currentData := 0
  currentLength := 0
  interfaceId := 0
  interfaceOut := 0
  l2HdrOffset := 0
  unused8 := 0
  dataPtr := .null
  timestamp := 0
  packetType := 0
  outerVlanId := 0
  outerEtherType := 0
  ipWdataCnt := 0
  l4WdataCnt := 0
  vlanWdataCnt := 0
  recv8 := 0
  vlanWdatas := ⟨0, 0⟩
  recv82 := 0
  argToNext := 0
  ipWdata := ⟨0, 0, 0, 0, 0, ⟨0, 0⟩, ⟨0, 0⟩, 0, 0⟩
  l4Wdata := ⟨0, 0, 0, 0⟩
  l3l4Rest := .replicate 14 0

/-- `sf_wqe_get_current`. -/
def current (w : Wdata) : DataPtr := w.dataPtr.add w.currentData

/-- `sf_wqe_advance` by a forward step. -/
def advance (w : Wdata) (l : Nat) : Wdata :=
  { w with
    currentData := w.currentData + l
    currentLength := (w.currentLength + 2 ^ 16 - l % 2 ^ 16) % 2 ^ 16 }

/-- `sf_wqe_reset`. -/
def reset (w : Wdata) : Wdata :=
  { w with
    currentLength := (w.currentLength + w.currentData + 2 ^ 16 - w.l2HdrOffset) % 2 ^ 16
    currentData := w.l2HdrOffset }

/-- The buffer was built from fragments. -/
def isReass (w : Wdata) : Prop := w.unused8 &&& unused8FlagIpReassPkt ≠ 0

instance (w : Wdata) : Decidable w.isReass := inferInstanceAs (Decidable (_ ≠ _))

end Wdata

/-- `update_frag_wdata`. -/
def updateFragWdata (frag reass : Wdata) : Wdata :=
  { frag with
    ipWdataCnt := reass.ipWdataCnt
    l4WdataCnt := reass.l4WdataCnt
    vlanWdataCnt := reass.vlanWdataCnt
    vlanWdatas := reass.vlanWdatas
    ipWdata := reass.ipWdata
    l4Wdata := reass.l4Wdata
    l3l4Rest := reass.l3l4Rest }

/-- `ip_reass_record_t`. -/
structure IpReassRecord where
  childFrag : Option BufferId
  nextFrag : Option BufferId
  fragOffset : Nat
  fragSize : Nat
  ipHdrLen : Nat
  interfaceId : Nat
  ipReassOutput : Nat
  followedNodesCnt : Nat
  deriving DecidableEq

/-! ## Keys -/

/-- `key_ip_reass_t`. -/
structure KeyIpReass where
  sip : IpAddr
  dip : IpAddr
  ipId : UInt32
  ipLayer : UInt32
  deriving DecidableEq

/-- The `n` low bytes of a number, lowest first. -/
def leBytes : Nat → Nat → List UInt8
  | 0, _ => []
  | n + 1, x => UInt8.ofNat (x % 256) :: leBytes n (x / 256)

@[simp] theorem leBytes_length (n x : Nat) : (leBytes n x).length = n := by
  induction n generalizing x with
  | zero => rfl
  | succ n ih => simp [leBytes, ih]

theorem leBytes_inj {n x y : Nat} (hx : x < 256 ^ n) (hy : y < 256 ^ n)
    (h : leBytes n x = leBytes n y) : x = y := by
  induction n generalizing x y with
  | zero =>
      rw [Nat.pow_zero] at hx hy
      omega
  | succ n ih =>
      rw [leBytes, leBytes, List.cons.injEq] at h
      obtain ⟨hlow, hrest⟩ := h
      have hmod : x % 256 = y % 256 := by
        have hnat := congrArg UInt8.toNat hlow
        simpa using hnat
      rw [Nat.pow_succ] at hx hy
      have hdiv := ih (by omega) (by omega) hrest
      omega

def IpAddr.bytes (a : IpAddr) : List UInt8 :=
  leBytes 8 a.addrV6Upper.toNat ++ leBytes 8 a.addrV6Lower.toNat

/-- The bytes of the packed key structure. -/
def KeyIpReass.bytes (k : KeyIpReass) : List UInt8 :=
  k.sip.bytes ++ k.dip.bytes ++ leBytes 4 k.ipId.toNat ++ leBytes 4 k.ipLayer.toNat

@[simp] theorem IpAddr.bytes_length (a : IpAddr) : a.bytes.length = 16 := by
  simp [IpAddr.bytes]

/-- `sizeof(key_ip_reass_t)`. -/
@[simp] theorem KeyIpReass.bytes_length (k : KeyIpReass) : k.bytes.length = 40 := by
  simp [KeyIpReass.bytes]

theorem IpAddr.bytes_inj {a b : IpAddr} (h : a.bytes = b.bytes) : a = b := by
  obtain ⟨hupper, hlower⟩ := List.append_inj h (by simp)
  have hu := leBytes_inj (UInt64.toNat_lt _) (UInt64.toNat_lt _) hupper
  have hl := leBytes_inj (UInt64.toNat_lt _) (UInt64.toNat_lt _) hlower
  obtain ⟨au, al⟩ := a
  obtain ⟨bu, bl⟩ := b
  simp only [UInt64.toNat_inj] at hu hl
  rw [hu, hl]

/-- Comparing the packed bytes compares the keys: the structure has no padding. -/
theorem KeyIpReass.bytes_inj {k l : KeyIpReass} (h : k.bytes = l.bytes) : k = l := by
  obtain ⟨h, hlayer⟩ := List.append_inj h (by simp)
  obtain ⟨h, hid⟩ := List.append_inj h (by simp)
  obtain ⟨hsip, hdip⟩ := List.append_inj h (by simp)
  have hi := leBytes_inj (UInt32.toNat_lt _) (UInt32.toNat_lt _) hid
  have hl := leBytes_inj (UInt32.toNat_lt _) (UInt32.toNat_lt _) hlayer
  obtain ⟨ks, kd, ki, kl⟩ := k
  obtain ⟨ls, ld, li, ll⟩ := l
  simp only [UInt32.toNat_inj] at hi hl
  obtain rfl : ks = ls := IpAddr.bytes_inj hsip
  obtain rfl : kd = ld := IpAddr.bytes_inj hdip
  rw [hi, hl]

/-! ## What the two nodes read from a fragment

A view is the bytes from `sf_wqe_get_current` on, that is, from the IP header on. -/

abbrev View := Nat → UInt8

/-- A 16-bit load. -/
def load16 (v : View) (i : Nat) : Nat := (v i).toNat + 256 * (v (i + 1)).toNat

/-- A 32-bit load. -/
def load32 (v : View) (i : Nat) : UInt32 :=
  UInt32.ofNat (load16 v i + 65536 * load16 v (i + 2))

/-- Where the two nodes differ. -/
structure FragFields where
  key : Wdata → View → KeyIpReass
  fragOffset : Wdata → View → Nat
  isLast : Wdata → View → Bool
  /-- Clears the fragment fields of the header that was copied to `hdr`. -/
  clearFrag : PacketMem → (hdr : DataPtr) → (hdrLen : Nat) → PacketMem

/-- `get_ip4_hdr_flag`: the upper three bits of byte 6. -/
def getIp4HdrFlag (v : View) : Nat := (v 6).toNat / 32

/-- `get_ip4_hdr_offset`. -/
def getIp4HdrOffset (v : View) : Nat := (v 6).toNat % 32 * 256 + (v 7).toNat

/-- The parts of `ip4_frag_proc` and `ip4_frag_build_pkt`. -/
def ip4Fields : FragFields where
  key := fun w v =>
    { sip := .ofV4 (load32 v 12)
      dip := .ofV4 (load32 v 16)
      ipId := UInt32.ofNat (load16 v 4)
      ipLayer := UInt32.ofNat w.ipWdataCnt }
  fragOffset := fun _ v => getIp4HdrOffset v * 8 % 2 ^ 16
  isLast := fun _ v => getIp4HdrFlag v % 2 = 0
  clearFrag := fun mem hdr _ => store mem (hdr.add 6) 2 fun _ => 0

/-- `IPV6_FRAG_HEADER_LEN`. -/
def ipv6FragHeaderLen : Nat := 8

/-- `get_ip6_frag_offset`: the upper 13 bits of bytes 2 and 3 of the fragment header `f`. -/
def getIp6FragOffset (v : View) (f : Nat) : Nat :=
  (v (f + 2)).toNat * 32 + (v (f + 3)).toNat / 8

/-- The parts of `ip6_frag_proc` and `ip6_frag_build_pkt`. The fragment header is the end
of the IP header. -/
def ip6Fields : FragFields where
  key := fun w v =>
    { sip := w.ipWdata.sip
      dip := w.ipWdata.dip
      ipId := load32 v (w.ipWdata.headerLen - ipv6FragHeaderLen + 4)
      ipLayer := UInt32.ofNat w.ipWdataCnt }
  fragOffset := fun w v =>
    getIp6FragOffset v (w.ipWdata.headerLen - ipv6FragHeaderLen) * 8 % 2 ^ 16
  isLast := fun w v => (v (w.ipWdata.headerLen - ipv6FragHeaderLen + 3)).toNat % 2 = 0
  clearFrag := fun mem hdr hdrLen =>
    let f := hdr.add (hdrLen - ipv6FragHeaderLen)
    let unusedBits := UInt8.ofNat ((load mem f 3).toNat / 2 % 4 * 2)
    store (store mem (f.add 2) 1 fun _ => 0) (f.add 3) 1 fun _ => unusedBits

/-- The IP version of a reassembly node. -/
inductive Version where
  | ip4
  | ip6
  deriving DecidableEq

def Version.fields : Version → FragFields
  | .ip4 => ip4Fields
  | .ip6 => ip6Fields

end Tapplet.Reass
