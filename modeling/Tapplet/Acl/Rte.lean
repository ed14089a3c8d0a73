import Tapplet.Lib.Prefix
import Tapplet.Acl.Basic

/-!
# Rules and packets for rte_acl

A packet is classified by the bytes of its metadata. The decoding nodes clear the metadata and
write the addresses, the protocol and the ports of the packet into it, and `acl_rte_ipv46_defs`
says where rte_acl reads them: one layout for both families, with an IPv4 address in the first
word of the address and zeros behind it. `trans_shm_to_rte_tuple4` and
`trans_shm_to_rte_tuple6` turn a stored rule into one value and one mask for each field.

The results here say what the fields of a translated rule accept, in terms of the 128-bit
addresses of the metadata.
-/

namespace Tapplet.Acl

open Prefix

/-! ## Metadata -/

/-- `ip_addr_t`. An IPv4 address is kept in the first four bytes. -/
abbrev IpAddr := Vector UInt8 16

def IpAddr.setAddrV4 (a : IpAddr) (addrV4 : Vector UInt8 4) : IpAddr := addrV4 ++ a.drop 4

/-- `ip_wdata_t` -/
structure IpWdata where
  offset : UInt16
  version : UInt8
  protocol : UInt8
  headerLen : UInt16
  payloadLen : UInt16
  sip : IpAddr
  dip : IpAddr
  isFrag : UInt8
  reassOver : UInt8

/-- `l4_wdata_t`. The ports are copied from the header and stay in network order. -/
structure L4Wdata where
  offset : UInt16
  sport : Vector UInt8 2
  dport : Vector UInt8 2
  headerLen : UInt16

/-- `sf_wdata_t` as far as packets are classified by it: a first cache line that no field
reads, and `l3l4_wdatas`. -/
structure SfWdata where
  cachelineBytes : Vector UInt8 64
  ipWdata : IpWdata
  l4Wdata : L4Wdata

def IpWdata.bytes (w : IpWdata) : List UInt8 :=
  le16 w.offset ++ [w.version, w.protocol] ++ le16 w.headerLen ++ le16 w.payloadLen ++
    w.sip.toList ++ w.dip.toList ++ [w.isFrag, w.reassOver]

def L4Wdata.bytes (w : L4Wdata) : List UInt8 :=
  le16 w.offset ++ w.sport.toList ++ w.dport.toList ++ le16 w.headerLen

def SfWdata.bytes (w : SfWdata) : List UInt8 :=
  w.cachelineBytes.toList ++ w.ipWdata.bytes ++ w.l4Wdata.bytes

/-- `reset_pkt_wdata`, up to the first cache line, which the nodes fill before a packet is
classified. -/
def resetPktWdata (cachelineBytes : Vector UInt8 64) : SfWdata where
  cachelineBytes
  ipWdata := ⟨0, 0, 0, 0, 0, .replicate 16 0, .replicate 16 0, 0, 0⟩
  l4Wdata := ⟨0, .replicate 2 0, .replicate 2 0, 0⟩

def updateIpv4Wdata (ipWdata : IpWdata) (offset : UInt16) (sip dip : Vector UInt8 4)
    (protocol : UInt8) (headerLen payloadLen : UInt16) (isFrag : UInt8) : IpWdata :=
  { ipWdata with
    offset, version := 4, sip := ipWdata.sip.setAddrV4 sip, dip := ipWdata.dip.setAddrV4 dip,
    protocol, headerLen, payloadLen, isFrag }

def updateIpv6Wdata (ipWdata : IpWdata) (offset : UInt16) (sip dip : IpAddr)
    (protocol : UInt8) (headerLen payloadLen : UInt16) (isFrag : UInt8) : IpWdata :=
  { ipWdata with
    offset, version := 6, sip, dip, protocol, headerLen, payloadLen, isFrag }

def updateL4Wdata (wdata : SfWdata) (offset : UInt16) (sport dport : Vector UInt8 2)
    (headerLen : UInt16) : SfWdata :=
  { wdata with l4Wdata := ⟨offset, sport, dport, headerLen⟩ }

/-! ## Packets -/

inductive IpHeader where
  | v4 (srcIp dstIp : Vector UInt8 4)
  | v6 (srcIp dstIp : Vector UInt8 16)

/-- The ports of a TCP or UDP header, in network order. -/
structure L4Header where
  offset : UInt16
  srcPort : Vector UInt8 2
  dstPort : Vector UInt8 2
  headerLen : UInt16

/-- What the decoding nodes find in a packet with an IP header; `l4` is `none` for a fragment,
for another protocol and for a header that is cut off. -/
structure Packet where
  ip : IpHeader
  offset : UInt16
  protocol : UInt8
  headerLen : UInt16
  payloadLen : UInt16
  isFrag : UInt8
  l4 : Option L4Header

/-- The metadata of a decoded packet. -/
def Packet.wdata (p : Packet) (cachelineBytes : Vector UInt8 64) : SfWdata :=
  let wdata := resetPktWdata cachelineBytes
  let ipWdata :=
    match p.ip with
    | .v4 srcIp dstIp => updateIpv4Wdata wdata.ipWdata p.offset srcIp dstIp p.protocol
        p.headerLen p.payloadLen p.isFrag
    | .v6 srcIp dstIp => updateIpv6Wdata wdata.ipWdata p.offset srcIp dstIp p.protocol
        p.headerLen p.payloadLen p.isFrag
  let wdata := { wdata with ipWdata }
  match p.l4 with
  | none => wdata
  | some l4 => updateL4Wdata wdata l4.offset l4.srcPort l4.dstPort l4.headerLen

def Packet.isIpv6 (p : Packet) : Bool :=
  match p.ip with
  | .v4 _ _ => false
  | .v6 _ _ => true

/-- What a rule is about: two addresses, a protocol and two ports, as numbers. -/
structure Tuple where
  sip : Nat
  dip : Nat
  protocol : Nat
  sport : Nat
  dport : Nat

/-- The tuple of a packet. A packet without ports has ports 0. -/
def Packet.tuple (p : Packet) : Tuple where
  sip := match p.ip with
    | .v4 srcIp _ => ofBytes srcIp.toList
    | .v6 srcIp _ => ofBytes srcIp.toList
  dip := match p.ip with
    | .v4 _ dstIp => ofBytes dstIp.toList
    | .v6 _ dstIp => ofBytes dstIp.toList
  protocol := p.protocol.toNat
  sport := p.l4.elim 0 fun l4 => ofBytes l4.srcPort.toList
  dport := p.l4.elim 0 fun l4 => ofBytes l4.dstPort.toList

/-- The tuple in the metadata, with addresses of 128 bits. -/
def SfWdata.tuple (w : SfWdata) : Tuple where
  sip := ofBytes w.ipWdata.sip.toList
  dip := ofBytes w.ipWdata.dip.toList
  protocol := w.ipWdata.protocol.toNat
  sport := ofBytes w.l4Wdata.sport.toList
  dport := ofBytes w.l4Wdata.dport.toList

/-- In cleared metadata an IPv4 address is the first word, with zeros behind it. -/
theorem ofBytes_setAddrV4 (addrV4 : Vector UInt8 4) :
    ofBytes (IpAddr.setAddrV4 (.replicate 16 0) addrV4).toList =
      ofBytes addrV4.toList * 2 ^ 96 := by
  have hzeros : ((Vector.replicate 16 (0 : UInt8)).drop 4).toList = List.replicate 12 0 := rfl
  rw [IpAddr.setAddrV4, Vector.toList_append, ofBytes_append, hzeros, ofBytes_replicate_zero,
    List.length_replicate, Nat.add_zero, show (256 : Nat) ^ 12 = 2 ^ 96 by norm_num]

/-- The metadata of a packet holds its tuple; an IPv4 address is followed by 96 zero bits. -/
theorem Packet.wdata_tuple (p : Packet) (cachelineBytes : Vector UInt8 64) :
    (p.wdata cachelineBytes).tuple =
      if p.isIpv6 then p.tuple
      else { p.tuple with sip := p.tuple.sip * 2 ^ 96, dip := p.tuple.dip * 2 ^ 96 } := by
  have hnone : ofBytes (Vector.replicate 2 (0 : UInt8)).toList = 0 := rfl
  obtain ⟨ip, offset, protocol, headerLen, payloadLen, isFrag, l4⟩ := p
  cases ip <;> cases l4 <;>
    simp only [Packet.wdata, Packet.tuple, SfWdata.tuple, Packet.isIpv6, updateIpv4Wdata,
      updateIpv6Wdata, updateL4Wdata, resetPktWdata, ofBytes_setAddrV4, hnone,
      Option.elim, if_true, Bool.false_eq_true, if_false]

/-! ## Fields -/

inductive FieldIpv46 where
  | proto
  | sip1 | sip2 | sip3 | sip4
  | dip1 | dip2 | dip3 | dip4
  | sport | dport
deriving DecidableEq

inductive RteAclFieldType where
  | mask
  | range
deriving DecidableEq

/-- `struct rte_acl_field_def` -/
structure RteAclFieldDef where
  type : RteAclFieldType
  size : Nat
  fieldIndex : FieldIpv46
  inputIndex : FieldIpv46
  offset : Nat

/-- `offsetof(sf_wdata_t, l3l4_wdatas)` -/
def basicL3L4Offset : Nat := 64
/-- `offsetof(l3l4_decode_t, ip_wdata)` -/
def basicL3Offset : Nat := 0
/-- `offsetof(l3l4_decode_t, l4_wdata)` -/
def basicL4Offset : Nat := 42

def protoOffset : Nat := basicL3L4Offset + basicL3Offset + 3
def sipOffset : Nat := basicL3L4Offset + basicL3Offset + 8
def dipOffset : Nat := basicL3L4Offset + basicL3Offset + 24
def sportOffset : Nat := basicL3L4Offset + basicL4Offset + 2
def dportOffset : Nat := basicL3L4Offset + basicL4Offset + 4

/-- `acl_rte_ipv46_defs` -/
def aclRteIpv46Defs : List RteAclFieldDef :=
  [⟨.range, 1, .proto, .proto, protoOffset⟩,
    ⟨.mask, 4, .sip1, .sip1, sipOffset⟩,
    ⟨.mask, 4, .sip2, .sip2, sipOffset + 4⟩,
    ⟨.mask, 4, .sip3, .sip3, sipOffset + 8⟩,
    ⟨.mask, 4, .sip4, .sip4, sipOffset + 12⟩,
    ⟨.mask, 4, .dip1, .dip1, dipOffset⟩,
    ⟨.mask, 4, .dip2, .dip2, dipOffset + 4⟩,
    ⟨.mask, 4, .dip3, .dip3, dipOffset + 8⟩,
    ⟨.mask, 4, .dip4, .dip4, dipOffset + 12⟩,
    ⟨.range, 2, .sport, .sport, sportOffset⟩,
    ⟨.range, 2, .dport, .sport, dportOffset⟩]

/-- `struct rte_acl_field`: the value and the mask or upper end. -/
structure RteAclField where
  value : Nat
  maskRange : Nat

/-- `struct acl46_rule_cfg` -/
structure Acl46RuleCfg where
  categoryMask : Nat
  priority : Int
  userdata : Nat
  field : FieldIpv46 → RteAclField

/-- What rte_acl reads for a field: the bytes at its offset in network order. -/
def RteAclFieldDef.key (d : RteAclFieldDef) (data : List UInt8) : Nat :=
  ofBytes ((data.drop d.offset).take d.size)

def RteAclFieldDef.Matches (d : RteAclFieldDef) (f : RteAclField) (data : List UInt8) : Prop :=
  match d.type with
  | .mask => TopAgree (8 * d.size) f.maskRange f.value (d.key data)
  | .range => f.value ≤ d.key data ∧ d.key data ≤ f.maskRange

def Acl46RuleCfg.Matches (defs : List RteAclFieldDef) (r : Acl46RuleCfg) (data : List UInt8) :
    Prop :=
  ∀ d ∈ defs, d.Matches (r.field d.fieldIndex) data

instance (d : RteAclFieldDef) (f : RteAclField) (data : List UInt8) :
    Decidable (d.Matches f data) := by
  unfold RteAclFieldDef.Matches
  cases d.type <;> infer_instance

instance (defs : List RteAclFieldDef) (r : Acl46RuleCfg) (data : List UInt8) :
    Decidable (r.Matches defs data) :=
  inferInstanceAs (Decidable (∀ d ∈ defs, d.Matches (r.field d.fieldIndex) data))

/-! ## Translation -/

/-- `clib_net_to_host_u32(bs[i])` of an address read as words. -/
def netToHostU32 (bs : List UInt8) (i : Nat) : Nat := ofBytes ((bs.drop (4 * i)).take 4)

def maskSub (mask : Nat) : Nat := if mask > 32 then mask - 32 else 0

def maskGet (mask : Nat) : Nat := if mask > 32 then 32 else mask

def transShmToRteTuple4 (rawCfg : TupleRuleCfg) : FieldIpv46 → RteAclField
  | .proto => ⟨rawCfg.protoMin.toNat, rawCfg.protoMax.toNat⟩
  | .sport => ⟨rawCfg.sportMin.toNat, rawCfg.sportMax.toNat⟩
  | .dport => ⟨rawCfg.dportMin.toNat, rawCfg.dportMax.toNat⟩
  | .sip1 => ⟨netToHostU32 rawCfg.sip 0, rawCfg.sipMask.toNat⟩
  | .dip1 => ⟨netToHostU32 rawCfg.dip 0, rawCfg.dipMask.toNat⟩
  | .sip2 | .sip3 | .sip4 => ⟨0, 32⟩
  | .dip2 | .dip3 | .dip4 => ⟨0, 32⟩

def transShmToRteTuple6 (rawCfg : TupleRuleCfg) : FieldIpv46 → RteAclField
  | .proto => ⟨rawCfg.protoMin.toNat, rawCfg.protoMax.toNat⟩
  | .sport => ⟨rawCfg.sportMin.toNat, rawCfg.sportMax.toNat⟩
  | .dport => ⟨rawCfg.dportMin.toNat, rawCfg.dportMax.toNat⟩
  | .sip1 => ⟨netToHostU32 rawCfg.sip 0, maskGet rawCfg.sipMask.toNat⟩
  | .sip2 => ⟨netToHostU32 rawCfg.sip 1, maskGet (maskSub rawCfg.sipMask.toNat)⟩
  | .sip3 => ⟨netToHostU32 rawCfg.sip 2, maskGet (maskSub (maskSub rawCfg.sipMask.toNat))⟩
  | .sip4 =>
      ⟨netToHostU32 rawCfg.sip 3, maskGet (maskSub (maskSub (maskSub rawCfg.sipMask.toNat)))⟩
  | .dip1 => ⟨netToHostU32 rawCfg.dip 0, maskGet rawCfg.dipMask.toNat⟩
  | .dip2 => ⟨netToHostU32 rawCfg.dip 1, maskGet (maskSub rawCfg.dipMask.toNat)⟩
  | .dip3 => ⟨netToHostU32 rawCfg.dip 2, maskGet (maskSub (maskSub rawCfg.dipMask.toNat))⟩
  | .dip4 =>
      ⟨netToHostU32 rawCfg.dip 3, maskGet (maskSub (maskSub (maskSub rawCfg.dipMask.toNat)))⟩

/-- The translation of a rule of either family. -/
def transShmToRteTuple (isIpv6 : Bool) (rawCfg : TupleRuleCfg) : FieldIpv46 → RteAclField :=
  if isIpv6 then transShmToRteTuple6 rawCfg else transShmToRteTuple4 rawCfg

/-! ## Reading the metadata -/

theorem slice_middle {pre mid post : List UInt8} {off k n : Nat} (hoff : off = pre.length + k)
    (hn : k + n ≤ mid.length) :
    ((pre ++ mid ++ post).drop off).take n = (mid.drop k).take n := by
  have hle : n ≤ (mid.drop k).length := by
    rw [List.length_drop]
    omega
  rw [hoff, List.append_assoc, List.drop_length_add_append,
    List.drop_append_of_le_length (by omega), List.take_append_of_le_length hle]

section Keys

variable (w : SfWdata)

theorem key_proto (t : RteAclFieldType) (f i : FieldIpv46) :
    (⟨t, 1, f, i, protoOffset⟩ : RteAclFieldDef).key w.bytes = w.ipWdata.protocol.toNat := by
  have hbytes : w.bytes = (w.cachelineBytes.toList ++ le16 w.ipWdata.offset ++
      [w.ipWdata.version]) ++ [w.ipWdata.protocol] ++ (le16 w.ipWdata.headerLen ++
      le16 w.ipWdata.payloadLen ++ w.ipWdata.sip.toList ++ w.ipWdata.dip.toList ++
      [w.ipWdata.isFrag, w.ipWdata.reassOver] ++ w.l4Wdata.bytes) := by
    simp [SfWdata.bytes, IpWdata.bytes]
  rw [RteAclFieldDef.key, hbytes, slice_middle (k := 0) (by simp [le16, protoOffset,
    basicL3L4Offset, basicL3Offset]) (by simp)]
  simp [ofBytes]

theorem key_sip (t : RteAclFieldType) (f j : FieldIpv46) {i : Nat} (hi : i < 4) :
    (⟨t, 4, f, j, sipOffset + 4 * i⟩ : RteAclFieldDef).key w.bytes =
      netToHostU32 w.ipWdata.sip.toList i := by
  have hbytes : w.bytes = (w.cachelineBytes.toList ++ le16 w.ipWdata.offset ++
      [w.ipWdata.version, w.ipWdata.protocol] ++ le16 w.ipWdata.headerLen ++
      le16 w.ipWdata.payloadLen) ++ w.ipWdata.sip.toList ++ (w.ipWdata.dip.toList ++
      [w.ipWdata.isFrag, w.ipWdata.reassOver] ++ w.l4Wdata.bytes) := by
    simp [SfWdata.bytes, IpWdata.bytes]
  rw [RteAclFieldDef.key, hbytes, slice_middle (k := 4 * i) (n := 4) (by simp [le16, sipOffset,
    basicL3L4Offset, basicL3Offset]) (by rw [Vector.length_toList]; omega), netToHostU32]

theorem key_dip (t : RteAclFieldType) (f j : FieldIpv46) {i : Nat} (hi : i < 4) :
    (⟨t, 4, f, j, dipOffset + 4 * i⟩ : RteAclFieldDef).key w.bytes =
      netToHostU32 w.ipWdata.dip.toList i := by
  have hbytes : w.bytes = (w.cachelineBytes.toList ++ le16 w.ipWdata.offset ++
      [w.ipWdata.version, w.ipWdata.protocol] ++ le16 w.ipWdata.headerLen ++
      le16 w.ipWdata.payloadLen ++ w.ipWdata.sip.toList) ++ w.ipWdata.dip.toList ++
      ([w.ipWdata.isFrag, w.ipWdata.reassOver] ++ w.l4Wdata.bytes) := by
    simp [SfWdata.bytes, IpWdata.bytes]
  rw [RteAclFieldDef.key, hbytes, slice_middle (k := 4 * i) (n := 4) (by simp [le16, dipOffset,
    basicL3L4Offset, basicL3Offset]) (by rw [Vector.length_toList]; omega), netToHostU32]

theorem key_sport (t : RteAclFieldType) (f j : FieldIpv46) :
    (⟨t, 2, f, j, sportOffset⟩ : RteAclFieldDef).key w.bytes =
      ofBytes w.l4Wdata.sport.toList := by
  have hbytes : w.bytes = (w.cachelineBytes.toList ++ w.ipWdata.bytes ++
      le16 w.l4Wdata.offset) ++ w.l4Wdata.sport.toList ++ (w.l4Wdata.dport.toList ++
      le16 w.l4Wdata.headerLen) := by
    simp [SfWdata.bytes, L4Wdata.bytes]
  rw [RteAclFieldDef.key, hbytes, slice_middle (k := 0) (by simp [le16, IpWdata.bytes,
    sportOffset, basicL3L4Offset, basicL4Offset]) (by simp), List.drop_zero,
    List.take_of_length_le (by simp)]

theorem key_dport (t : RteAclFieldType) (f j : FieldIpv46) :
    (⟨t, 2, f, j, dportOffset⟩ : RteAclFieldDef).key w.bytes =
      ofBytes w.l4Wdata.dport.toList := by
  have hbytes : w.bytes = (w.cachelineBytes.toList ++ w.ipWdata.bytes ++
      le16 w.l4Wdata.offset ++ w.l4Wdata.sport.toList) ++ w.l4Wdata.dport.toList ++
      le16 w.l4Wdata.headerLen := by
    simp [SfWdata.bytes, L4Wdata.bytes]
  rw [RteAclFieldDef.key, hbytes, slice_middle (k := 0) (by simp [le16, IpWdata.bytes,
    dportOffset, basicL3L4Offset, basicL4Offset]) (by simp), List.drop_zero,
    List.take_of_length_le (by simp)]

end Keys

/-! ## Addresses by words -/

def addrWords (bs : List UInt8) : List Nat :=
  [netToHostU32 bs 0, netToHostU32 bs 1, netToHostU32 bs 2, netToHostU32 bs 3]

theorem netToHostU32_lt (bs : List UInt8) (i : Nat) : netToHostU32 bs i < 2 ^ 32 := by
  have hlen : ((bs.drop (4 * i)).take 4).length ≤ 4 := List.length_take_le 4 _
  calc netToHostU32 bs i < 256 ^ ((bs.drop (4 * i)).take 4).length := ofBytes_lt _
    _ ≤ 256 ^ 4 := Nat.pow_le_pow_right (by decide) hlen
    _ = 2 ^ 32 := by norm_num

theorem netToHostU32_of_length {bs : List UInt8} (h : bs.length = 4) :
    netToHostU32 bs 0 = ofBytes bs := by
  rw [netToHostU32, Nat.mul_zero, List.drop_zero, List.take_of_length_le h.le]

theorem addrWords_lt (bs : List UInt8) : ∀ x ∈ addrWords bs, x < 2 ^ 32 := by
  intro x hx
  simp only [addrWords, List.mem_cons, List.not_mem_nil, or_false] at hx
  rcases hx with rfl | rfl | rfl | rfl <;> exact netToHostU32_lt bs _

/-- Sixteen bytes are the four words read from them. -/
theorem ofWords_addrWords {bs : List UInt8} (h : bs.length = 16) :
    ofWords 32 (addrWords bs) = ofBytes bs := by
  have hcut (i : Nat) (hi : i < 4) : ofBytes (bs.drop (4 * i)) =
      netToHostU32 bs i * 256 ^ (12 - 4 * i) + ofBytes (bs.drop (4 * (i + 1))) := by
    rw [netToHostU32]
    nth_rewrite 1 [← List.take_append_drop 4 (bs.drop (4 * i))]
    rw [ofBytes_append, List.drop_drop, List.length_drop, h]
    congr 3
    omega
  have hend : bs.drop (4 * 4) = [] := List.drop_of_length_le h.le
  have h0 := hcut 0 (by decide)
  have h1 := hcut 1 (by decide)
  have h2 := hcut 2 (by decide)
  have h3 := hcut 3 (by decide)
  rw [hend] at h3
  rw [h3] at h2
  rw [h2] at h1
  rw [h1] at h0
  rw [Nat.mul_zero, List.drop_zero] at h0
  rw [h0]
  simp only [ofWords, addrWords, ofBytes, List.length_cons, List.length_nil]
  ring

/-- The translated masks say how much of each word belongs to the prefix. -/
theorem wordsAgree_addrWords {n : Nat} {xs ys : List UInt8} :
    WordsAgree 32 n (addrWords xs) (addrWords ys) ↔
      TopAgree 32 (maskGet n) (netToHostU32 xs 0) (netToHostU32 ys 0) ∧
      TopAgree 32 (maskGet (maskSub n)) (netToHostU32 xs 1) (netToHostU32 ys 1) ∧
      TopAgree 32 (maskGet (maskSub (maskSub n))) (netToHostU32 xs 2) (netToHostU32 ys 2) ∧
      TopAgree 32 (maskGet (maskSub (maskSub (maskSub n)))) (netToHostU32 xs 3)
        (netToHostU32 ys 3) := by
  have hget (m : Nat) : maskGet m = min m 32 := by
    rw [maskGet]
    split <;> omega
  have hsub (m : Nat) : maskSub m = m - 32 := by
    rw [maskSub]
    split <;> omega
  simp only [addrWords, WordsAgree, hget, hsub, and_true]

/-- The four masks of a translated address together are its prefix of 128 bits. -/
theorem wordsAgree_iff {n : Nat} {xs ys : List UInt8} (hx : xs.length = 16)
    (hy : ys.length = 16) (hn : n ≤ 128) :
    WordsAgree 32 n (addrWords xs) (addrWords ys) ↔
      TopAgree 128 n (ofBytes xs) (ofBytes ys) := by
  have hlen : (addrWords xs).length = (addrWords ys).length := rfl
  rw [← ofWords_addrWords hx, ← ofWords_addrWords hy]
  exact (topAgree_words hlen (addrWords_lt xs) (addrWords_lt ys) hn).symm

/-- The first word is the address without its last 96 bits, and the other words are those. -/
theorem addrWords_zero_iff {bs : List UInt8} (h : bs.length = 16) :
    ofBytes bs / 2 ^ 96 = netToHostU32 bs 0 ∧
      (ofBytes bs % 2 ^ 96 = 0 ↔
        netToHostU32 bs 1 = 0 ∧ netToHostU32 bs 2 = 0 ∧ netToHostU32 bs 3 = 0) := by
  have h1 := netToHostU32_lt bs 1
  have h2 := netToHostU32_lt bs 2
  have h3 := netToHostU32_lt bs 3
  rw [← ofWords_addrWords h]
  simp only [ofWords, addrWords, List.length_cons, List.length_nil]
  omega

/-! ## What a translated rule accepts -/

/-- A configuration admits a tuple: the addresses agree with those of the configuration under
their prefix lengths, and the protocol and the ports lie in their ranges. -/
def TupleRuleCfg.Admits (c : TupleRuleCfg) (isIpv6 : Bool) (t : Tuple) : Prop :=
  let width := if isIpv6 then 128 else 32
  TopAgree width c.sipMask.toNat (ofBytes c.sip) t.sip ∧
    TopAgree width c.dipMask.toNat (ofBytes c.dip) t.dip ∧
    (c.protoMin.toNat ≤ t.protocol ∧ t.protocol ≤ c.protoMax.toNat) ∧
    (c.sportMin.toNat ≤ t.sport ∧ t.sport ≤ c.sportMax.toNat) ∧
    (c.dportMin.toNat ≤ t.dport ∧ t.dport ≤ c.dportMax.toNat)

instance (c : TupleRuleCfg) (isIpv6 : Bool) (t : Tuple) : Decidable (c.Admits isIpv6 t) := by
  unfold TupleRuleCfg.Admits
  infer_instance

/-- The addresses have the length of their family, and so have the prefixes. -/
structure TupleRuleCfg.Fits (c : TupleRuleCfg) (isIpv6 : Bool) : Prop where
  sip : c.sip.length = if isIpv6 then 16 else 4
  dip : c.dip.length = if isIpv6 then 16 else 4
  sipMask : c.sipMask.toNat ≤ if isIpv6 then 128 else 32
  dipMask : c.dipMask.toNat ≤ if isIpv6 then 128 else 32

/-- The fields of a rule against the metadata, with what each of them reads. -/
theorem matches_iff (r : Acl46RuleCfg) (w : SfWdata) :
    r.Matches aclRteIpv46Defs w.bytes ↔
      ((r.field .proto).value ≤ w.tuple.protocol ∧
        w.tuple.protocol ≤ (r.field .proto).maskRange) ∧
      (TopAgree 32 (r.field .sip1).maskRange (r.field .sip1).value
          (netToHostU32 w.ipWdata.sip.toList 0) ∧
        TopAgree 32 (r.field .sip2).maskRange (r.field .sip2).value
          (netToHostU32 w.ipWdata.sip.toList 1) ∧
        TopAgree 32 (r.field .sip3).maskRange (r.field .sip3).value
          (netToHostU32 w.ipWdata.sip.toList 2) ∧
        TopAgree 32 (r.field .sip4).maskRange (r.field .sip4).value
          (netToHostU32 w.ipWdata.sip.toList 3)) ∧
      (TopAgree 32 (r.field .dip1).maskRange (r.field .dip1).value
          (netToHostU32 w.ipWdata.dip.toList 0) ∧
        TopAgree 32 (r.field .dip2).maskRange (r.field .dip2).value
          (netToHostU32 w.ipWdata.dip.toList 1) ∧
        TopAgree 32 (r.field .dip3).maskRange (r.field .dip3).value
          (netToHostU32 w.ipWdata.dip.toList 2) ∧
        TopAgree 32 (r.field .dip4).maskRange (r.field .dip4).value
          (netToHostU32 w.ipWdata.dip.toList 3)) ∧
      ((r.field .sport).value ≤ w.tuple.sport ∧
        w.tuple.sport ≤ (r.field .sport).maskRange) ∧
      ((r.field .dport).value ≤ w.tuple.dport ∧
        w.tuple.dport ≤ (r.field .dport).maskRange) := by
  have hsip1 := fun t f j => key_sip w t f j (i := 0) (by decide)
  have hsip2 := fun t f j => key_sip w t f j (i := 1) (by decide)
  have hsip3 := fun t f j => key_sip w t f j (i := 2) (by decide)
  have hsip4 := fun t f j => key_sip w t f j (i := 3) (by decide)
  have hdip1 := fun t f j => key_dip w t f j (i := 0) (by decide)
  have hdip2 := fun t f j => key_dip w t f j (i := 1) (by decide)
  have hdip3 := fun t f j => key_dip w t f j (i := 2) (by decide)
  have hdip4 := fun t f j => key_dip w t f j (i := 3) (by decide)
  simp only [Nat.mul_zero, Nat.add_zero] at hsip1 hdip1
  simp only [Nat.mul_one] at hsip2 hdip2
  simp only [Nat.reduceMul] at hsip3 hsip4 hdip3 hdip4
  simp only [Acl46RuleCfg.Matches, aclRteIpv46Defs, List.forall_mem_cons,
    RteAclFieldDef.Matches, key_proto, key_sport, key_dport, hsip1, hsip2, hsip3, hsip4, hdip1,
    hdip2, hdip3, hdip4, SfWdata.tuple, Nat.reduceMul, List.not_mem_nil, false_imp_iff,
    implies_true, and_true, and_assoc]

/-- A translated tuple6 rule accepts the metadata whose tuple its configuration admits. -/
theorem tuple6_matches {c : TupleRuleCfg} (fits : c.Fits true) (w : SfWdata)
    {r : Acl46RuleCfg} (hr : r.field = transShmToRteTuple6 c) :
    r.Matches aclRteIpv46Defs w.bytes ↔ c.Admits true w.tuple := by
  rw [matches_iff, hr]
  simp only [transShmToRteTuple6, ← wordsAgree_addrWords]
  rw [wordsAgree_iff fits.sip Vector.length_toList fits.sipMask,
    wordsAgree_iff fits.dip Vector.length_toList fits.dipMask]
  simp only [TupleRuleCfg.Admits, if_true, SfWdata.tuple]
  tauto

/-- A translated tuple4 rule accepts the metadata whose addresses end with 96 zero bits and
whose tuple, with the addresses cut to their first words, its configuration admits. -/
theorem tuple4_matches {c : TupleRuleCfg} (fits : c.Fits false) (w : SfWdata)
    {r : Acl46RuleCfg} (hr : r.field = transShmToRteTuple4 c) :
    r.Matches aclRteIpv46Defs w.bytes ↔
      w.tuple.sip % 2 ^ 96 = 0 ∧ w.tuple.dip % 2 ^ 96 = 0 ∧
        c.Admits false { w.tuple with
          sip := w.tuple.sip / 2 ^ 96, dip := w.tuple.dip / 2 ^ 96 } := by
  have hlen (addr : IpAddr) : addr.toList.length = 16 := Vector.length_toList
  obtain ⟨hsip, hsipz⟩ := addrWords_zero_iff (hlen w.ipWdata.sip)
  obtain ⟨hdip, hdipz⟩ := addrWords_zero_iff (hlen w.ipWdata.dip)
  rw [matches_iff, hr]
  simp only [transShmToRteTuple4, TupleRuleCfg.Admits, SfWdata.tuple, hsip, hdip, hsipz, hdipz,
    Bool.false_eq_true, if_false, netToHostU32_of_length fits.sip, netToHostU32_of_length fits.dip,
    topAgree_self_width, @eq_comm _ (0 : Nat)]
  constructor
  · rintro ⟨hproto, ⟨hs, hsz⟩, ⟨hd, hdz⟩, hports⟩
    exact ⟨hsz, hdz, hs, hd, hproto, hports⟩
  · rintro ⟨hsz, hdz, hs, hd, hproto, hports⟩
    exact ⟨hproto, ⟨hs, hsz⟩, ⟨hd, hdz⟩, hports⟩

end Tapplet.Acl
