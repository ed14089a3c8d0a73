import Tapplet.Net.Headers

/-!
# The worker of a packet

`sf_pkt_get_worker_index` hashes the addresses and the protocol of a packet, so that the packets
of a flow come to one worker. Behind a tag it goes on as if the tag were a second Ethernet
header, and what it hashes then are other bytes.
-/

namespace Tapplet.Net

/-- `clib_xxhash` and `is_pow2` -/
structure Clib where
  xxhash : UInt64 → UInt64
  isPow2 : UInt32 → Bool

/-- The key of an IPv4 packet. -/
def ip4Key (ip : Bytes) : UInt64 :=
  (ip.ip4SrcIp ^^^ ip.ip4DstIp ^^^ ip.ip4Protocol.toUInt32).toUInt64

/-- The key of an IPv6 packet. -/
def ip6Key (ip : Bytes) : UInt64 :=
  ip.ip6SrcIp.1 ^^^ ip.ip6SrcIp.2 ^^^ ip.ip6DstIp.1 ^^^ ip.ip6DstIp.2 ^^^
    ip.ip6NextHeader.toUInt64

/-- `hash_key` before it is hashed. -/
def hashKey (en : Bytes) : UInt64 :=
  if en.ethType = ETHER_IPV4_NET_ORDER then ip4Key (en.skip ETH_HEADER_LEN)
  else if en.ethType = ETHER_IPV6_NET_ORDER then ip6Key (en.skip ETH_HEADER_LEN)
  else if en.ethType = ETHER_VLAN_NET_ORDER ∨ en.ethType = ETHER_QINQ_NET_ORDER then
    let eth := en.skip ETH_HEADER_LEN
    let eth := if eth.ethType = ETHER_VLAN_NET_ORDER then eth.skip ETH_HEADER_LEN else eth
    if eth.ethType = ETHER_IPV4_NET_ORDER then ip4Key (eth.skip ETH_HEADER_LEN)
    else if eth.ethType = ETHER_IPV6_NET_ORDER then ip6Key (eth.skip ETH_HEADER_LEN)
    else eth.ethType.toUInt64
  else en.ethType.toUInt64

/-- `sf_pkt_get_worker_index` -/
def sfPktGetWorkerIndex (clib : Clib) (en : Bytes) (numWorkers : UInt32) : UInt16 :=
  let key := clib.xxhash (hashKey en)
  if clib.isPow2 numWorkers then (key &&& (numWorkers - 1).toUInt64).toUInt16
  else (key % numWorkers.toUInt64).toUInt16

/-- The index names a worker. -/
theorem sfPktGetWorkerIndex_lt (clib : Clib) (en : Bytes) {numWorkers : UInt32}
    (h : numWorkers ≠ 0) : (sfPktGetWorkerIndex clib en numWorkers).toNat < numWorkers.toNat := by
  have hpos : 0 < numWorkers.toNat :=
    Nat.pos_of_ne_zero fun hzero => h (UInt32.toNat_inj.mp hzero)
  rw [sfPktGetWorkerIndex]
  split
  next =>
    have hle := Nat.and_le_right (n := (clib.xxhash (hashKey en)).toNat)
      (m := (numWorkers - 1).toNat)
    have hone : (numWorkers - 1).toNat = numWorkers.toNat - 1 :=
      UInt32.toNat_sub_of_le _ _ (UInt32.le_iff_toNat_le.mpr hpos)
    rw [UInt64.toNat_toUInt16, UInt64.toNat_and, UInt32.toNat_toUInt64]
    have hmod := Nat.mod_le ((clib.xxhash (hashKey en)).toNat &&& (numWorkers - 1).toNat) (2 ^ 16)
    omega
  next =>
    have hlt := Nat.mod_lt (clib.xxhash (hashKey en)).toNat hpos
    rw [UInt64.toNat_toUInt16, UInt64.toNat_mod, UInt32.toNat_toUInt64]
    exact Nat.lt_of_le_of_lt (Nat.mod_le ..) hlt

/-! ## Flows -/

inductive IpVersion where
  | v4
  | v6
deriving DecidableEq

def IpVersion.etherType : IpVersion → UInt16
  | .v4 => ETHER_IPV4_NET_ORDER
  | .v6 => ETHER_IPV6_NET_ORDER

/-- Where the IP header of a frame is. -/
def ipOffset (tags : Nat) : Nat := ETH_HEADER_LEN + VLAN_HEADER_LEN * tags

/-- A frame has this many tags, and an IP packet behind them. The type of what follows is at the
end of each header. -/
structure Carries (version : IpVersion) (tags : Nat) (frame : Bytes) : Prop where
  tagged : ∀ i < tags, IsTag (frame.u16 (ipOffset i - 2))
  ip : frame.u16 (ipOffset tags - 2) = version.etherType

/-- The same two values, in whatever order. -/
def SamePair {α : Type} (a b a' b' : α) : Prop := a = a' ∧ b = b' ∨ a = b' ∧ b = a'

/-- Two IP packets have the same two addresses and the same protocol. -/
def SameFlow : IpVersion → Bytes → Bytes → Prop
  | .v4, ip, ip' => SamePair ip.ip4SrcIp ip.ip4DstIp ip'.ip4SrcIp ip'.ip4DstIp ∧
      ip.ip4Protocol = ip'.ip4Protocol
  | .v6, ip, ip' => SamePair ip.ip6SrcIp ip.ip6DstIp ip'.ip6SrcIp ip'.ip6DstIp ∧
      ip.ip6NextHeader = ip'.ip6NextHeader

theorem SameFlow.refl (version : IpVersion) (ip : Bytes) : SameFlow version ip ip := by
  cases version with
  | v4 => exact ⟨.inl ⟨rfl, rfl⟩, rfl⟩
  | v6 => exact ⟨.inl ⟨rfl, rfl⟩, rfl⟩

theorem SamePair.symm {α : Type} {a b a' b' : α} (h : SamePair a b a' b') :
    SamePair a' b' a b := by
  obtain ⟨ha, hb⟩ | ⟨ha, hb⟩ := h
  · exact .inl ⟨ha.symm, hb.symm⟩
  · exact .inr ⟨hb.symm, ha.symm⟩

theorem SameFlow.symm {version : IpVersion} {ip ip' : Bytes} (h : SameFlow version ip ip') :
    SameFlow version ip' ip := by
  cases version with
  | v4 => exact ⟨h.1.symm, h.2.symm⟩
  | v6 => exact ⟨h.1.symm, h.2.symm⟩

/-- All packets of a flow come to one worker, those with so many tags and those with so many. -/
def FlowsTogether (version : IpVersion) (tags tags' : Nat) : Prop :=
  ∀ (clib : Clib) (numWorkers : UInt32) (frame frame' : Bytes), numWorkers ≠ 0 →
    Carries version tags frame → Carries version tags' frame' →
    SameFlow version (frame.skip (ipOffset tags)) (frame'.skip (ipOffset tags')) →
    sfPktGetWorkerIndex clib frame numWorkers = sfPktGetWorkerIndex clib frame' numWorkers

/-- Different keys can be told apart by the hash. -/
theorem FlowsTogether.hashKey_eq {version : IpVersion} {tags tags' : Nat}
    (h : FlowsTogether version tags tags') {frame frame' : Bytes}
    (hframe : Carries version tags frame) (hframe' : Carries version tags' frame')
    (hflow : SameFlow version (frame.skip (ipOffset tags)) (frame'.skip (ipOffset tags'))) :
    hashKey frame = hashKey frame' := by
  by_contra hne
  have hsame := h ⟨fun key => if key = hashKey frame then 0 else 1, fun _ => true⟩ 2 frame frame'
    (by decide) hframe hframe' hflow
  rw [sfPktGetWorkerIndex, sfPktGetWorkerIndex] at hsame
  dsimp only at hsame
  rw [if_pos rfl, if_pos rfl, if_pos rfl, if_neg (Ne.symm hne)] at hsame
  exact absurd hsame (by decide)

/-- The key of an IP packet. -/
def ipKey : IpVersion → Bytes → UInt64
  | .v4 => ip4Key
  | .v6 => ip6Key

/-- Exclusive or does not see the order of the addresses. -/
theorem ipKey_eq {version : IpVersion} {ip ip' : Bytes} (h : SameFlow version ip ip') :
    ipKey version ip = ipKey version ip' := by
  cases version with
  | v4 =>
      obtain ⟨⟨hsrc, hdst⟩ | ⟨hsrc, hdst⟩, hprotocol⟩ := h
      · show ip4Key ip = ip4Key ip'
        rw [ip4Key, ip4Key, hsrc, hdst, hprotocol]
      · show ip4Key ip = ip4Key ip'
        rw [ip4Key, ip4Key, hsrc, hdst, hprotocol, UInt32.xor_comm ip'.ip4DstIp]
  | v6 =>
      obtain ⟨⟨hsrc, hdst⟩ | ⟨hsrc, hdst⟩, hprotocol⟩ := h
      · show ip6Key ip = ip6Key ip'
        rw [ip6Key, ip6Key, hsrc, hdst, hprotocol]
      · show ip6Key ip = ip6Key ip'
        rw [ip6Key, ip6Key, hsrc, hdst, hprotocol]
        congr 1
        rw [UInt64.xor_assoc, UInt64.xor_comm, ← UInt64.xor_assoc]

/-- Without tags, the key is the one of the IP packet. -/
theorem hashKey_untagged {version : IpVersion} {frame : Bytes} (h : Carries version 0 frame) :
    hashKey frame = ipKey version (frame.skip (ipOffset 0)) := by
  have htype : frame.ethType = version.etherType := h.ip
  cases version with
  | v4 =>
      rw [hashKey, htype]
      exact if_pos rfl
  | v6 =>
      rw [hashKey, htype, if_neg (by decide)]
      exact if_pos rfl

/-! ## Tagged packets -/

/-- The bytes of the type. -/
def IpVersion.typeBytes : IpVersion → UInt8 × UInt8
  | .v4 => (0x08, 0x00)
  | .v6 => (0x86, 0xdd)

/-- A frame with tags in front of an IP packet. -/
def tagged (version : IpVersion) (tags : Nat) (ip : Bytes) : Bytes := fun i =>
  if i < 12 then 0
  else if i < 12 + 4 * tags then if i % 4 = 0 then 0x81 else 0
  else if i = 12 + 4 * tags then version.typeBytes.1
  else if i = 13 + 4 * tags then version.typeBytes.2
  else ip (i - (14 + 4 * tags))

/-- Two packets of a flow of each version, which differ in what is not of the flow. -/
def samplePacket : IpVersion → Bool → Bytes
  | .v4, answer => fun i =>
      if i = 4 ∨ i = 8 then if answer then 2 else 1 else if i = 9 then 6 else 0
  | .v6, answer => fun i =>
      if i = 4 ∨ i = 8 then if answer then 2 else 1
      else if i = 24 then if answer then 1 else 2
      else if i = 6 then 6 else 0

theorem carries_tagged (version : IpVersion) (tags : Nat) (ip : Bytes) :
    Carries version tags (tagged version tags ip) := by
  have hoffset (i : Nat) : ipOffset i - 2 = 12 + 4 * i := by
    show 14 + 4 * i - 2 = _
    omega
  constructor
  · intro i hi
    have hlow : tagged version tags ip (12 + 4 * i) = 0x81 := by
      unfold tagged
      rw [if_neg (by omega), if_pos (by omega), if_pos (by omega)]
    have hhigh : tagged version tags ip (12 + 4 * i + 1) = 0 := by
      unfold tagged
      rw [if_neg (by omega), if_pos (by omega), if_neg (by omega)]
    rw [hoffset, Bytes.u16, hlow, hhigh]
    decide
  · have hlow : tagged version tags ip (12 + 4 * tags) = version.typeBytes.1 := by
      unfold tagged
      rw [if_neg (by omega), if_neg (by omega), if_pos rfl]
    have hhigh : tagged version tags ip (12 + 4 * tags + 1) = version.typeBytes.2 := by
      unfold tagged
      rw [if_neg (by omega), if_neg (by omega), if_neg (by omega), if_pos (by omega)]
    rw [hoffset, Bytes.u16, hlow, hhigh]
    cases version <;> decide

theorem skip_tagged (version : IpVersion) (tags : Nat) (ip : Bytes) :
    (tagged version tags ip).skip (ipOffset tags) = ip := by
  funext i
  have hoffset : ipOffset tags = 14 + 4 * tags := rfl
  show tagged version tags ip (ipOffset tags + i) = ip i
  unfold tagged
  rw [hoffset, if_neg (by omega), if_neg (by omega), if_neg (by omega), if_neg (by omega),
    Nat.add_sub_cancel_left]

theorem samplePacket_flow (version : IpVersion) :
    SameFlow version (samplePacket version false) (samplePacket version true) := by
  cases version with
  | v4 => exact ⟨.inl ⟨rfl, rfl⟩, rfl⟩
  | v6 => exact ⟨.inr ⟨rfl, rfl⟩, rfl⟩

/-- Behind a tag, other bytes are hashed. -/
theorem hashKey_tagged_ne (version : IpVersion) (tags : Fin 3) (h : tags ≠ 0) :
    hashKey (tagged version tags (samplePacket version false)) ≠
      hashKey (tagged version tags (samplePacket version true)) := by
  revert tags
  cases version <;> decide

/-- A packet of the flow of another one, with so many tags. -/
theorem exists_sameFlow (version : IpVersion) (tags : Nat) (ip : Bytes) :
    ∃ frame, Carries version tags frame ∧
      frame.skip (ipOffset tags) = ip :=
  ⟨_, carries_tagged version tags ip, skip_tagged version tags ip⟩

theorem not_flowsTogether (version : IpVersion) {tags : Fin 3} (h : tags ≠ 0) (tags' : Nat) :
    ¬FlowsTogether version tags tags' := by
  intro htogether
  have hflow := samplePacket_flow version
  obtain ⟨frame', hframe', hskip'⟩ := exists_sameFlow version tags' (samplePacket version true)
  have hfirst := htogether.hashKey_eq (carries_tagged version tags (samplePacket version false))
    hframe' (by rwa [skip_tagged, hskip'])
  have hsecond := htogether.hashKey_eq (carries_tagged version tags (samplePacket version true))
    hframe' (by
      rw [skip_tagged, hskip']
      exact SameFlow.refl version _)
  exact hashKey_tagged_ne version tags h (hfirst.trans hsecond.symm)

theorem FlowsTogether.symm {version : IpVersion} {tags tags' : Nat}
    (h : FlowsTogether version tags tags') : FlowsTogether version tags' tags := by
  intro clib numWorkers frame frame' hne hframe hframe' hflow
  exact (h clib numWorkers frame' frame hne hframe' hframe hflow.symm).symm

/-- The flows of a version come to one worker each if and only if none of their packets has a
tag. The index is always the one of a worker. -/
theorem worker_index_flow_iff (version : IpVersion) (tags tags' : Fin 3) :
    (FlowsTogether version tags tags' ↔ tags = 0 ∧ tags' = 0) ∧
      ∀ (clib : Clib) (frame : Bytes) (numWorkers : UInt32), numWorkers ≠ 0 →
        (sfPktGetWorkerIndex clib frame numWorkers).toNat < numWorkers.toNat := by
  refine ⟨⟨fun h => ?_, ?_⟩, fun clib frame n hn => sfPktGetWorkerIndex_lt clib frame hn⟩
  · constructor
    · by_contra hne
      exact not_flowsTogether version hne tags' h
    · by_contra hne
      exact not_flowsTogether version hne tags h.symm
  · rintro ⟨rfl, rfl⟩ clib numWorkers frame frame' - hframe hframe' hflow
    have hkey : hashKey frame = hashKey frame' :=
      calc hashKey frame
          = ipKey version (frame.skip (ipOffset 0)) := hashKey_untagged hframe
        _ = ipKey version (frame'.skip (ipOffset 0)) := ipKey_eq hflow
        _ = hashKey frame' := (hashKey_untagged hframe').symm
    rw [sfPktGetWorkerIndex, sfPktGetWorkerIndex, hkey]

/-- Two packets with one tag that differ in their TTL. -/
theorem one_tag_apart : ∃ (clib : Clib) (frame frame' : Bytes),
    Carries .v4 1 frame ∧ Carries .v4 1 frame' ∧
      SameFlow .v4 (frame.skip (ipOffset 1)) (frame'.skip (ipOffset 1)) ∧
      sfPktGetWorkerIndex clib frame 2 ≠ sfPktGetWorkerIndex clib frame' 2 := by
  refine ⟨⟨id, fun _ => true⟩, tagged .v4 1 (samplePacket .v4 false),
    tagged .v4 1 (samplePacket .v4 true), carries_tagged .v4 1 _, carries_tagged .v4 1 _, ?_, ?_⟩
  · rw [skip_tagged, skip_tagged]
    exact samplePacket_flow .v4
  · decide

end Tapplet.Net
