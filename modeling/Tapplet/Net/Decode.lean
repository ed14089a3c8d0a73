import Tapplet.Net.Vlan
import Tapplet.Net.Ip6

/-!
# The decoding nodes

The way of a frame from `sf_eth_input` over the IP nodes to the TCP and UDP nodes. Each decoder
tests the length of its header for itself, before it has read from it or after. The condition
under which they stay in the packet is read off one by one and put together for the frame.
-/

namespace Tapplet.Net

open Reass (ipv6FragHeaderLen)

/-- Where the decoding nodes send a packet. -/
inductive NextNode where
  | aclEntry
  | ip4Input
  | ip6Input
  | udpInput
  | tcpInput
  | ip4Reass
  | ip6Reass
deriving DecidableEq

def MAX_IP_WDATA : UInt8 := 1

/-- `parse_eth_hdr` -/
def parseEthHdr (d : Decoding) (ethType : UInt16) : UInt16 × Decoding :=
  if IsTag ethType then parseVlanHdrOnly d else (ethType, d)

/-- `sf_eth_get_next_index` -/
def sfEthGetNextIndex (ethType : UInt16) : NextNode :=
  if ethType = ETHER_IPV4_NET_ORDER then .ip4Input
  else if ethType = ETHER_IPV6_NET_ORDER then .ip6Input
  else .aclEntry

/-- `sf_eth_input_node` for one packet. The type is read through the pointer from before the
advance. -/
def ethInput (d : Decoding) : Decoding × NextNode :=
  let eth := d.wdata.current
  let r := parseEthHdr ((d.read 12 2).advance 14 ETH_HEADER_LEN) eth.ethType
  (r.2, sfEthGetNextIndex r.1)

/-- `sf_ip4_get_next_index`, also the second half of `sf_ip6_get_next_index`. -/
def ipNextIndex (protocol : UInt8) : NextNode :=
  if protocol = IP_PRO_UDP then .udpInput
  else if protocol = IP_PRO_TCP then .tcpInput
  else .aclEntry

/-- `ip4_decode`, and its caller's `need_lookup`: protocol 0 is not looked up. -/
def ip4Input (d : Decoding) : Decoding × NextNode :=
  let ip := d.wdata.current
  let d := d.read 0 1
  let hdrLen := ip.ip4HeaderLen.toUInt16 <<< 2
  if MAX_IP_WDATA ≤ d.wdata.ipWdataCnt then (d, .aclEntry)
  else if d.wdata.currentLength < hdrLen then (d.update (·.setError), .aclEntry)
  else
    let d := ((((d.read 12 4).read 16 4).read 9 1).read 2 2).read 6 2
    let d := d.update (·.updateIp
      { offset := d.wdata.currentData
        version := 4
        protocol := ip.ip4Protocol
        headerLen := hdrLen
        payloadLen := netToHost16 ip.ip4TotalLen - hdrLen
        sip := .v4 ip.ip4SrcIp
        dip := .v4 ip.ip4DstIp
        isFrag := ip.ip4IsFrag })
    if ip.ip4IsFrag then (d, .ip4Reass)
    else
      (d.advance hdrLen IPV4_HEADER_LEN,
        if ip.ip4Protocol ≠ 0 then ipNextIndex ip.ip4Protocol else .aclEntry)

/-- What `sf_ip6_input_node` does with a packet whose headers it has walked over. -/
def ip6Decoded (ip : Bytes) (w : Ip6Walk) (d : Decoding) : Decoding × NextNode :=
  let d := (d.read 8 16).read 24 16
  let d := d.update (·.updateIp
    { offset := d.wdata.currentData
      version := 6
      protocol := w.protocol
      headerLen := w.hdrLen
      payloadLen := netToHost16 ip.ip6PayloadLen + 40 - w.hdrLen
      sip := .v6 ip.ip6SrcIp.1 ip.ip6SrcIp.2
      dip := .v6 ip.ip6DstIp.1 ip.ip6DstIp.2
      isFrag := w.isFrag })
  if w.isFrag then (d, .ip6Reass)
  else (d.advance w.hdrLen IPV6_HEADER_LEN, ipNextIndex w.protocol)

/-- The loop of `sf_ip6_input_node` for two packets, for one of them. The payload length is read
in any case. -/
def ip6InputPair (d : Decoding) : Decoding × NextNode :=
  let r := parseIpv6Hdr d
  let d' := r.1.read 4 2
  if r.2.protocol = IP_PRO_INVALID then (d', .aclEntry)
  else ip6Decoded d.wdata.current r.2 d'

/-- The loop of `sf_ip6_input_node` for one packet. Only here is it tested whether an IP header
has been counted already. -/
def ip6InputSingle (d : Decoding) : Decoding × NextNode :=
  let r := parseIpv6Hdr d
  let d' := r.1.read 4 2
  if MAX_IP_WDATA ≤ d'.wdata.ipWdataCnt then (d', .aclEntry)
  else if r.2.protocol = IP_PRO_INVALID then (d'.update (·.setError), .aclEntry)
  else ip6Decoded d.wdata.current r.2 d'

/-- The loop of `sf_ip6_input_node` that takes a packet. -/
inductive Body where
  | single
  | pair
deriving DecidableEq

/-- `sf_ip6_input_node` -/
def ip6Input : Body → Decoding → Decoding × NextNode
  | .single => ip6InputSingle
  | .pair => ip6InputPair

/-- `sf_tcp_decode` -/
def sfTcpDecode (d : Decoding) : Decoding :=
  let tcp := d.wdata.current
  let d := d.read 12 1
  let hdrLen := tcp.tcpHdrLen.toUInt16 <<< 2
  if d.wdata.currentLength < hdrLen then d.update (·.setError)
  else
    let d := (d.read 0 2).read 2 2
    let d := d.update fun w =>
      { w.updateL4 w.currentData tcp.srcPort tcp.dstPort hdrLen with
        arg1ToNext := tcp.srcPort
        arg2ToNext := tcp.dstPort }
    d.advance hdrLen TCP_HEADER_LEN

/-- `sf_udp_input_node` for one packet. -/
def udpInput (d : Decoding) : Decoding :=
  let udp := d.wdata.current
  if 8 ≤ d.wdata.currentLength then
    let d := (d.read 0 2).read 2 2
    let d := d.update fun w =>
      { w.updateL4 w.currentData udp.srcPort udp.dstPort 8 with
        arg1ToNext := udp.srcPort
        arg2ToNext := udp.dstPort }
    d.advance 8 UDP_HEADER_LEN
  else d.update (·.setError)

/-- Behind an IP node. Both transport nodes send to `sf_acl_entry`, where decoding ends; so it
does at the reassembly. -/
def decodeL4 (d : Decoding) : NextNode → Decoding
  | .udpInput => udpInput d
  | .tcpInput => sfTcpDecode d
  | _ => d

/-- Behind `sf_eth_input`. -/
def decodeL3 (body : Body) (d : Decoding) : NextNode → Decoding
  | .ip4Input => decodeL4 (ip4Input d).1 (ip4Input d).2
  | .ip6Input => decodeL4 (ip6Input body d).1 (ip6Input body d).2
  | _ => d

/-- A frame enters `sf_eth_input` with this working data. -/
def decodeFrame (body : Body) (w : Wdata) : Decoding :=
  decodeL3 body (ethInput ⟨w, []⟩).1 (ethInput ⟨w, []⟩).2

/-! ## Which packets are decoded inside -/

/-- The byte with the data offset is there, and an offset that is accepted is not too small. -/
def TcpInside (p : Bytes) (len : Nat) : Prop :=
  13 ≤ len ∧ (4 * p.tcpHdrLen.toNat ≤ len → 5 ≤ p.tcpHdrLen.toNat)

/-- The byte with the header length is there. If the length is accepted the fixed part is there,
and if the packet is decoded any further, the length is not too small. -/
def Ip4Inside (ipWdataCnt : UInt8) (p : Bytes) (len : Nat) : Prop :=
  1 ≤ len ∧ (ipWdataCnt = 0 → 4 * p.ip4HeaderLen.toNat ≤ len →
    20 ≤ len ∧ (p.ip4IsFrag = false → 5 ≤ p.ip4HeaderLen.toNat ∧
      (p.ip4Protocol = IP_PRO_TCP →
        TcpInside (p.skip (4 * p.ip4HeaderLen.toNat)) (len - 4 * p.ip4HeaderLen.toNat))))

/-- No extension header that is reached has its length field behind the end of the packet. -/
def ExtInside (p : Bytes) (kind : UInt8) (o len : Nat) : Prop :=
  ∀ kind' o', Chain p kind o kind' o' → IsExt kind' → o' = o ∨ o' < len → o' + 2 ≤ len

/-- The packet is decoded beyond its extension headers. -/
def GoesOn (body : Body) (ipWdataCnt : UInt8) : Prop := body = .pair ∨ ipWdataCnt = 0

/-- The payload length is there, and in a packet that is not too short the extension headers
are, and if the packet is decoded any further, the TCP header behind them. -/
def Ip6Inside (body : Body) (ipWdataCnt : UInt8) (p : Bytes) (len : Nat) : Prop :=
  6 ≤ len ∧ (IPV6_HEADER_LEN ≤ len →
    ExtInside p p.ip6NextHeader IPV6_HEADER_LEN len ∧
    (GoesOn body ipWdataCnt →
      ∀ hdrLen, ChainEnd p p.ip6NextHeader IPV6_HEADER_LEN IP_PRO_TCP hdrLen false →
        hdrLen = IPV6_HEADER_LEN ∨ hdrLen < len → TcpInside (p.skip hdrLen) (len - hdrLen)))

/-- The packet behind the Ethernet header and the tags. -/
def NetworkInside (body : Body) (ipWdataCnt : UInt8) (ethType : UInt16) (p : Bytes)
    (len : Nat) : Prop :=
  (ethType = ETHER_IPV4_NET_ORDER → Ip4Inside ipWdataCnt p len) ∧
  (ethType = ETHER_IPV6_NET_ORDER → Ip6Inside body ipWdataCnt p len)

/-- The frame has an Ethernet header, and so on for what is behind it or behind the tags. -/
def FrameInside (body : Body) (w : Wdata) : Prop :=
  ETH_HEADER_LEN ≤ w.currentLength.toNat ∧
  (¬ IsTag w.current.ethType →
    NetworkInside body w.ipWdataCnt w.current.ethType (w.current.skip ETH_HEADER_LEN)
      (w.currentLength.toNat - ETH_HEADER_LEN)) ∧
  (IsTag w.current.ethType → ∀ tags type,
    TagStack (w.current.skip ETH_HEADER_LEN) tags type →
    VLAN_HEADER_LEN * tags < w.currentLength.toNat - ETH_HEADER_LEN →
    NetworkInside body w.ipWdataCnt type
      ((w.current.skip ETH_HEADER_LEN).skip (VLAN_HEADER_LEN * tags))
      (w.currentLength.toNat - ETH_HEADER_LEN - VLAN_HEADER_LEN * tags))

/-! ## TCP and UDP -/

/-- A header length in words of four bytes. -/
theorem words_toNat (n : UInt8) : (n.toUInt16 <<< 2).toNat = 4 * n.toNat := by
  have hlt := UInt8.toNat_lt n
  simp only [UInt16.toNat_shiftLeft, UInt8.toNat_toUInt16, UInt16.reduceToNat, Nat.shiftLeft_eq,
    Nat.reduceMod, Nat.reducePow]
  omega

theorem sfTcpDecode_inside (d : Decoding) :
    (sfTcpDecode d).Inside ↔
      d.Inside ∧ TcpInside d.wdata.current d.wdata.currentLength.toNat := by
  have hwords := words_toNat d.wdata.current.tcpHdrLen
  rw [sfTcpDecode, TcpInside]
  split
  next hshort =>
    rw [Decoding.read_wdata, UInt16.lt_iff_toNat_lt, hwords] at hshort
    rw [Decoding.inside_update, Decoding.inside_read]
    constructor
    · exact fun h => ⟨h.1, h.2, fun hle => absurd hle (Nat.not_le_of_lt hshort)⟩
    · exact fun h => ⟨h.1, h.2.1⟩
  next hlong =>
    rw [Decoding.read_wdata, UInt16.lt_iff_toNat_lt, hwords] at hlong
    simp only [Decoding.inside_advance, Decoding.inside_update, Decoding.inside_read,
      Decoding.read_wdata, Decoding.update_wdata, Wdata.updateL4, hwords, TCP_HEADER_LEN]
    constructor
    · rintro ⟨⟨⟨⟨hd, hread⟩, _⟩, _⟩, _, hfixed⟩
      exact ⟨hd, hread, fun _ => by omega⟩
    · rintro ⟨hd, hread, hfixed⟩
      have hfive := hfixed (Nat.le_of_not_lt hlong)
      exact ⟨⟨⟨⟨hd, hread⟩, by omega⟩, by omega⟩, by omega, by omega⟩

theorem udpInput_inside (d : Decoding) : (udpInput d).Inside ↔ d.Inside := by
  rw [udpInput]
  split
  next hlong =>
    rw [UInt16.le_iff_toNat_le] at hlong
    have height : 8 ≤ d.wdata.currentLength.toNat := hlong
    simp only [Decoding.inside_advance, Decoding.inside_update, Decoding.inside_read,
      Decoding.read_wdata, Decoding.update_wdata, Wdata.updateL4, UDP_HEADER_LEN,
      UInt16.reduceToNat]
    exact ⟨fun h => h.1.1.1, fun h => ⟨⟨⟨h, by omega⟩, by omega⟩, height, Nat.le_refl _⟩⟩
  next => exact Decoding.inside_update ..

/-- Only TCP asks for more. -/
theorem decodeL4_inside (d : Decoding) (protocol : UInt8) :
    (decodeL4 d (ipNextIndex protocol)).Inside ↔
      d.Inside ∧ (protocol = IP_PRO_TCP →
        TcpInside d.wdata.current d.wdata.currentLength.toNat) := by
  rw [ipNextIndex]
  split
  next hudp =>
    have hne : protocol ≠ IP_PRO_TCP := hudp ▸ by decide
    exact (udpInput_inside d).trans ⟨fun h => ⟨h, fun htcp => absurd htcp hne⟩, fun h => h.1⟩
  next =>
    split
    next htcp =>
      rw [htcp]
      exact (sfTcpDecode_inside d).trans
        ⟨fun h => ⟨h.1, fun _ => h.2⟩, fun h => ⟨h.1, h.2 rfl⟩⟩
    next htcp => exact ⟨fun h => ⟨h, fun heq => absurd heq htcp⟩, fun h => h.1⟩

/-- The transport header is what an IP node has advanced to. -/
theorem advance_l4_inside (d : Decoding) (l : UInt16) (fixed : Nat) (protocol : UInt8) :
    (decodeL4 (d.advance l fixed) (ipNextIndex protocol)).Inside ↔
      (d.Inside ∧ l.toNat ≤ d.wdata.currentLength.toNat ∧ fixed ≤ l.toNat) ∧
        (protocol = IP_PRO_TCP → TcpInside (d.wdata.current.skip l.toNat)
          (d.wdata.currentLength.toNat - l.toNat)) := by
  rw [decodeL4_inside, Decoding.inside_advance]
  apply and_congr_right
  intro h
  rw [← Wdata.advance_length h.2.1]
  exact Iff.rfl

/-! ## IPv4 -/

/-- Protocol 0 goes to the same node as the protocols without a decoder. -/
theorem ip4_next (protocol : UInt8) :
    (if protocol ≠ 0 then ipNextIndex protocol else NextNode.aclEntry) = ipNextIndex protocol := by
  split
  next => rfl
  next hzero =>
    rw [Decidable.not_not.mp hzero]
    rfl

/-- There is room for one IP header. -/
theorem maxIpWdata_le (ipWdataCnt : UInt8) : MAX_IP_WDATA ≤ ipWdataCnt ↔ ipWdataCnt ≠ 0 := by
  rw [UInt8.le_iff_toNat_le, Ne, ← UInt8.toNat_inj]
  exact Nat.one_le_iff_ne_zero

theorem ip4Input_inside (d : Decoding) :
    (decodeL4 (ip4Input d).1 (ip4Input d).2).Inside ↔
      d.Inside ∧
        Ip4Inside d.wdata.ipWdataCnt d.wdata.current d.wdata.currentLength.toNat := by
  have hwords := words_toNat d.wdata.current.ip4HeaderLen
  have hcnt := maxIpWdata_le d.wdata.ipWdataCnt
  rw [ip4Input, Ip4Inside]
  split
  next hmany =>
    rw [Decoding.read_wdata, hcnt] at hmany
    show (d.read 0 1).Inside ↔ _
    rw [Decoding.inside_read]
    exact ⟨fun h => ⟨h.1, h.2, fun hzero => absurd hzero hmany⟩, fun h => ⟨h.1, h.2.1⟩⟩
  next hone =>
    rw [Decoding.read_wdata, hcnt, Ne, Decidable.not_not] at hone
    split
    next hshort =>
      rw [Decoding.read_wdata, UInt16.lt_iff_toNat_lt, hwords] at hshort
      show ((d.read 0 1).update _).Inside ↔ _
      rw [Decoding.inside_update, Decoding.inside_read]
      exact ⟨fun h => ⟨h.1, h.2, fun _ hle => absurd hle (Nat.not_le_of_lt hshort)⟩,
        fun h => ⟨h.1, h.2.1⟩⟩
    next hlong =>
      rw [Decoding.read_wdata, UInt16.lt_iff_toNat_lt, hwords, Nat.not_lt] at hlong
      split
      next hfrag =>
        show (Decoding.update _ _).Inside ↔ _
        simp only [Decoding.inside_update, Decoding.inside_read, Decoding.read_wdata]
        constructor
        · rintro ⟨⟨⟨⟨⟨⟨hd, hread⟩, _⟩, hdst⟩, _⟩, _⟩, _⟩
          exact ⟨hd, hread, fun _ _ => ⟨hdst, fun hno => absurd (hfrag.symm.trans hno) (by simp)⟩⟩
        · rintro ⟨hd, hread, hrest⟩
          have hfixed := (hrest hone hlong).1
          exact ⟨⟨⟨⟨⟨⟨hd, hread⟩, by omega⟩, by omega⟩, by omega⟩, by omega⟩, by omega⟩
      next hwhole =>
        rw [Bool.not_eq_true] at hwhole
        simp only [ip4_next, advance_l4_inside, Decoding.inside_update, Decoding.inside_read,
          Decoding.read_wdata, Decoding.update_wdata, Wdata.updateIp, hwords, IPV4_HEADER_LEN]
        constructor
        · rintro ⟨⟨⟨⟨⟨⟨⟨⟨hd, hread⟩, _⟩, hdst⟩, _⟩, _⟩, _⟩, _, hfixed⟩, htcp⟩
          exact ⟨hd, hread, fun _ _ => ⟨hdst, fun _ => ⟨by omega, htcp⟩⟩⟩
        · rintro ⟨hd, hread, hrest⟩
          obtain ⟨hfixed, hmore⟩ := hrest hone hlong
          obtain ⟨hfive, htcp⟩ := hmore hwhole
          exact ⟨⟨⟨⟨⟨⟨⟨⟨hd, hread⟩, by omega⟩, by omega⟩, by omega⟩, by omega⟩, by omega⟩,
            hlong, by omega⟩, htcp⟩

/-! ## IPv6 -/

theorem not_isExt_frag : ¬ IsExt IP_PRO_IPV6_FRAG := by decide

/-- No extension header is shorter than eight bytes. -/
theorem eight_le_extensionLen {kind : UInt8} {hdr : Bytes} {n : Nat}
    (h : extensionLen kind hdr = some n) : 8 ≤ n := by
  by_cases hfrag : kind = IP_PRO_IPV6_FRAG
  · rw [hfrag] at h
    exact Nat.le_of_eq (Option.some.inj h)
  · by_cases hext : IsExt kind
    · rw [extensionLen_ext hfrag hext] at h
      exact Option.some.inj h ▸ extHdrLen_pos ..
    · rw [extensionLen_none hfrag hext] at h
      exact absurd h (by simp)

/-- Where the chain ends nothing is asked for. -/
theorem extInside_of_none {p : Bytes} {kind : UInt8} {o len : Nat}
    (hnone : extensionLen kind (p.skip o) = none) (hext : ¬ IsExt kind) :
    ExtInside p kind o len := by
  intro kind' o' hchain hkind _
  cases hchain with
  | here => exact absurd hkind hext
  | next hlen => exact absurd (hlen.symm.trans hnone) (by simp)

/-- Nor is it behind a real fragment. -/
theorem extInside_of_fragment {p : Bytes} {o len : Nat} (hfrag : Fragmenting (p.skip o)) :
    ExtInside p IP_PRO_IPV6_FRAG o len := by
  intro kind' o' hchain hkind _
  cases hchain with
  | here => exact absurd hkind not_isExt_frag
  | next _ hwhole => exact absurd ⟨rfl, hfrag⟩ hwhole

/-- Of a header that ends with the packet or behind it only its own length field is read. -/
theorem extInside_of_le {p : Bytes} {kind : UInt8} {o n len : Nat}
    (hlen : extensionLen kind (p.skip o) = some n) (hle : len ≤ o + n) :
    ExtInside p kind o len ↔ (IsExt kind → o + 2 ≤ len) := by
  constructor
  · exact fun h hkind => h kind o (.here ..) hkind (.inl rfl)
  · intro h kind' o' hchain hkind hreached
    cases hchain with
    | here => exact h hkind
    | next hlen' _ hrest =>
        obtain rfl := Option.some.inj (hlen.symm.trans hlen')
        have hpos := eight_le_extensionLen hlen
        have hbehind := hrest.le
        omega

/-- A header in front of the end is fine, and the others are behind it. -/
theorem extInside_of_lt {p : Bytes} {kind : UInt8} {o n len : Nat}
    (hlen : extensionLen kind (p.skip o) = some n)
    (hwhole : ¬ (kind = IP_PRO_IPV6_FRAG ∧ Fragmenting (p.skip o))) (hlt : o + n < len) :
    ExtInside p kind o len ↔ ExtInside p (p o) (o + n) len := by
  have hpos := eight_le_extensionLen hlen
  constructor
  · intro h kind' o' hchain hkind hreached
    exact h kind' o' (.next hlen hwhole hchain) hkind (.inr (by omega))
  · intro h kind' o' hchain hkind hreached
    cases hchain with
    | here => omega
    | next hlen' _ hrest =>
        obtain rfl := Option.some.inj (hlen.symm.trans hlen')
        have hbehind := hrest.le
        exact h kind' o' hrest hkind (.inr (by omega))

/-- The walk changes nothing. -/
theorem ip6Loop_wdata (d : Decoding) (w : Ip6Walk) : (ip6Loop d w).1.wdata = d.wdata := by
  fun_induction ip6Loop d w with
  | case1 => rfl
  | case2 => rfl
  | case3 d w hdr hfrag hlength d' w' hgo ih => exact ih
  | case4 => rfl
  | case5 d w hdr hfrag hext d' hlength ih => exact ih
  | case6 => rfl

theorem ip6Loop_inside {d : Decoding} {w : Ip6Walk} (hat : w.At d.wdata.currentLength.toNat) :
    (ip6Loop d w).1.Inside ↔ d.Inside ∧
      ExtInside d.wdata.current w.protocol w.preData d.wdata.currentLength.toNat := by
  fun_induction ip6Loop d w with
  | case1 d w hfrag hlength =>
      have hext := extInside_of_le (hfrag ▸ extensionLen_frag (d.wdata.current.skip w.preData))
        (hat.le (l := 8) hlength)
      have hnot : ¬ IsExt w.protocol := hfrag ▸ not_isExt_frag
      exact ⟨fun h => ⟨h, hext.mpr fun hkind => absurd hkind hnot⟩, fun h => h.1⟩
  | case2 d w hdr hfrag hlength d' w' hstop =>
      have hlt : w.preData + 8 < _ := hat.lt (l := 8) hlength
      rw [hfrag, Decoding.inside_read, Decoding.inside_read, Decoding.read_wdata]
      constructor
      · exact fun h => ⟨h.1.1, extInside_of_fragment hstop⟩
      · exact fun h => ⟨⟨h.1, by omega⟩, by omega⟩
  | case3 d w hdr hfrag hlength d' w' hgo ih =>
      have hlt : w.preData + 8 < _ := hat.lt (l := 8) hlength
      have hext := extInside_of_lt (hfrag ▸ extensionLen_frag hdr) (fun h => hgo h.2) hlt
      rw [ih (hat.over (hdr 0) (l := 8) hlength), Decoding.inside_read,
        Decoding.inside_read, Decoding.read_wdata, hext]
      constructor
      · exact fun h => ⟨h.1.1.1, h.2⟩
      · exact fun h => ⟨⟨⟨h.1, by omega⟩, by omega⟩, h.2⟩
  | case4 d w hdr hfrag hext d' hlength =>
      rw [extInside_of_le (extensionLen_ext hfrag hext hdr) (hat.le hlength),
        Decoding.inside_read]
      exact ⟨fun h => ⟨h.1, fun _ => h.2⟩, fun h => ⟨h.1, h.2 hext⟩⟩
  | case5 d w hdr hfrag hext d' hlength ih =>
      have hlt := hat.lt hlength
      have hpos := extHdrLen_pos w.protocol (hdr 1)
      rw [extInside_of_lt (extensionLen_ext hfrag hext hdr) (fun h => hfrag h.1) hlt,
        ih (hat.over (hdr 0) hlength), Decoding.inside_read]
      constructor
      · exact fun h => ⟨h.1.1, h.2⟩
      · exact fun h => ⟨⟨h.1, by omega⟩, h.2⟩
  | case6 d w hfrag hext =>
      exact ⟨fun h => ⟨h, extInside_of_none (extensionLen_none hfrag hext _) hext⟩, fun h => h.1⟩

/-- Parsing the headers moves and counts nothing. -/
theorem parseIpv6Hdr_wdata (d : Decoding) :
    (parseIpv6Hdr d).1.wdata.current = d.wdata.current ∧
      (parseIpv6Hdr d).1.wdata.currentLength = d.wdata.currentLength ∧
      (parseIpv6Hdr d).1.wdata.ipWdataCnt = d.wdata.ipWdataCnt := by
  rw [parseIpv6Hdr]
  split
  next => exact ⟨rfl, rfl, rfl⟩
  next =>
    have hloop := ip6Loop_wdata (d.read 6 1) ⟨d.wdata.current.ip6NextHeader, IPV6_HEADER_LEN,
      d.wdata.currentLength - 40, 40, false⟩
    have hcurrent := congrArg Wdata.current hloop
    have hlength := congrArg Wdata.currentLength hloop
    have hcnt := congrArg Wdata.ipWdataCnt hloop
    show (if _ then _ else _ : Decoding).wdata.current = _ ∧
      (if _ then _ else _ : Decoding).wdata.currentLength = _ ∧
      (if _ then _ else _ : Decoding).wdata.ipWdataCnt = _
    split
    · exact ⟨hcurrent, hlength, hcnt⟩
    · exact ⟨hcurrent, hlength, hcnt⟩

theorem parseIpv6Hdr_short {d : Decoding} (h : ¬ IPV6_HEADER_LEN ≤ d.wdata.currentLength.toNat) :
    parseIpv6Hdr d =
      (d.update (·.setError), ⟨IP_PRO_INVALID, 0, d.wdata.currentLength, 0, false⟩) := by
  have hshort : d.wdata.currentLength < 40 := by
    rw [UInt16.lt_iff_toNat_lt]
    exact Nat.lt_of_not_le h
  rw [parseIpv6Hdr, if_pos hshort]

theorem parseIpv6Hdr_inside {d : Decoding} (h : IPV6_HEADER_LEN ≤ d.wdata.currentLength.toNat) :
    (parseIpv6Hdr d).1.Inside ↔ d.Inside ∧
      ExtInside d.wdata.current d.wdata.current.ip6NextHeader IPV6_HEADER_LEN
        d.wdata.currentLength.toNat := by
  have hlong : ¬ d.wdata.currentLength < 40 := by
    rw [UInt16.lt_iff_toNat_lt]
    exact Nat.not_lt_of_le h
  have hloop := ip6Loop_inside (d := d.read 6 1)
    (Ip6Walk.at_start h d.wdata.current.ip6NextHeader)
  rw [Decoding.inside_read, Decoding.read_wdata] at hloop
  have hfixed : 6 + 1 ≤ d.wdata.currentLength.toNat := Nat.le_trans (by decide) h
  have hparse : (parseIpv6Hdr d).1.Inside ↔ (ip6Loop (d.read 6 1)
      ⟨d.wdata.current.ip6NextHeader, IPV6_HEADER_LEN, d.wdata.currentLength - 40, 40,
        false⟩).1.Inside := by
    rw [parseIpv6Hdr, if_neg hlong]
    show (if _ then _ else _ : Decoding).Inside ↔ _
    split
    · exact Decoding.inside_update ..
    · exact Iff.rfl
  rw [hparse, hloop]
  exact ⟨fun h => ⟨h.1.1, h.2⟩, fun h => ⟨⟨h.1, hfixed⟩, h.2⟩⟩

/-- The TCP header that is reached is where the chain ends. -/
theorem tcp_reached {d : Decoding} (h : IPV6_HEADER_LEN ≤ d.wdata.currentLength.toNat)
    (P : Nat → Prop) :
    (∀ hdrLen, ChainEnd d.wdata.current d.wdata.current.ip6NextHeader IPV6_HEADER_LEN
        IP_PRO_TCP hdrLen false →
      hdrLen = IPV6_HEADER_LEN ∨ hdrLen < d.wdata.currentLength.toNat → P hdrLen) ↔
    ((parseIpv6Hdr d).2.protocol = IP_PRO_TCP → (parseIpv6Hdr d).2.isFrag = false →
      P (parseIpv6Hdr d).2.hdrLen.toNat) := by
  constructor
  · intro hall htcp hwhole
    obtain ⟨hinvalid, _⟩ | ⟨hend, hreached⟩ := parseIpv6Hdr_ends h
    · exact absurd (htcp.symm.trans hinvalid) (by decide)
    · rw [htcp, hwhole] at hend
      exact hall _ hend hreached
  · intro hone hdrLen hend hreached
    obtain ⟨htcp, hlen, hwhole⟩ := (parseIpv6Hdr_exact d h).accepts _ _ _ hend hreached
    exact hlen ▸ hone htcp hwhole

/-- What is read of every packet: its payload length, and its headers unless it is too short. -/
theorem walked_inside (d : Decoding) :
    ((parseIpv6Hdr d).1.read 4 2).Inside ↔
      d.Inside ∧ 6 ≤ d.wdata.currentLength.toNat ∧
        (IPV6_HEADER_LEN ≤ d.wdata.currentLength.toNat →
          ExtInside d.wdata.current d.wdata.current.ip6NextHeader IPV6_HEADER_LEN
            d.wdata.currentLength.toNat) := by
  rw [Decoding.inside_read, (parseIpv6Hdr_wdata d).2.1]
  by_cases hlong : IPV6_HEADER_LEN ≤ d.wdata.currentLength.toNat
  · rw [parseIpv6Hdr_inside hlong, imp_iff_right hlong]
    exact ⟨fun h => ⟨h.1.1, h.2, h.1.2⟩, fun h => ⟨⟨h.1, h.2.2⟩, h.2.1⟩⟩
  · rw [parseIpv6Hdr_short hlong, Decoding.inside_update]
    exact ⟨fun h => ⟨h.1, h.2, fun hle => absurd hle hlong⟩, fun h => ⟨h.1, h.2.1⟩⟩

theorem ip6InputPair_inside (d : Decoding) {body : Body} {ipWdataCnt : UInt8}
    (hgoesOn : GoesOn body ipWdataCnt) :
    (decodeL4 (ip6InputPair d).1 (ip6InputPair d).2).Inside ↔
      d.Inside ∧ Ip6Inside body ipWdataCnt d.wdata.current d.wdata.currentLength.toNat := by
  obtain ⟨hcurrent, hlength, -⟩ := parseIpv6Hdr_wdata d
  have hwalked := walked_inside d
  by_cases hlong : IPV6_HEADER_LEN ≤ d.wdata.currentLength.toNat
  · have hforty : 40 ≤ d.wdata.currentLength.toNat := hlong
    rw [imp_iff_right hlong] at hwalked
    rw [ip6InputPair, Ip6Inside, imp_iff_right hlong, imp_iff_right hgoesOn, tcp_reached hlong]
    split
    next hinvalid =>
      show (Decoding.read _ _ _).Inside ↔ _
      rw [hwalked]
      constructor
      · rintro ⟨hd, hsix, hext⟩
        exact ⟨hd, hsix, hext, fun htcp => absurd (htcp.symm.trans hinvalid) (by decide)⟩
      · rintro ⟨hd, hsix, hext, _⟩
        exact ⟨hd, hsix, hext⟩
    next hvalid =>
      rw [ip6Decoded]
      split
      next hfrag =>
        show (Decoding.update _ _).Inside ↔ _
        rw [Decoding.inside_update, Decoding.inside_read, Decoding.inside_read, hwalked]
        simp only [Decoding.read_wdata, hlength]
        constructor
        · rintro ⟨⟨⟨hd, hsix, hext⟩, _⟩, _⟩
          exact ⟨hd, hsix, hext, fun _ hwhole => absurd (hfrag.symm.trans hwhole) (by simp)⟩
        · rintro ⟨hd, hsix, hext, _⟩
          exact ⟨⟨⟨hd, hsix, hext⟩, by omega⟩, by omega⟩
      next hwhole =>
        rw [Bool.not_eq_true] at hwhole
        have hend := (parseIpv6Hdr_exact d hlong).ends hvalid
        have hstart : 40 ≤ _ := hend.1.start_le
        rw [advance_l4_inside, Decoding.inside_update, Decoding.inside_read, Decoding.inside_read,
          hwalked]
        simp only [Decoding.read_wdata, Decoding.update_wdata, Wdata.updateIp, hlength, hcurrent]
        constructor
        · rintro ⟨⟨⟨⟨⟨hd, hsix, hext⟩, _⟩, _⟩, _⟩, htcp⟩
          exact ⟨hd, hsix, hext, fun hproto _ => htcp hproto⟩
        · rintro ⟨hd, hsix, hext, htcp⟩
          exact ⟨⟨⟨⟨⟨hd, hsix, hext⟩, by omega⟩, by omega⟩, hend.2, hstart⟩,
            fun hproto => htcp hproto hwhole⟩
  · rw [ip6InputPair, Ip6Inside, parseIpv6Hdr_short hlong]
    rw [parseIpv6Hdr_short hlong] at hwalked
    exact hwalked.trans ⟨fun h => ⟨h.1, h.2.1, fun hle => absurd hle hlong⟩,
      fun h => ⟨h.1, h.2.1, fun hle => absurd hle hlong⟩⟩

/-- An error that is set already. -/
theorem Wdata.setError_eq {w : Wdata} (h : w.packetError = true) : w.setError = w := by
  cases w
  cases h
  rfl

/-- The loops agree on a packet without an IP header so far. -/
theorem ip6InputSingle_eq {d : Decoding} (h : d.wdata.ipWdataCnt = 0) :
    ip6InputSingle d = ip6InputPair d := by
  have hcnt : ¬ MAX_IP_WDATA ≤ ((parseIpv6Hdr d).1.read 4 2).wdata.ipWdataCnt := by
    rw [Decoding.read_wdata, (parseIpv6Hdr_wdata d).2.2, h]
    decide
  rw [ip6InputSingle, if_neg hcnt, ip6InputPair]
  split
  next hinvalid =>
    have herror : ((parseIpv6Hdr d).1.read 4 2).wdata.packetError = true :=
      parseIpv6Hdr_error hinvalid
    rw [Decoding.update, Wdata.setError_eq herror]
  next => rfl

theorem ip6Input_inside (body : Body) (d : Decoding) :
    (decodeL4 (ip6Input body d).1 (ip6Input body d).2).Inside ↔
      d.Inside ∧ Ip6Inside body d.wdata.ipWdataCnt d.wdata.current
        d.wdata.currentLength.toNat := by
  cases body with
  | pair => exact ip6InputPair_inside d (.inl rfl)
  | single =>
      by_cases hfirst : d.wdata.ipWdataCnt = 0
      · rw [ip6Input, ip6InputSingle_eq hfirst]
        exact ip6InputPair_inside d (.inr hfirst)
      · have hcnt : MAX_IP_WDATA ≤ ((parseIpv6Hdr d).1.read 4 2).wdata.ipWdataCnt := by
          rw [Decoding.read_wdata, (parseIpv6Hdr_wdata d).2.2]
          exact (maxIpWdata_le _).mpr hfirst
        have hstays : ¬ GoesOn .single d.wdata.ipWdataCnt := fun h => by
          rcases h with h | h
          · cases h
          · exact hfirst h
        rw [ip6Input, ip6InputSingle, if_pos hcnt, Ip6Inside]
        show (Decoding.read _ _ _).Inside ↔ _
        rw [walked_inside d]
        exact and_congr_right fun _ => and_congr_right fun _ => imp_congr_right fun _ =>
          (and_iff_left fun h => absurd h hstays).symm

/-! ## The frame -/

theorem decodeL3_inside (body : Body) (d : Decoding) (ethType : UInt16) :
    (decodeL3 body d (sfEthGetNextIndex ethType)).Inside ↔
      d.Inside ∧ NetworkInside body d.wdata.ipWdataCnt ethType d.wdata.current
        d.wdata.currentLength.toNat := by
  rw [sfEthGetNextIndex, NetworkInside]
  split
  next hip4 =>
    have hne : ethType ≠ ETHER_IPV6_NET_ORDER := hip4 ▸ by decide
    exact (ip4Input_inside d).trans
      ⟨fun h => ⟨h.1, fun _ => h.2, fun hip6 => absurd hip6 hne⟩, fun h => ⟨h.1, h.2.1 hip4⟩⟩
  next hip4 =>
    split
    next hip6 =>
      exact (ip6Input_inside body d).trans
        ⟨fun h => ⟨h.1, fun heq => absurd heq hip4, fun _ => h.2⟩, fun h => ⟨h.1, h.2.2 hip6⟩⟩
    next hip6 =>
      exact ⟨fun h => ⟨h, fun heq => absurd heq hip4, fun heq => absurd heq hip6⟩, fun h => h.1⟩

/-- A frame that ends in its tags has no type that is decoded. -/
theorem networkInside_invalid (body : Body) (ipWdataCnt : UInt8) (p : Bytes) (len : Nat) :
    NetworkInside body ipWdataCnt ETHER_INVALID_TYPE p len :=
  ⟨fun h => absurd h (by decide), fun h => absurd h (by decide)⟩

/-- Behind the tags. -/
theorem tagged_inside (body : Body) (d : Decoding) :
    (decodeL3 body (parseVlanHdrOnly d).2 (sfEthGetNextIndex (parseVlanHdrOnly d).1)).Inside ↔
      d.Inside ∧ ∀ tags type, TagStack d.wdata.current tags type →
        VLAN_HEADER_LEN * tags < d.wdata.currentLength.toNat →
        NetworkInside body d.wdata.ipWdataCnt type (d.wdata.current.skip (VLAN_HEADER_LEN * tags))
          (d.wdata.currentLength.toNat - VLAN_HEADER_LEN * tags) := by
  rw [decodeL3_inside, parseVlanHdrOnly_inside, parseVlanHdrOnly_ipWdataCnt]
  apply and_congr_right
  intro _
  by_cases hstack : ∃ tags type, TagStack d.wdata.current tags type ∧
      VLAN_HEADER_LEN * tags < d.wdata.currentLength.toNat
  · obtain ⟨tags, type, hstack, hfits⟩ := hstack
    obtain ⟨htype, hcrossed⟩ := parseVlanHdrOnly_crossed hstack hfits
    have hlength : (parseVlanHdrOnly d).2.wdata.currentLength.toNat =
        d.wdata.currentLength.toNat - VLAN_HEADER_LEN * tags := by
      rw [← hcrossed.length, Nat.add_sub_cancel]
    rw [htype, hcrossed.current, hlength]
    constructor
    · intro h tags' type' hstack' _
      obtain ⟨rfl, rfl⟩ := hstack.unique hstack'
      exact h
    · exact fun h => h tags type hstack hfits
  · have hended : (parseVlanHdrOnly d).1 = ETHER_INVALID_TYPE :=
      parseVlanHdrOnly_ended fun tags type h =>
        Nat.le_of_not_lt fun hfits => hstack ⟨tags, type, h, hfits⟩
    rw [hended]
    exact ⟨fun _ tags type h hfits => absurd ⟨tags, type, h, hfits⟩ hstack,
      fun _ => networkInside_invalid ..⟩

/-- Decoding stays in the packet if and only if every header that is reached is as long as the
decoder takes it to be. -/
theorem decodeFrame_inside_iff (body : Body) (w : Wdata) :
    (decodeFrame body w).Inside ↔ FrameInside body w := by
  have hether : (((⟨w, []⟩ : Decoding).read 12 2).advance 14 ETH_HEADER_LEN).Inside ↔
      ETH_HEADER_LEN ≤ w.currentLength.toNat := by
    rw [Decoding.inside_advance, Decoding.inside_read, Decoding.read_wdata]
    refine ⟨fun h => h.1.2, fun h => ⟨⟨fun _ hmem => absurd hmem (by simp), h⟩, h, ?_⟩⟩
    exact Nat.le_refl _
  have hlength : ETH_HEADER_LEN ≤ w.currentLength.toNat →
      (w.advance 14).currentLength.toNat = w.currentLength.toNat - ETH_HEADER_LEN :=
    fun hlong => Wdata.advance_length (l := 14) hlong
  rw [decodeFrame, ethInput, parseEthHdr, FrameInside]
  split
  next htag =>
    rw [tagged_inside, hether]
    apply and_congr_right
    intro hlong
    rw [← hlength hlong]
    exact ⟨fun h => ⟨fun hno => absurd htag hno, fun _ => h⟩, fun h => h.2 htag⟩
  next htag =>
    rw [decodeL3_inside, hether]
    apply and_congr_right
    intro hlong
    rw [← hlength hlong]
    exact ⟨fun h => ⟨fun _ => h, fun hyes => absurd hyes htag⟩, fun h => h.1 htag⟩

/-- An Ethernet frame with an IPv4 header and a TCP header of data offset 0. -/
def offsetFrame : Bytes := fun i =>
  if i = 12 then 8 else if i = 14 then 0x45 else if i = 23 then IP_PRO_TCP else 0

/-- The TCP header of this frame of 60 bytes is not left behind. -/
theorem offset_stays : ¬ (decodeFrame .single (Decoding.start offsetFrame 0 60).wdata).Inside := by
  decide

end Tapplet.Net
