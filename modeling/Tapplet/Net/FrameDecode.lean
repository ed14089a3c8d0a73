import Tapplet.Net.Stored

/-!
# Decoding a frame

The decoding nodes find in the bytes of a frame what the frame was made from, and leave it in the
metadata by which the packet is classified.
-/

namespace Tapplet.Net

/-! ## The window -/

/-- The window has moved by so many bytes. -/
structure Moved (w w' : Wdata) (n : Nat) : Prop where
  current : w'.current = w.current.skip n
  offset : w'.currentData = w.currentData + UInt16.ofNat n
  length : w'.currentLength.toNat + n = w.currentLength.toNat

theorem Moved.still {w w' : Wdata} (hcurrent : w'.current = w.current)
    (hoffset : w'.currentData = w.currentData) (hlength : w'.currentLength = w.currentLength) :
    Moved w w' 0 where
  current := hcurrent.trans (Bytes.skip_zero _).symm
  offset := hoffset.trans (UInt16.add_zero _).symm
  length := congrArg UInt16.toNat hlength

theorem Moved.trans {w w' w'' : Wdata} {m n : Nat} (h : Moved w w' m) (h' : Moved w' w'' n) :
    Moved w w'' (m + n) where
  current := by rw [h'.current, h.current, Bytes.skip_skip]
  offset := by rw [h'.offset, h.offset, UInt16.ofNat_add, UInt16.add_assoc]
  length := by
    have hlength := h.length
    have hlength' := h'.length
    omega

theorem Moved.advance {w : Wdata} {l : UInt16} (h : l.toNat ≤ w.currentLength.toNat) :
    Moved w (w.advance l) l.toNat where
  current := rfl
  offset := by
    rw [UInt16.ofNat_toNat]
    rfl
  length := by
    rw [Wdata.advance_length h]
    omega

/-- The window moves in metadata that has been written to. -/
theorem Moved.advance_of {w v : Wdata} {l : UInt16} {n : Nat} (h : Moved w v 0)
    (hl : l.toNat = n) (hlength : n ≤ w.currentLength.toNat) : Moved w (v.advance l) n := by
  subst hl
  have hv : v.currentLength.toNat = w.currentLength.toNat := h.length
  have hmoved := h.trans (.advance (hv.symm ▸ hlength))
  rwa [Nat.zero_add] at hmoved

theorem Crossed.moved {w w' : Wdata} {tags : Nat} (h : Crossed w w' tags) :
    Moved w w' (VLAN_HEADER_LEN * tags) := ⟨h.current, h.offset, h.length⟩

/-- What has been found of IP and above is as it was. -/
structure Kept (w w' : Wdata) : Prop where
  packetError : w'.packetError = w.packetError
  ipWdataCnt : w'.ipWdataCnt = w.ipWdataCnt
  ipWdata : w'.ipWdata = w.ipWdata
  l4Wdata : w'.l4Wdata = w.l4Wdata

theorem Kept.refl (w : Wdata) : Kept w w := ⟨rfl, rfl, rfl, rfl⟩

theorem Kept.trans {w w' w'' : Wdata} (h : Kept w w') (h' : Kept w' w'') : Kept w w'' where
  packetError := h'.packetError.trans h.packetError
  ipWdataCnt := h'.ipWdataCnt.trans h.ipWdataCnt
  ipWdata := h'.ipWdata.trans h.ipWdata
  l4Wdata := h'.l4Wdata.trans h.l4Wdata

theorem Kept.advance (w : Wdata) (l : UInt16) : Kept w (w.advance l) := ⟨rfl, rfl, rfl, rfl⟩

theorem vlanLoop_kept (d : Decoding) (layerCnt : UInt8) :
    Kept d.wdata (vlanLoop d layerCnt).2.wdata := by
  fun_induction vlanLoop d layerCnt with
  | case1 => exact .refl _
  | case2 => exact .advance _ _
  | case3 d layerCnt hlength d' htag ih => exact (Kept.advance _ _).trans ih

theorem parseVlanHdrOnly_kept (d : Decoding) : Kept d.wdata (parseVlanHdrOnly d).2.wdata := by
  have h := vlanLoop_kept d 0
  rw [parseVlanHdrOnly]
  split
  next hloop => rwa [hloop] at h
  next hloop =>
    rw [hloop] at h
    split
    · exact h.trans ⟨rfl, rfl, rfl, rfl⟩
    · exact h

/-! ## Ethernet -/

/-- The node of the header. -/
def Ip.inputNode : Ip → NextNode
  | .v4 _ => .ip4Input
  | .v6 _ => .ip6Input

theorem Ip.type_eq (ip : Ip) : ∃ a b, ip.type = [a, b] ∧ ¬ IsTag (loadType a b) ∧
    sfEthGetNextIndex (loadType a b) = ip.inputNode := by
  cases ip with
  | v4 =>
      have hnext : sfEthGetNextIndex (loadType 0x08 0x00) = .ip4Input := by decide
      exact ⟨_, _, rfl, by decide, hnext⟩
  | v6 =>
      have hnext : sfEthGetNextIndex (loadType 0x86 0xdd) = .ip6Input := by decide
      exact ⟨_, _, rfl, by decide, hnext⟩

variable {f : Frame} {w : Wdata}

theorem Frame.starts_stack (h : w.current.Starts f.bytes) :
    (w.current.skip 12).Starts (stackBytes f.ip.type f.tags) ∧
      (w.current.skip f.ipOffset).Starts
        (f.ip.bytes f.upper.protocol ++ (f.upper.bytes ++ f.payload)) := by
  have hoffset : (f.dmac.toList ++ f.smac.toList ++ stackBytes f.ip.type f.tags).length
      = f.ipOffset := by
    obtain ⟨a, b, htype, -⟩ := f.ip.type_eq
    simp only [List.length_append, Vector.length_toList, length_stackBytes, htype, ipOffset,
      ETH_HEADER_LEN, List.length_cons, List.length_nil]
    omega
  rw [bytes, List.append_assoc _ (f.ip.bytes _), Bytes.starts_append, hoffset,
    Bytes.starts_append] at h
  obtain ⟨⟨-, hstack⟩, hip⟩ := h
  rw [List.length_append, Vector.length_toList, Vector.length_toList] at hstack
  exact ⟨hstack, hip⟩

/-- The Ethernet node goes over the tags and finds the node of the IP header. -/
theorem ethInput_frame {log : List Access} (h : w.current.Starts f.bytes)
    (hlength : f.ipOffset < w.currentLength.toNat) :
    (ethInput ⟨w, log⟩).2 = f.ip.inputNode ∧
      Moved w (ethInput ⟨w, log⟩).1.wdata f.ipOffset ∧ Kept w (ethInput ⟨w, log⟩).1.wdata := by
  obtain ⟨a, b, htype, hnot, hnext⟩ := f.ip.type_eq
  have hstack := (f.starts_stack h).1
  rw [htype] at hstack
  rw [Frame.ipOffset, ETH_HEADER_LEN] at hlength
  have heth : Moved w (w.advance 14) ETH_HEADER_LEN := by
    apply Moved.advance (l := 14)
    show 14 ≤ w.currentLength.toNat
    omega
  rw [Frame.ipOffset]
  have hframe : (w.advance 14).currentLength.toNat + 14 = w.currentLength.toNat := heth.length
  cases htags : f.tags with
  | nil =>
      rw [htags] at hstack
      have hload : w.current.ethType = loadType a b := Bytes.u16_of_starts hstack
      rw [ethInput, parseEthHdr, hload, if_neg hnot]
      exact ⟨hnext, heth, .advance w 14⟩
  | cons t tags =>
      rw [htags] at hstack hlength
      have htag : IsTag w.current.ethType := by
        rw [stackBytes, List.append_assoc] at hstack
        exact Tag.isTag_of_starts hstack
      have htagStack := tagStack_of_starts hnot hstack
      rw [Bytes.skip_skip] at htagStack
      have hcrossed := parseVlanHdrOnly_crossed
        (d := ((Decoding.mk w log).read 12 2).advance 14 ETH_HEADER_LEN) htagStack (by
          show _ < (w.advance 14).currentLength.toNat
          rw [List.length_cons] at hlength
          omega)
      have hkept := parseVlanHdrOnly_kept
        (((Decoding.mk w log).read 12 2).advance 14 ETH_HEADER_LEN)
      rw [ethInput, parseEthHdr, if_pos htag]
      refine ⟨?_, heth.trans hcrossed.2.moved, (Kept.advance w 14).trans hkept⟩
      dsimp only
      rw [hcrossed.1]
      exact hnext

/-! ## What a frame says -/

def Ip.header : Ip → Acl.IpHeader
  | .v4 h => .v4 h.srcIp h.dstIp
  | .v6 h => .v6 h.srcIp h.dstIp

def Ip.headerLen (protocol : UInt8) : Ip → Nat
  | .v4 h => h.headerLen
  | .v6 h => IPV6_HEADER_LEN + (h.chain protocol).length

/-- The length of what is behind the header and the extension headers, as the header has it. -/
def Ip.payloadLen (protocol : UInt8) : Ip → UInt16
  | .v4 h => number16 h.totalLen - .ofNat h.headerLen
  | .v6 h => number16 h.payloadLen + 40 - .ofNat (IPV6_HEADER_LEN + (h.chain protocol).length)

/-- The transport header of a packet whose transport header is here. -/
def Upper.header (offset : UInt16) : Upper → Option Acl.L4Header
  | .udp srcPort dstPort _ => some ⟨offset, srcPort, dstPort, 8⟩
  | .tcp srcPort dstPort _ _ _ options _ =>
      some ⟨offset, srcPort, dstPort, .ofNat (20 + 4 * options.length)⟩
  | .other .. => none

/-- The packet with this header at this place. -/
def Ip.packet (ip : Ip) (protocol : UInt8) (offset : UInt16) (l4 : Option Acl.L4Header) :
    Acl.Packet where
  ip := ip.header
  offset
  protocol
  headerLen := .ofNat (ip.headerLen protocol)
  payloadLen := ip.payloadLen protocol
  isFrag := if ip.isFrag then 1 else 0
  l4

/-- The packet in a frame that begins here. A fragment has no transport header. -/
def Frame.packet (f : Frame) (start : UInt16) : Acl.Packet :=
  let offset := start + .ofNat f.ipOffset
  f.ip.packet f.upper.protocol offset
    (if f.ip.isFrag then none
      else f.upper.header (offset + .ofNat (f.ip.headerLen f.upper.protocol)))

/-! ## IPv4 -/

/-- The IPv4 header that is written is the one that is read. -/
structure Ip4.ReadFrom (h : Ip4) (protocol : UInt8) (p : Bytes) : Prop where
  headerLen : (p.ip4HeaderLen.toUInt16 <<< 2).toNat = h.headerLen
  totalLen : netToHost16 p.ip4TotalLen = number16 h.totalLen
  protocol : p.ip4Protocol = protocol
  srcIp : bytes32 p.ip4SrcIp = h.srcIp
  dstIp : bytes32 p.ip4DstIp = h.dstIp
  isFrag : p.ip4IsFrag = h.isFrag

theorem netToHost16_of_starts {p : Bytes} {i : Nat} {v : Vector UInt8 2}
    (h : (p.skip i).Starts v.toList) : netToHost16 (p.u16 i) = number16 v := by
  rw [toList_two] at h
  have hload : p.u16 i = loadType v[0] v[1] := Bytes.u16_of_starts h
  rw [hload, netToHost16_join, number16]

/-- The first byte has the version and the length in words. -/
theorem Ip4.headerLen_of_first {h : Ip4} {p : Bytes}
    (hfirst : p 0 = UInt8.ofNat (0x45 + h.options.length)) :
    (p.ip4HeaderLen.toUInt16 <<< 2).toNat = h.headerLen := by
  have hfew := h.few
  have hwords : p.ip4HeaderLen.toNat = 5 + h.options.length := by
    rw [Bytes.ip4HeaderLen, hfirst, UInt8.toNat_and, UInt8.toNat_ofNat']
    show (0x45 + h.options.length) % 2 ^ 8 &&& 2 ^ 4 - 1 = _
    rw [Nat.and_two_pow_sub_one_eq_mod]
    omega
  rw [words_toNat, hwords, headerLen]
  omega

theorem Ip4.readFrom_of_starts {h : Ip4} {protocol : UInt8} {p : Bytes}
    (hstarts : p.Starts (h.bytes protocol)) : h.ReadFrom protocol p := by
  simp only [bytes, toList_two h.fragment, Bytes.starts_append, List.length_append,
    Vector.length_toList, List.length_cons, List.length_nil, Bytes.starts_cons, Bytes.starts_nil,
    Bytes.skip_apply, Nat.reduceAdd, and_true] at hstarts
  obtain ⟨⟨⟨⟨⟨⟨⟨⟨⟨hfirst, -⟩, htotal⟩, -⟩, hhigh, hlow⟩, -, hprotocol⟩, -⟩, hsrc⟩, hdst⟩, -⟩ :=
    hstarts
  constructor
  · exact headerLen_of_first hfirst
  · exact netToHost16_of_starts htotal
  · exact hprotocol
  · rw [Bytes.ip4SrcIp, bytes32_u32, Bytes.load_of_starts hsrc]
  · rw [Bytes.ip4DstIp, bytes32_u32, Bytes.load_of_starts hdst]
  · rw [Bytes.ip4IsFrag, hhigh, hlow, isFrag]

/-- The metadata that the header is written to. -/
def Ip.ipWdata (ip : Ip) (protocol : UInt8) (offset : UInt16) : Acl.IpWdata :=
  ((ip.packet protocol offset none).wdata (.replicate 64 0)).ipWdata

/-- The node behind the IP header, also of a fragment. -/
def Ip.nextNode (protocol : UInt8) (ip : Ip) : NextNode :=
  if ip.isFrag then
    match ip with
    | .v4 _ => .ip4Reass
    | .v6 _ => .ip6Reass
  else ipNextIndex protocol

/-- A node of the IP header has found the header, and has left it behind unless it is that of a
fragment. -/
structure IpDecoded (ip : Ip) (protocol : UInt8) (w w' : Wdata) : Prop where
  moved : Moved w w' (if ip.isFrag then 0 else ip.headerLen protocol)
  packetError : w'.packetError = w.packetError
  l4Wdata : w'.l4Wdata = w.l4Wdata
  ipWdata : w'.ipWdata.stored = ip.ipWdata protocol w.currentData

/-- The header of a fragment is written, and that is all. -/
theorem IpDecoded.of_frag {ip : Ip} {protocol : UInt8} {w : Wdata} {found : IpWdata}
    (hfound : found.stored = ip.ipWdata protocol w.currentData) (hfrag : ip.isFrag = true) :
    IpDecoded ip protocol w (w.updateIp found) where
  moved := by
    rw [hfrag]
    exact .still rfl rfl rfl
  packetError := rfl
  l4Wdata := rfl
  ipWdata := hfound

theorem IpDecoded.of_whole {ip : Ip} {protocol : UInt8} {w : Wdata} {found : IpWdata} {l : UInt16}
    (hfound : found.stored = ip.ipWdata protocol w.currentData) (hfrag : ip.isFrag = false)
    (hheader : l.toNat = ip.headerLen protocol)
    (hlength : ip.headerLen protocol ≤ w.currentLength.toNat) :
    IpDecoded ip protocol w ((w.updateIp found).advance l) where
  moved := by
    rw [hfrag]
    exact .advance_of (.still rfl rfl rfl) hheader hlength
  packetError := rfl
  l4Wdata := rfl
  ipWdata := hfound

theorem ip4Input_frame {h : Ip4} {protocol : UInt8} {d : Decoding}
    (hstarts : d.wdata.current.Starts (h.bytes protocol))
    (hlength : h.headerLen ≤ d.wdata.currentLength.toNat) (hcnt : d.wdata.ipWdataCnt = 0) :
    (ip4Input d).2 = (Ip.v4 h).nextNode protocol ∧
      IpDecoded (.v4 h) protocol d.wdata (ip4Input d).1.wdata := by
  have hread := Ip4.readFrom_of_starts hstarts
  have hone : ¬ MAX_IP_WDATA ≤ d.wdata.ipWdataCnt := by
    rw [hcnt]
    decide
  have hlong : ¬ d.wdata.currentLength < d.wdata.current.ip4HeaderLen.toUInt16 <<< 2 := by
    rw [UInt16.lt_iff_toNat_lt, hread.headerLen]
    exact Nat.not_lt_of_le hlength
  have hheader : d.wdata.current.ip4HeaderLen.toUInt16 <<< 2 = .ofNat h.headerLen := by
    rw [← hread.headerLen, UInt16.ofNat_toNat]
  have hfound : IpWdata.stored
      { offset := d.wdata.currentData
        version := 4
        protocol := d.wdata.current.ip4Protocol
        headerLen := .ofNat h.headerLen
        payloadLen := netToHost16 d.wdata.current.ip4TotalLen - .ofNat h.headerLen
        sip := .v4 d.wdata.current.ip4SrcIp
        dip := .v4 d.wdata.current.ip4DstIp
        isFrag := d.wdata.current.ip4IsFrag } = (Ip.v4 h).ipWdata protocol d.wdata.currentData := by
    rw [IpWdata.stored, IpAddr.stored, IpAddr.stored, hread.protocol, hread.totalLen, hread.srcIp,
      hread.dstIp, hread.isFrag]
    rfl
  rw [ip4Input, Decoding.read_wdata, if_neg hone, if_neg hlong, ip4_next, hheader]
  cases hfrag : h.isFrag with
  | true =>
      rw [if_pos (hread.isFrag.trans hfrag)]
      exact ⟨(if_pos hfrag).symm, .of_frag hfound hfrag⟩
  | false =>
      rw [hread.protocol] at hfound
      rw [if_neg (by simp [hread.isFrag, hfrag]), hread.protocol]
      have hwrites : (UInt16.ofNat h.headerLen).toNat = h.headerLen := by
        rw [← hheader, hread.headerLen]
      exact ⟨(if_neg (by simp [Ip.isFrag, hfrag])).symm, .of_whole hfound hfrag hwrites hlength⟩

/-! ## IPv6 -/

/-- The IPv6 header that is written is the one that is read. -/
structure Ip6.ReadFrom (h : Ip6) (protocol : UInt8) (p : Bytes) : Prop where
  payloadLen : netToHost16 p.ip6PayloadLen = number16 h.payloadLen
  nextHeader : p.ip6NextHeader = h.nextHeader protocol
  srcIp : IpAddr.stored (.v6 p.ip6SrcIp.1 p.ip6SrcIp.2) = h.srcIp
  dstIp : IpAddr.stored (.v6 p.ip6DstIp.1 p.ip6DstIp.2) = h.dstIp
  chain : (p.skip IPV6_HEADER_LEN).Starts (h.chain protocol)

theorem stored_of_starts {p : Bytes} {i : Nat} {v : Vector UInt8 16}
    (h : (p.skip i).Starts v.toList) : IpAddr.stored (.v6 (p.u64 i) (p.u64 (i + 8))) = v := by
  rw [IpAddr.stored, bytes64_u64, bytes64_u64, ← Bytes.skip_skip]
  exact (Bytes.load_append _ 8 8).trans (Bytes.load_of_starts h)

theorem Ip6.readFrom_of_starts {h : Ip6} {protocol : UInt8} {p : Bytes}
    (hstarts : p.Starts (h.bytes protocol)) : h.ReadFrom protocol p := by
  simp only [bytes, Bytes.starts_append, List.length_append, Vector.length_toList,
    List.length_cons, List.length_nil, Bytes.starts_cons, Bytes.starts_nil, Bytes.skip_apply,
    Nat.reduceAdd, and_true] at hstarts
  obtain ⟨⟨⟨⟨⟨-, hpayload⟩, hnext, -⟩, hsrc⟩, hdst⟩, hchain⟩ := hstarts
  exact ⟨netToHost16_of_starts hpayload, hnext, stored_of_starts hsrc,
    stored_of_starts hdst, hchain⟩

/-- The headers that are accepted leave the metadata as it was. -/
theorem parseIpv6Hdr_kept {d : Decoding} (h : (parseIpv6Hdr d).2.protocol ≠ IP_PRO_INVALID) :
    (parseIpv6Hdr d).1.wdata = d.wdata := by
  rw [parseIpv6Hdr] at h ⊢
  split
  next hshort =>
    rw [if_pos hshort] at h
    exact absurd rfl h
  next hlong =>
    rw [if_neg hlong] at h
    dsimp only at h ⊢
    rw [if_neg h]
    exact ip6Loop_wdata ..

theorem Ip6.length_bytes (h : Ip6) (protocol : UInt8) :
    (h.bytes protocol).length = IPV6_HEADER_LEN + (h.chain protocol).length := by
  simp only [bytes, List.length_append, List.length_cons, List.length_nil, Vector.length_toList,
    IPV6_HEADER_LEN]

/-- The headers that are written are accepted. -/
theorem Ip6.accepted {h : Ip6} {protocol : UInt8} {d : Decoding} {content : List UInt8}
    (hstarts : d.wdata.current.Starts (h.bytes protocol))
    (hcarries : (Ip.v6 h).Carries content protocol)
    (hlength : (h.bytes protocol).length + content.length ≤ d.wdata.currentLength.toNat) :
    (parseIpv6Hdr d).2.protocol = protocol ∧
      (parseIpv6Hdr d).2.hdrLen.toNat = (Ip.v6 h).headerLen protocol ∧
      (parseIpv6Hdr d).2.isFrag = (Ip.v6 h).isFrag := by
  obtain ⟨-, hupper, hcontent⟩ := hcarries
  have hread := readFrom_of_starts hstarts
  have hend := h.chainEnd hupper hread.chain
  rw [← hread.nextHeader] at hend
  rw [length_bytes] at hlength
  have hfixed : 40 ≤ d.wdata.currentLength.toNat := by
    rw [IPV6_HEADER_LEN] at hlength
    omega
  apply (parseIpv6Hdr_exact d hfixed).accepts _ _ _ hend
  by_cases hchain : h.chain protocol = []
  · rw [hchain]
    exact .inl rfl
  · have hpos := List.length_pos_of_ne_nil (hcontent hchain)
    exact .inr (by omega)

theorem ip6InputPair_frame {h : Ip6} {protocol : UInt8} {d : Decoding} {content : List UInt8}
    (hstarts : d.wdata.current.Starts (h.bytes protocol))
    (hcarries : (Ip.v6 h).Carries content protocol)
    (hlength : (h.bytes protocol).length + content.length ≤ d.wdata.currentLength.toNat) :
    (ip6InputPair d).2 = (Ip.v6 h).nextNode protocol ∧
      IpDecoded (.v6 h) protocol d.wdata (ip6InputPair d).1.wdata := by
  have hread := Ip6.readFrom_of_starts hstarts
  obtain ⟨hprotocol, hhdrLen, hisFrag⟩ := Ip6.accepted hstarts hcarries hlength
  have hvalid : (parseIpv6Hdr d).2.protocol ≠ IP_PRO_INVALID := hprotocol.symm ▸ hcarries.1
  have hkept := parseIpv6Hdr_kept hvalid
  have hheader : (parseIpv6Hdr d).2.hdrLen = .ofNat ((Ip.v6 h).headerLen protocol) := by
    rw [← hhdrLen, UInt16.ofNat_toNat]
  have hfound : IpWdata.stored
      { offset := d.wdata.currentData
        version := 6
        protocol
        headerLen := (parseIpv6Hdr d).2.hdrLen
        payloadLen := netToHost16 d.wdata.current.ip6PayloadLen + 40 - (parseIpv6Hdr d).2.hdrLen
        sip := .v6 d.wdata.current.ip6SrcIp.1 d.wdata.current.ip6SrcIp.2
        dip := .v6 d.wdata.current.ip6DstIp.1 d.wdata.current.ip6DstIp.2
        isFrag := (parseIpv6Hdr d).2.isFrag } = (Ip.v6 h).ipWdata protocol d.wdata.currentData := by
    rw [IpWdata.stored, hread.srcIp, hread.dstIp, hread.payloadLen, hheader, hisFrag]
    rfl
  rw [ip6InputPair, if_neg hvalid, ip6Decoded, hprotocol]
  cases hfrag : (Ip.v6 h).isFrag with
  | true =>
      rw [if_pos (hisFrag.trans hfrag)]
      refine ⟨(if_pos hfrag).symm, ?_⟩
      simp only [Decoding.update_wdata, Decoding.read_wdata, hkept]
      exact .of_frag hfound hfrag
  | false =>
      rw [if_neg (by simp [hisFrag, hfrag])]
      refine ⟨(if_neg (by simp [hfrag])).symm, ?_⟩
      simp only [Decoding.advance_wdata, Decoding.update_wdata, Decoding.read_wdata, hkept]
      apply IpDecoded.of_whole hfound hfrag hhdrLen
      rw [Ip.headerLen, ← h.length_bytes]
      omega

/-- Either loop decodes the header, since it is the first. -/
theorem ip6Input_frame {h : Ip6} {protocol : UInt8} {d : Decoding} {content : List UInt8}
    (body : Body) (hstarts : d.wdata.current.Starts (h.bytes protocol))
    (hcarries : (Ip.v6 h).Carries content protocol)
    (hlength : (h.bytes protocol).length + content.length ≤ d.wdata.currentLength.toNat)
    (hcnt : d.wdata.ipWdataCnt = 0) :
    (ip6Input body d).2 = (Ip.v6 h).nextNode protocol ∧
      IpDecoded (.v6 h) protocol d.wdata (ip6Input body d).1.wdata := by
  have hpair := ip6InputPair_frame hstarts hcarries hlength
  cases body with
  | pair => exact hpair
  | single =>
      rw [ip6Input, ip6InputSingle_eq hcnt]
      exact hpair

/-! ## TCP and UDP -/

/-- The nodes of the transport header have found the ports. -/
structure UpperDecoded (u : Upper) (w w' : Wdata) : Prop where
  moved : Moved w w' u.headerLen
  packetError : w'.packetError = w.packetError
  ipWdata : w'.ipWdata = w.ipWdata
  l4Wdata : ∀ l4, u.header w.currentData = some l4 →
    w'.l4Wdata.stored = ⟨l4.offset, l4.srcPort, l4.dstPort, l4.headerLen⟩
  other : u.header w.currentData = none → w'.l4Wdata = w.l4Wdata

theorem bytes16_of_starts {p : Bytes} {i : Nat} {v : Vector UInt8 2}
    (h : (p.skip i).Starts v.toList) : bytes16 (p.u16 i) = v := by
  rw [bytes16_u16, Bytes.load_of_starts h]

theorem udpInput_frame {srcPort dstPort : Vector UInt8 2} {rest : Vector UInt8 4} {d : Decoding}
    (hstarts : d.wdata.current.Starts (Upper.udp srcPort dstPort rest).bytes)
    (hlength : 8 ≤ d.wdata.currentLength.toNat) :
    UpperDecoded (.udp srcPort dstPort rest) d.wdata (udpInput d).wdata := by
  simp only [Upper.bytes, Bytes.starts_append, Vector.length_toList] at hstarts
  obtain ⟨⟨hsrc, hdst⟩, -⟩ := hstarts
  have hlong : 8 ≤ d.wdata.currentLength := UInt16.le_iff_toNat_le.mpr hlength
  have hsrc : bytes16 d.wdata.current.srcPort = srcPort := by
    rw [← Bytes.skip_zero d.wdata.current] at hsrc
    exact bytes16_of_starts hsrc
  have hdst : bytes16 d.wdata.current.dstPort = dstPort := bytes16_of_starts hdst
  rw [udpInput, if_pos hlong]
  constructor
  · exact .advance_of (.still rfl rfl rfl) rfl hlength
  · rfl
  · rfl
  · intro l4 hl4
    obtain rfl := Option.some.inj hl4
    rw [← hsrc, ← hdst]
    rfl
  · intro hnone
    exact absurd hnone (by simp [Upper.header])


/-- The data offset is in words. -/
theorem tcpHdrLen_of_first {p : Bytes} {n : Nat} {reserved : Fin 16} (hfew : n ≤ 10)
    (hfirst : p 12 = UInt8.ofNat (16 * (5 + n) + reserved)) :
    p.tcpHdrLen.toUInt16 <<< 2 = .ofNat (20 + 4 * n) := by
  have hreserved := reserved.isLt
  have hwords : p.tcpHdrLen.toNat = 5 + n := by
    rw [Bytes.tcpHdrLen, hfirst, UInt8.toNat_shiftRight, UInt8.toNat_ofNat']
    show ((16 * (5 + n) + reserved) % 256) >>> 4 = _
    rw [Nat.shiftRight_eq_div_pow]
    omega
  rw [← UInt16.toNat_inj, words_toNat, hwords, UInt16.toNat_ofNat']
  omega

theorem sfTcpDecode_frame {srcPort dstPort : Vector UInt8 2} {numbers : Vector UInt8 8}
    {reserved : Fin 16} {rest : Vector UInt8 7} {options : List (Vector UInt8 4)}
    {few : options.length ≤ 10} {d : Decoding}
    (hstarts : d.wdata.current.Starts
      (Upper.tcp srcPort dstPort numbers reserved rest options few).bytes)
    (hlength : 20 + 4 * options.length ≤ d.wdata.currentLength.toNat) :
    UpperDecoded (.tcp srcPort dstPort numbers reserved rest options few) d.wdata
      (sfTcpDecode d).wdata := by
  simp only [Upper.bytes, Bytes.starts_append, List.length_append, Vector.length_toList,
    Bytes.starts_cons, Bytes.skip_apply, Nat.reduceAdd] at hstarts
  obtain ⟨⟨⟨⟨⟨hsrc, hdst⟩, -⟩, hfirst, -⟩, -⟩, -⟩ := hstarts
  have hsrc : bytes16 d.wdata.current.srcPort = srcPort := by
    rw [← Bytes.skip_zero d.wdata.current] at hsrc
    exact bytes16_of_starts hsrc
  have hdst : bytes16 d.wdata.current.dstPort = dstPort := bytes16_of_starts hdst
  have hheader := tcpHdrLen_of_first few hfirst
  have htoNat : (UInt16.ofNat (20 + 4 * options.length)).toNat = 20 + 4 * options.length := by
    rw [UInt16.toNat_ofNat']
    omega
  have hlong : ¬ d.wdata.currentLength < .ofNat (20 + 4 * options.length) := by
    rw [UInt16.lt_iff_toNat_lt, htoNat]
    exact Nat.not_lt_of_le hlength
  rw [sfTcpDecode, hheader, Decoding.read_wdata, if_neg hlong]
  constructor
  · exact .advance_of (.still rfl rfl rfl) htoNat hlength
  · rfl
  · rfl
  · intro l4 hl4
    obtain rfl := Option.some.inj hl4
    rw [← hsrc, ← hdst]
    rfl
  · intro hnone
    exact absurd hnone (by simp [Upper.header])

theorem decodeL4_frame {u : Upper} {d : Decoding} (hstarts : d.wdata.current.Starts u.bytes)
    (hlength : u.headerLen ≤ d.wdata.currentLength.toNat) :
    UpperDecoded u d.wdata (decodeL4 d (ipNextIndex u.protocol)).wdata := by
  cases u with
  | udp srcPort dstPort rest => exact udpInput_frame hstarts hlength
  | tcp srcPort dstPort numbers reserved rest options few => exact sfTcpDecode_frame hstarts hlength
  | other protocol isOther =>
      have hnext : ipNextIndex protocol = .aclEntry := by
        rw [ipNextIndex, if_neg isOther.1, if_neg isOther.2]
      rw [Upper.protocol, hnext]
      constructor
      · exact .still rfl rfl rfl
      · rfl
      · rfl
      · intro l4 hl4
        exact absurd hl4 (by simp [Upper.header])
      · exact fun _ => rfl

/-! ## The frame -/

theorem Ip.length_bytes (ip : Ip) (protocol : UInt8) :
    (ip.bytes protocol).length = ip.headerLen protocol := by
  cases ip with
  | v4 h => exact h.length_bytes protocol
  | v6 h => exact h.length_bytes protocol

/-- The node of the IP header. -/
def ipInput (body : Body) (d : Decoding) : Ip → Decoding × NextNode
  | .v4 _ => ip4Input d
  | .v6 _ => ip6Input body d

theorem ipInput_frame {ip : Ip} {protocol : UInt8} {d : Decoding} {content : List UInt8}
    (body : Body) (hstarts : d.wdata.current.Starts (ip.bytes protocol))
    (hcarries : ip.Carries content protocol)
    (hlength : ip.headerLen protocol + content.length ≤ d.wdata.currentLength.toNat)
    (hcnt : d.wdata.ipWdataCnt = 0) :
    (ipInput body d ip).2 = ip.nextNode protocol ∧
      IpDecoded ip protocol d.wdata (ipInput body d ip).1.wdata := by
  cases ip with
  | v4 h => exact ip4Input_frame hstarts (Nat.le_trans (Nat.le_add_right _ _) hlength) hcnt
  | v6 h =>
      rw [← Ip.length_bytes] at hlength
      exact ip6Input_frame body hstarts hcarries hlength hcnt

/-- The headers that are left behind. Of a fragment the IP header is not. -/
def Frame.headersLen (f : Frame) : Nat :=
  f.ipOffset + if f.ip.isFrag then 0 else f.ip.headerLen f.upper.protocol + f.upper.headerLen

theorem Ip.decodeL4_frag {ip : Ip} (hfrag : ip.isFrag = true) (d : Decoding) (protocol : UInt8) :
    decodeL4 d (ip.nextNode protocol) = d := by
  rw [Ip.nextNode.eq_def, if_pos hfrag]
  cases ip with
  | v4 => rfl
  | v6 => rfl

theorem Ip.decodeL3_inputNode (ip : Ip) (body : Body) (d : Decoding) :
    decodeL3 body d ip.inputNode = decodeL4 (ipInput body d ip).1 (ipInput body d ip).2 := by
  cases ip with
  | v4 => rfl
  | v6 => rfl

/-- The metadata of the packet is there, and the window has moved by so much. -/
structure DecodedTo (packet : Acl.Packet) (n : Nat) (w w' : Wdata) : Prop where
  stored : ∀ cachelineBytes, w'.stored cachelineBytes = packet.wdata cachelineBytes
  packetError : w'.packetError = w.packetError
  moved : Moved w w' n

theorem L4Wdata.stored_start :
    L4Wdata.stored ⟨0, 0, 0, 0⟩ = ⟨0, .replicate 2 0, .replicate 2 0, 0⟩ := by
  have hzero : bytes16 0 = .replicate 2 0 := by decide
  rw [stored, hzero]

theorem Ip.stored_none {ip : Ip} {protocol : UInt8} {offset : UInt16} {w : Wdata}
    (hip : w.ipWdata.stored = ip.ipWdata protocol offset) (hl4 : w.l4Wdata = ⟨0, 0, 0, 0⟩)
    (cachelineBytes : Vector UInt8 64) :
    w.stored cachelineBytes = (ip.packet protocol offset none).wdata cachelineBytes := by
  rw [Wdata.stored, hip, hl4, L4Wdata.stored_start]
  rfl

theorem Ip.stored_some {ip : Ip} {protocol : UInt8} {offset : UInt16} {w : Wdata}
    {l4 : Acl.L4Header} (hip : w.ipWdata.stored = ip.ipWdata protocol offset)
    (hl4 : w.l4Wdata.stored = ⟨l4.offset, l4.srcPort, l4.dstPort, l4.headerLen⟩)
    (cachelineBytes : Vector UInt8 64) :
    w.stored cachelineBytes = (ip.packet protocol offset (some l4)).wdata cachelineBytes := by
  rw [Wdata.stored, hip, hl4]
  rfl

theorem decodeL3_frame {f : Frame} (body : Body) {d : Decoding}
    (h : d.wdata.current.Starts
      (f.ip.bytes f.upper.protocol ++ (f.upper.bytes ++ f.payload)))
    (hlength : f.ip.headerLen f.upper.protocol + (f.upper.bytes ++ f.payload).length
      ≤ d.wdata.currentLength.toNat)
    (hcnt : d.wdata.ipWdataCnt = 0) (hl4 : d.wdata.l4Wdata = ⟨0, 0, 0, 0⟩) :
    DecodedTo
      (f.ip.packet f.upper.protocol d.wdata.currentData (if f.ip.isFrag then none
        else f.upper.header (d.wdata.currentData + .ofNat (f.ip.headerLen f.upper.protocol))))
      (if f.ip.isFrag then 0 else f.ip.headerLen f.upper.protocol + f.upper.headerLen)
      d.wdata (decodeL3 body d f.ip.inputNode).wdata := by
  rw [Bytes.starts_append, Ip.length_bytes, Bytes.starts_append] at h
  obtain ⟨hip, hupper, -⟩ := h
  obtain ⟨hnext, hdecoded⟩ := ipInput_frame body hip f.carries hlength hcnt
  have hnone := hdecoded.l4Wdata.trans hl4
  have hmoved := hdecoded.moved
  rw [f.ip.decodeL3_inputNode body, hnext]
  cases hfrag : f.ip.isFrag with
  | true =>
      rw [hfrag] at hmoved
      rw [Ip.decodeL4_frag hfrag, if_pos rfl, if_pos rfl]
      exact ⟨Ip.stored_none hdecoded.ipWdata hnone, hdecoded.packetError, hmoved⟩
  | false =>
      rw [hfrag, if_neg Bool.false_ne_true] at hmoved
      rw [← hmoved.current] at hupper
      have hleft := hmoved.length
      rw [List.length_append, Upper.length_bytes] at hlength
      have hl4 := decodeL4_frame (d := (ipInput body d f.ip).1) hupper (by omega)
      have hwhole : f.ip.nextNode f.upper.protocol = ipNextIndex f.upper.protocol := by
        rw [Ip.nextNode.eq_def, hfrag, if_neg Bool.false_ne_true]
      rw [hwhole, if_neg Bool.false_ne_true, if_neg Bool.false_ne_true, ← hmoved.offset]
      refine ⟨?_, hl4.packetError.trans hdecoded.packetError, hmoved.trans hl4.moved⟩
      have hstored := (congrArg IpWdata.stored hl4.ipWdata).trans hdecoded.ipWdata
      cases hheader : f.upper.header (ipInput body d f.ip).1.wdata.currentData with
      | none => exact Ip.stored_none hstored ((hl4.other hheader).trans hnone)
      | some l4 => exact Ip.stored_some hstored (hl4.l4Wdata l4 hheader)

theorem Frame.length_bytes (f : Frame) : f.bytes.length =
    f.ipOffset + (f.ip.headerLen f.upper.protocol + (f.upper.bytes ++ f.payload).length) := by
  obtain ⟨a, b, htype, -⟩ := f.ip.type_eq
  simp only [bytes, List.length_append, Vector.length_toList, length_stackBytes, Ip.length_bytes,
    htype, List.length_cons, List.length_nil, ipOffset, ETH_HEADER_LEN]
  omega

theorem Ip.headerLen_pos (ip : Ip) (protocol : UInt8) : 0 < ip.headerLen protocol := by
  cases ip with
  | v4 h =>
      rw [headerLen, Ip4.headerLen]
      omega
  | v6 h =>
      rw [headerLen, IPV6_HEADER_LEN]
      omega

/-! ## Nothing else is touched -/

theorem Upper.tcpInside {u : Upper} {p : Bytes} {len : Nat} (hstarts : p.Starts u.bytes)
    (hlength : u.headerLen ≤ len) (htcp : u.protocol = IP_PRO_TCP) : TcpInside p len := by
  cases u with
  | udp =>
      have hne : IP_PRO_UDP ≠ IP_PRO_TCP := by decide
      exact absurd htcp hne
  | tcp srcPort dstPort numbers reserved rest options few =>
      simp only [bytes, Bytes.starts_append, List.length_append, Vector.length_toList,
        Bytes.starts_cons, Bytes.skip_apply, Nat.reduceAdd] at hstarts
      have hwords := words_toNat p.tcpHdrLen
      rw [tcpHdrLen_of_first few hstarts.1.1.2.1, UInt16.toNat_ofNat'] at hwords
      rw [headerLen] at hlength
      rw [TcpInside]
      omega
  | other protocol isOther => exact absurd htcp isOther.2

theorem Ip4.inside {h : Ip4} {u : Upper} {p : Bytes} {len : Nat} (ipWdataCnt : UInt8)
    (hstarts : p.Starts (h.bytes u.protocol)) (hupper : (p.skip h.headerLen).Starts u.bytes)
    (hlength : h.headerLen + u.headerLen ≤ len) : Ip4Inside ipWdataCnt p len := by
  have hread := readFrom_of_starts hstarts
  have hwords := hread.headerLen
  rw [words_toNat] at hwords
  have hfixed : 20 ≤ h.headerLen := Nat.le_add_right _ _
  refine ⟨by omega, fun _ _ => ⟨by omega, fun _ => ⟨by omega, fun htcp => ?_⟩⟩⟩
  rw [hread.protocol] at htcp
  rw [hwords]
  exact Upper.tcpInside hupper (by omega) htcp

/-- An extension header of a chain ends where the chain does, or before. -/
theorem Chain.end_le {p : Bytes} {kind kind' protocol : UInt8} {o o' hdrLen : Nat} {isFrag : Bool}
    (h : Chain p kind o kind' o') (hend : ChainEnd p kind o protocol hdrLen isFrag)
    (hext : IsExt kind') : o' + 8 ≤ hdrLen := by
  induction h with
  | here kind o =>
      have hfrag : kind ≠ IP_PRO_IPV6_FRAG := by
        rintro rfl
        exact not_isExt_frag hext
      have hlen := extensionLen_ext hfrag hext (p.skip o)
      have hpos := eight_le_extensionLen hlen
      have hle := hend.le hlen
      omega
  | next hlen hwhole _ ih => exact ih (hend.rest hlen hwhole) hext

theorem Ip6.inside {h : Ip6} {u : Upper} {p : Bytes} {len : UInt16} {content : List UInt8}
    (body : Body) (ipWdataCnt : UInt8)
    (hstarts : p.Starts (h.bytes u.protocol))
    (hupper : (p.skip ((Ip.v6 h).headerLen u.protocol)).Starts u.bytes)
    (hcarries : (Ip.v6 h).Carries content u.protocol)
    (hlength : (Ip.v6 h).headerLen u.protocol + content.length ≤ len.toNat)
    (hheader : u.headerLen ≤ content.length) : Ip6Inside body ipWdataCnt p len.toNat := by
  have hread := readFrom_of_starts hstarts
  have hend := h.chainEnd hcarries.2.1 hread.chain
  rw [← hread.nextHeader] at hend
  rw [Ip.headerLen, IPV6_HEADER_LEN] at hlength
  have hfixed : 40 ≤ len.toNat := by omega
  refine ⟨by omega, fun _ => ⟨fun kind o hchain hext _ => ?_, fun _ => ?_⟩⟩
  · have hle := hchain.end_le hend hext
    rw [IPV6_HEADER_LEN] at hle
    omega
  · apply (tcp_reached (d := .start p 0 len) hfixed fun hdrLen =>
      TcpInside (p.skip hdrLen) (len.toNat - hdrLen)).mpr
    intro htcp _
    obtain ⟨hprotocol, hhdrLen, -⟩ := accepted (d := .start p 0 len) hstarts hcarries (by
      rw [length_bytes]
      exact hlength)
    rw [hhdrLen]
    apply Upper.tcpInside hupper _ (hprotocol.symm.trans htcp)
    rw [Ip.headerLen, IPV6_HEADER_LEN]
    show u.headerLen ≤ len.toNat - _
    omega

theorem Frame.ip_inside {f : Frame} {p : Bytes} {len : UInt16} (body : Body) (ipWdataCnt : UInt8)
    (h : p.Starts (f.ip.bytes f.upper.protocol ++ (f.upper.bytes ++ f.payload)))
    (hlength : f.ip.headerLen f.upper.protocol + (f.upper.bytes ++ f.payload).length ≤ len.toNat)
    {ethType : UInt16} (hnext : sfEthGetNextIndex ethType = f.ip.inputNode) :
    NetworkInside body ipWdataCnt ethType p len.toNat := by
  have hcarries := f.carries
  rw [Bytes.starts_append, Ip.length_bytes, Bytes.starts_append] at h
  obtain ⟨hip, hupper, -⟩ := h
  have hheader : f.upper.headerLen ≤ (f.upper.bytes ++ f.payload).length := by
    rw [List.length_append, Upper.length_bytes]
    exact Nat.le_add_right _ _
  cases hkind : f.ip with
  | v4 h =>
      rw [hkind] at hip hupper hlength hnext
      have hnot : sfEthGetNextIndex ETHER_IPV6_NET_ORDER ≠ .ip4Input := by decide
      rw [Ip.headerLen] at hlength
      exact ⟨fun _ => h.inside ipWdataCnt hip hupper (by omega),
        fun hip6 => absurd (hip6 ▸ hnext) hnot⟩
  | v6 h =>
      rw [hkind] at hip hupper hlength hnext hcarries
      have hnot : sfEthGetNextIndex ETHER_IPV4_NET_ORDER ≠ .ip6Input := by decide
      exact ⟨fun hip4 => absurd (hip4 ▸ hnext) hnot,
        fun _ => h.inside body ipWdataCnt hip hupper hcarries hlength hheader⟩

theorem ethInput_inside {w : Wdata} (h : ETH_HEADER_LEN ≤ w.currentLength.toNat) :
    (ethInput ⟨w, []⟩).1.Inside := by
  have hether : (((⟨w, []⟩ : Decoding).read 12 2).advance 14 ETH_HEADER_LEN).Inside := by
    rw [Decoding.inside_advance, Decoding.inside_read, Decoding.read_wdata]
    exact ⟨⟨fun _ hmem => absurd hmem (by simp), h⟩, h, Nat.le_refl _⟩
  rw [ethInput, parseEthHdr]
  split
  next => exact (parseVlanHdrOnly_inside _).mpr hether
  next => exact hether

/-- Decoding the bytes of a frame gives the packet that the frame was made from, and stays in the
frame. -/
theorem decodeFrame_frame (f : Frame) (body : Body) {p : Bytes} {start len : UInt16}
    (hstarts : p.Starts f.bytes) (hlength : f.bytes.length ≤ len.toNat) :
    DecodedTo (f.packet start) f.headersLen (Decoding.start p start len).wdata
        (decodeFrame body (Decoding.start p start len).wdata).wdata ∧
      (decodeFrame body (Decoding.start p start len).wdata).Inside := by
  obtain ⟨a, b, -, -, hnext⟩ := f.ip.type_eq
  have hpos := f.ip.headerLen_pos f.upper.protocol
  rw [f.length_bytes] at hlength
  have hethernet : ETH_HEADER_LEN ≤ len.toNat := by
    rw [Frame.ipOffset] at hlength
    omega
  have hoffset : f.ipOffset < len.toNat := by omega
  obtain ⟨hnode, hmoved, hkept⟩ :=
    @ethInput_frame f (Decoding.start p start len).wdata [] hstarts hoffset
  have hip := (f.starts_stack (w := (Decoding.start p start len).wdata) hstarts).2
  rw [← hmoved.current] at hip
  have hleft : _ + f.ipOffset = len.toNat := hmoved.length
  have hlong : f.ip.headerLen f.upper.protocol + (f.upper.bytes ++ f.payload).length
      ≤ (ethInput ⟨(Decoding.start p start len).wdata, []⟩).1.wdata.currentLength.toNat := by
    omega
  have hdecoded := decodeL3_frame body hip hlong hkept.ipWdataCnt hkept.l4Wdata
  rw [decodeFrame, hnode]
  constructor
  · rw [hmoved.offset] at hdecoded
    exact ⟨hdecoded.stored, hdecoded.packetError.trans hkept.packetError,
      hmoved.trans hdecoded.moved⟩
  · rw [← hnext, decodeL3_inside]
    exact ⟨ethInput_inside hethernet, f.ip_inside body _ hip hlong hnext⟩

/-- A TCP packet behind two tags and hop-by-hop options. -/
def stackedFrame : Frame where
  dmac := #v[2, 0, 0, 0, 0, 1]
  smac := #v[2, 0, 0, 0, 0, 2]
  tags := [⟨true, #v[0, 100]⟩, ⟨false, #v[0, 7]⟩]
  ip := .v6
    { flow := #v[0x60, 0, 0, 0]
      payloadLen := #v[0, 30]
      hopLimit := 64
      srcIp := #v[0x20, 1, 0x0d, 0xb8, 0, 0, 0, 0, 0, 0, 0, 0, 0, 0, 0, 1]
      dstIp := #v[0x20, 1, 0x0d, 0xb8, 0, 0, 0, 0, 0, 0, 0, 0, 0, 0, 0, 2]
      extensions := [.ext IP_PRO_HOPOPT 0 [1, 4, 0, 0, 0, 0] (by decide) (by decide)]
      fragment := none }
  upper := .tcp #v[0x04, 0xd2] #v[0, 80] (.replicate 8 0) 0 (.replicate 7 0) [] (by decide)
  payload := [1, 2]
  carries := ⟨by decide, fun _ => by decide, fun _ =>
    List.append_ne_nil_of_right_ne_nil _ (by simp)⟩

theorem Bytes.starts_getD (l : List UInt8) : Bytes.Starts (fun i => l.getD i 0) l := by
  induction l with
  | nil => trivial
  | cons b l ih =>
      refine ⟨rfl, ?_⟩
      have hskip : Bytes.skip (fun i => (b :: l).getD i 0) 1 = fun i => l.getD i 0 := by
        funext i
        rw [skip_apply, Nat.add_comm, List.getD_cons_succ]
      rwa [hskip]

theorem decodeFrame_frame_stacked :
    let p : Bytes := fun i => stackedFrame.bytes.getD i 0
    DecodedTo (stackedFrame.packet 0) stackedFrame.headersLen (Decoding.start p 0 92).wdata
        (decodeFrame .single (Decoding.start p 0 92).wdata).wdata ∧
      (decodeFrame .single (Decoding.start p 0 92).wdata).Inside :=
  decodeFrame_frame stackedFrame .single (Bytes.starts_getD _) (by decide)

end Tapplet.Net
