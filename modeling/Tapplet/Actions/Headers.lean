import Mathlib.Data.List.GetD
import Tapplet.Actions.Encap
import Tapplet.Actions.Plan
import Tapplet.Reass.WellFormed

/-!
# What the headers say

The headers that the encapsulations of a plan ask for, by what their fields say about the bytes
behind them, and that the nodes write such headers. The addresses of the interface and the clocks
play no part in it.
-/

namespace Tapplet.Actions

open Reass (View net16 netWords put16 load16)
open OnesComplement (Verifies)

/-! ## Headers -/

def view (bytes : List UInt8) : View := fun i => bytes.getD i 0

/-- The length of the outer IP header. -/
def Outer.ipLen (o : Outer) : Nat := if o.isIpv6 then IPV6_HEADER_LEN else IPV4_HEADER_LEN

/-- The length of the GRE header with the ERSPAN header behind it. -/
def Erspan.innerLen (r : Erspan) : Nat :=
  GRE_HEADER_LEN + if r.type.val = 0 then 0
    else GRE_OPTION_LEN + if r.type.val = 1 then ERSPAN_II_HEADER_LEN else ERSPAN_III_HEADER_LEN

/-- An IPv4 header with `len` bytes behind it. -/
structure Ip4Header (o : Outer) (protocol : UInt8) (len : Nat) (ip : List UInt8) : Prop where
  version : view ip 0 = 0x45
  tos : (view ip 1).toNat = o.dscp * 4
  totalLen : net16 (view ip) 2 = IPV4_HEADER_LEN + len
  protocol : view ip 9 = protocol
  checksum : Verifies (netWords (view ip) IPV4_HEADER_LEN)
  dip : (ip.drop 16).take 4 = o.dip

/-- An IPv6 header with `len` bytes behind it. -/
structure Ip6Header (o : Outer) (protocol : UInt8) (len : Nat) (ip : List UInt8) : Prop where
  version : (view ip 0).toNat / 16 = 6
  trafficClass : (view ip 0).toNat % 16 * 16 + (view ip 1).toNat / 16 = o.dscp * 4
  payloadLen : net16 (view ip) 4 = len
  nextHeader : view ip 6 = protocol
  dip : (ip.drop 24).take 16 = o.dip

/-- An Ethernet and an IP header with `inner` behind them, and `len` bytes behind it. -/
structure OuterHeader (o : Outer) (protocol : UInt8) (inner : List UInt8) (len : Nat)
    (h : List UInt8) : Prop where
  length : h.length = ETH_HEADER_LEN + o.ipLen + inner.length
  dmac : h.take 6 = o.dmac
  ip4 : o.isIpv6 = false → net16 (view h) 12 = 0x0800 ∧
    Ip4Header o protocol (inner.length + len) (h.drop ETH_HEADER_LEN)
  ip6 : o.isIpv6 = true → net16 (view h) 12 = 0x86DD ∧
    Ip6Header o protocol (inner.length + len) (h.drop ETH_HEADER_LEN)
  inner : h.drop (ETH_HEADER_LEN + o.ipLen) = inner

/-- A GRE header with `len` bytes of an Ethernet frame behind it. -/
def GreHeader (o : Outer) (len : Nat) (h : List UInt8) : Prop :=
  OuterHeader o IP_PRO_GRE [0, 0, 0x65, 0x58] len h

/-- A UDP and a VXLAN header with `len` bytes behind them. -/
structure VxlanInner (v : Vxlan) (len : Nat) (inner : List UInt8) : Prop where
  length : inner.length = UDP_HEADER_LEN + VXLAN_HEADER_LEN
  dport : net16 (view inner) 2 = v.dport
  udpLength : net16 (view inner) 4 = UDP_HEADER_LEN + VXLAN_HEADER_LEN + len
  flags : (view inner) 8 = 0x08
  vni : net16 (view inner) 12 * 256 + (view inner 14).toNat = v.vni

def VxlanHeader (v : Vxlan) (len : Nat) (h : List UInt8) : Prop :=
  ∃ inner, VxlanInner v len inner ∧ OuterHeader v.outer IP_PRO_UDP inner len h

/-- A GRE and an ERSPAN header. The first type has no header of its own. -/
structure ErspanInner (r : Erspan) (inner : List UInt8) : Prop where
  length : inner.length = r.innerLen
  flagS : view inner 0 = if r.type.val = 0 then 0 else 0x10
  protocolType : net16 (view inner) 2 = if r.type.val = 2 then 0x22EB else 0x88BE
  version : r.type.val ≠ 0 → net16 (view inner) 8 / 4096 = r.type.val
  sessionId : r.type.val ≠ 0 → net16 (view inner) 10 % 1024 = r.sessionId

def ErspanHeader (r : Erspan) (len : Nat) (h : List UInt8) : Prop :=
  ∃ inner, ErspanInner r inner ∧ OuterHeader r.outer IP_PRO_GRE inner len h

/-- The header of a node with `len` bytes behind it. -/
def Node.Header (n : Node) (e : Encapsulations) (len : Nat) (h : List UInt8) : Prop :=
  match n with
  | .gre => ∃ o, e.gre = some o ∧ GreHeader o len h
  | .vxlan => ∃ v, e.vxlan = some v ∧ VxlanHeader v len h
  | .erspan => ∃ r, e.erspan = some r ∧ ErspanHeader r len h

/-- The size of the header of a node. -/
def Encapsulations.size (e : Encapsulations) : Node → Nat
  | .gre => e.gre.elim 0 fun o => ETH_HEADER_LEN + o.ipLen + GRE_HEADER_LEN
  | .vxlan => e.vxlan.elim 0 fun v =>
      ETH_HEADER_LEN + v.outer.ipLen + (UDP_HEADER_LEN + VXLAN_HEADER_LEN)
  | .erspan => e.erspan.elim 0 fun r => ETH_HEADER_LEN + r.outer.ipLen + r.innerLen

/-- The checksum of the headers library is the complement of the sum of the header. -/
def Dataplane.ChecksumComplements (d : Dataplane) : Prop :=
  Reass.ChecksumComplements ⟨fun _ => 0, d.ip4HeaderChecksum⟩

variable {d : Dataplane} {e : Encapsulations} {o : Outer} {h inner xs ys : List UInt8}
  {len i n : Nat} {intf : Interface} {protocol : UInt8}

theorem Node.Header.length {n : Node} (hn : n.Header e len h) : h.length = e.size n := by
  cases n with
  | gre =>
      obtain ⟨o, ho, hh⟩ := hn
      rw [hh.length, Encapsulations.size, ho]
      rfl
  | vxlan =>
      obtain ⟨v, hv, inner, hinner, hh⟩ := hn
      rw [hh.length, Encapsulations.size, hv, hinner.length]
      rfl
  | erspan =>
      obtain ⟨r, hr, inner, hinner, hh⟩ := hn
      rw [hh.length, Encapsulations.size, hr, hinner.length]
      rfl

/-! ## Numbers -/

theorem net16_bytes {a b : UInt8} (ha : view xs i = a) (hb : view xs (i + 1) = b) :
    net16 (view xs) i = a.toNat * 256 + b.toNat := by
  rw [net16, ha, hb]

/-- A number that is written in network order. -/
theorem net16_netBytes16 (h : n < 2 ^ 16) (ha : view xs i = .ofNat (n / 256))
    (hb : view xs (i + 1) = .ofNat n) : net16 (view xs) i = n := by
  rw [net16_bytes ha hb, UInt8.toNat_ofNat', UInt8.toNat_ofNat']
  omega

/-- A number that is written in host order. -/
theorem net16_bytes16 (ha : view xs i = .ofNat n) (hb : view xs (i + 1) = .ofNat (n / 256)) :
    net16 (view xs) i = n % 256 * 256 + n / 256 % 256 := by
  rw [net16_bytes ha hb, UInt8.toNat_ofNat', UInt8.toNat_ofNat']

theorem view_append_left (h : i < xs.length) : view (xs ++ ys) i = view xs i := by
  rw [view, view, List.getD_append _ _ _ _ h]

theorem view_append_add : view (xs ++ ys) (xs.length + i) = view ys i := by
  rw [view, view, List.getD_append_right _ _ _ _ (Nat.le_add_right ..), Nat.add_sub_cancel_left]

/-- A number of two bytes between other bytes. -/
theorem view_bytes16 (x i : Nat) : view (xs ++ bytes16 x ++ ys) i =
    put16 (view (xs ++ bytes16 0 ++ ys)) xs.length x i := by
  rw [List.append_assoc, List.append_assoc]
  by_cases hlt : i < xs.length
  · rw [put16, Patch.patch_of_lt hlt, view_append_left hlt, view_append_left hlt]
  · obtain ⟨k, rfl⟩ := Nat.exists_eq_add_of_le (Nat.le_of_not_lt hlt)
    rw [view_append_add]
    by_cases hk : k < 2
    · rw [put16, Patch.patch_add hk]
      obtain rfl | rfl : k = 0 ∨ k = 1 := by omega
      · show UInt8.ofNat x = UInt8.ofNat (x / 256 ^ 0)
        rw [Nat.pow_zero, Nat.div_one]
      · show UInt8.ofNat (x / 256) = UInt8.ofNat (x / 256 ^ 1)
        rw [Nat.pow_one]
    · rw [put16, Patch.patch_of_ge (by omega), view_append_add]
      obtain ⟨j, rfl⟩ := Nat.exists_eq_add_of_le (Nat.le_of_not_lt hk)
      exact (@view_append_add (bytes16 x) _ _).trans (@view_append_add (bytes16 0) _ _).symm

/-! ## Outer headers -/

theorem length_ipv4Header {tos : UInt8} {totalLen checksum : Nat} {src dst : List UInt8}
    (hsrc : src.length = 4) (hdst : dst.length = 4) :
    (ipv4Header tos totalLen protocol checksum src dst).length = IPV4_HEADER_LEN := by
  rw [ipv4Header, List.length_append, List.length_append, hsrc, hdst]
  rfl

/-- A header whose checksum is computed with a checksum of 0. -/
theorem verifies_ipv4Header (complements : d.ChecksumComplements) {tos : UInt8} {totalLen : Nat}
    {src dst : List UInt8} (hsrc : src.length = 4) (hdst : dst.length = 4) (rest : List UInt8) :
    Verifies (netWords (view (ipv4Header tos totalLen protocol (d.ip4HeaderChecksum
      (view (ipv4Header tos totalLen protocol 0 src dst))) src dst ++ rest)) IPV4_HEADER_LEN) := by
  refine Reass.verifies_put16 (u := view (ipv4Header tos totalLen protocol 0 src dst)) complements
    (Nat.le_refl _) (show 20 = 4 * ((0x45 : UInt8).toNat % 16) from rfl) fun i hi => ?_
  rw [view_append_left (by rwa [length_ipv4Header hsrc hdst])]
  have hput := @view_bytes16 ([0x45, tos] ++ netBytes16 totalLen ++ [0, 0, 0, 0, 0x40, protocol])
    (src ++ dst)
  rw [ipv4Header, List.append_assoc (_ ++ bytes16 _), hput, ipv4Header,
    List.append_assoc (_ ++ bytes16 0)]
  rfl

theorem length_srcIp {addr template : List UInt8} {k : Nat} (haddr : addr.length = k)
    (htemplate : template.length = k) : (srcIp addr template).length = k := by
  rw [srcIp]
  split
  next => exact haddr
  next => exact htemplate

theorem dscp_toTunnel (o : Outer) : o.toTunnel.dscp.toNat = o.dscp * 4 := by
  have hle := o.dscp_le
  show (UInt8.ofNat (o.dscp <<< 2)).toNat = _
  rw [UInt8.toNat_ofNat', Nat.shiftLeft_eq]
  omega

/-- The IP header behind the Ethernet header. -/
theorem outerIpv4_drop (rest : List UInt8) :
    (outerIpv4 d intf o.toTunnel protocol len ++ rest).drop ETH_HEADER_LEN =
      ipv4Header o.toTunnel.dscp (IPV4_HEADER_LEN + len) protocol
        (d.ip4HeaderChecksum (view (ipv4Header o.toTunnel.dscp (IPV4_HEADER_LEN + len) protocol 0
          (srcIp intf.ipv4Addr templateIpv4) (o.toTunnel.dip.take 4))))
        (srcIp intf.ipv4Addr templateIpv4) (o.toTunnel.dip.take 4) ++ rest := by
  rw [outerIpv4, List.append_assoc]
  apply List.drop_left'
  rw [List.length_append, List.length_append, intf.length_mac]
  exact congrArg (· + 6 + 2) o.length_dmac

theorem outerIpv6_drop (rest : List UInt8) :
    (outerIpv6 intf o.toTunnel protocol len ++ rest).drop ETH_HEADER_LEN =
      ipv6Header o.toTunnel.dscp len protocol (srcIp intf.ipv6Addr templateIpv6) o.toTunnel.dip ++
        rest := by
  rw [outerIpv6, List.append_assoc]
  apply List.drop_left'
  rw [List.length_append, List.length_append, intf.length_mac]
  exact congrArg (· + 6 + 2) o.length_dmac

/-- The first byte of an IPv6 header: the version, and the upper half of the traffic class. -/
theorem version_byte (tc : UInt8) : ((0x60 : UInt8) ||| tc >>> 4).toNat = 96 + tc.toNat / 16 := by
  have hlt := tc.toNat_lt
  rw [UInt8.toNat_or, UInt8.toNat_shiftRight]
  show 96 ||| tc.toNat >>> 4 = _
  rw [Nat.shiftRight_eq_div_pow]
  exact (Nat.two_pow_add_eq_or_of_lt (i := 4) (show tc.toNat / 2 ^ 4 < 2 ^ 4 by omega) 6).symm

/-- The second byte: the lower half of the traffic class. -/
theorem traffic_byte (tc : UInt8) : ((tc &&& 0xF) <<< 4).toNat = tc.toNat % 16 * 16 := by
  have hmod : (tc &&& 0xF).toNat = tc.toNat % 2 ^ 4 := by
    rw [UInt8.toNat_and]
    exact Nat.and_two_pow_sub_one_eq_mod tc.toNat 4
  rw [UInt8.toNat_shiftLeft, hmod]
  show (tc.toNat % 16) <<< 4 % 256 = _
  rw [Nat.shiftLeft_eq]
  omega

theorem dip_ip4 (hv : o.isIpv6 = false) : o.toTunnel.dip.take 4 = o.dip := by
  have hlen := o.length_dip
  rw [hv] at hlen
  show (dipField o.dip).take 4 = _
  rw [dipField]
  exact List.take_left' hlen

theorem dip_ip6 (hv : o.isIpv6 = true) : o.toTunnel.dip = o.dip := by
  have hlen := o.length_dip
  rw [hv] at hlen
  show dipField o.dip = _
  rw [dipField, hlen]
  exact List.append_nil _

/-- The IPv4 header of an outer header. -/
theorem outerIpv4_ip4Header (complements : d.ChecksumComplements) (hv : o.isIpv6 = false)
    (hlen : IPV4_HEADER_LEN + len < 2 ^ 16) (rest : List UInt8) :
    Ip4Header o protocol len
      ((outerIpv4 d intf o.toTunnel protocol len ++ rest).drop ETH_HEADER_LEN) := by
  have hsrc : (srcIp intf.ipv4Addr templateIpv4).length = 4 :=
    length_srcIp intf.length_ipv4Addr rfl
  have hdip : o.dip.length = 4 := by
    rw [o.length_dip, hv]
    rfl
  rw [outerIpv4_drop, dip_ip4 hv]
  constructor
  case version => rfl
  case tos => exact dscp_toTunnel o
  case totalLen => exact net16_netBytes16 hlen rfl rfl
  case protocol => rfl
  case checksum => exact verifies_ipv4Header complements hsrc hdip rest
  case dip =>
    rw [ipv4Header, List.append_assoc _ o.dip, List.drop_left' ?_]
    · exact List.take_left' hdip
    · rw [List.length_append, hsrc]
      rfl

/-- The IPv6 header of an outer header. -/
theorem outerIpv6_ip6Header (hv : o.isIpv6 = true) (hlen : len < 2 ^ 16) (rest : List UInt8) :
    Ip6Header o protocol len
      ((outerIpv6 intf o.toTunnel protocol len ++ rest).drop ETH_HEADER_LEN) := by
  have hsrc : (srcIp intf.ipv6Addr templateIpv6).length = 16 :=
    length_srcIp intf.length_ipv6Addr rfl
  have hdip : o.dip.length = 16 := by
    rw [o.length_dip, hv]
    rfl
  rw [outerIpv6_drop, dip_ip6 hv]
  constructor
  case version =>
    have hlt := o.toTunnel.dscp.toNat_lt
    show ((0x60 : UInt8) ||| o.toTunnel.dscp >>> 4).toNat / 16 = 6
    rw [version_byte]
    omega
  case trafficClass =>
    have hlt := o.toTunnel.dscp.toNat_lt
    show ((0x60 : UInt8) ||| o.toTunnel.dscp >>> 4).toNat % 16 * 16 +
      ((o.toTunnel.dscp &&& 0xF) <<< 4).toNat / 16 = _
    rw [version_byte, traffic_byte, ← dscp_toTunnel]
    omega
  case payloadLen => exact net16_netBytes16 hlen rfl rfl
  case nextHeader => rfl
  case dip =>
    rw [ipv6Header, List.append_assoc _ o.dip, List.drop_left' ?_]
    · exact List.take_left' hdip
    · rw [List.length_append, hsrc]
      rfl

/-- What is put in front of a frame for an outer header. -/
def outerBytes (d : Dataplane) (intf : Interface) (o : Outer) (protocol : UInt8) (len : Nat) :
    List UInt8 :=
  if o.isIpv6 then outerIpv6 intf o.toTunnel protocol len
  else outerIpv4 d intf o.toTunnel protocol len

theorem length_outerIpv4 (hv : o.isIpv6 = false) :
    (outerIpv4 d intf o.toTunnel protocol len).length = ETH_HEADER_LEN + IPV4_HEADER_LEN := by
  have hdip : o.dip.length = 4 := by
    rw [o.length_dip, hv]
    rfl
  have hsrc := length_srcIp intf.length_ipv4Addr (show templateIpv4.length = 4 from rfl)
  rw [outerIpv4]
  dsimp only
  rw [dip_ip4 hv, List.length_append, length_ipv4Header hsrc hdip, List.length_append,
    List.length_append, intf.length_mac]
  exact congrArg (· + 6 + 2 + 20) o.length_dmac

theorem length_outerIpv6 (hv : o.isIpv6 = true) :
    (outerIpv6 intf o.toTunnel protocol len).length = ETH_HEADER_LEN + IPV6_HEADER_LEN := by
  have hdip : o.dip.length = 16 := by
    rw [o.length_dip, hv]
    rfl
  have hsrc := length_srcIp intf.length_ipv6Addr (show templateIpv6.length = 16 from rfl)
  rw [outerIpv6, dip_ip6 hv, ipv6Header, List.length_append, List.length_append,
    List.length_append, List.length_append, List.length_append, intf.length_mac, hdip, hsrc]
  exact congrArg (· + 6 + 2 + 40) o.length_dmac

theorem length_outerBytes : (outerBytes d intf o protocol len).length = ETH_HEADER_LEN +
    o.ipLen := by
  rw [outerBytes, Outer.ipLen]
  cases hv : o.isIpv6 with
  | false => exact length_outerIpv4 hv
  | true => exact length_outerIpv6 hv

/-- The bytes of the Ethernet header. -/
theorem outerBytes_eth : ∃ ip, outerBytes d intf o protocol len =
    o.dmac ++ (intf.mac ++
      ([if o.isIpv6 then 0x86 else 0x08, if o.isIpv6 then 0xDD else 0x00] ++ ip)) := by
  rw [outerBytes]
  cases o.isIpv6 with
  | false =>
    exact ⟨_, by rw [if_neg (by decide), outerIpv4, List.append_assoc, List.append_assoc]; rfl⟩
  | true => exact ⟨_, by rw [if_pos rfl, outerIpv6, List.append_assoc, List.append_assoc]; rfl⟩

/-- The type of the Ethernet header. -/
theorem outerBytes_type (rest : List UInt8) :
    net16 (view (outerBytes d intf o protocol len ++ rest)) 12 =
      if o.isIpv6 then 0x86DD else 0x0800 := by
  obtain ⟨ip, heth⟩ := @outerBytes_eth d o len intf protocol
  have hbyte (k : Nat) : view (outerBytes d intf o protocol len ++ rest) (12 + k) =
      view ([if o.isIpv6 then 0x86 else 0x08, if o.isIpv6 then 0xDD else 0x00] ++
        (ip ++ rest)) k := by
    have hk : 12 + k = o.dmac.length + (intf.mac.length + k) := by
      rw [o.length_dmac, intf.length_mac]
      omega
    rw [heth, List.append_assoc, List.append_assoc, List.append_assoc, hk, view_append_add,
      view_append_add]
  have hfirst : view (outerBytes d intf o protocol len ++ rest) 12 =
      if o.isIpv6 then 0x86 else 0x08 := hbyte 0
  have hsecond : view (outerBytes d intf o protocol len ++ rest) 13 =
      if o.isIpv6 then 0xDD else 0x00 := hbyte 1
  rw [net16_bytes hfirst hsecond]
  cases o.isIpv6 <;> decide

/-- They are an outer header for what is put behind them. -/
theorem outerBytes_outerHeader (complements : d.ChecksumComplements)
    (hlen : o.ipLen + inner.length + len < 2 ^ 16) :
    OuterHeader o protocol inner len
      (outerBytes d intf o protocol (inner.length + len) ++ inner) := by
  constructor
  case length => rw [List.length_append, length_outerBytes]
  case dmac =>
    obtain ⟨ip, heth⟩ := @outerBytes_eth d o (inner.length + len) intf protocol
    rw [heth, List.append_assoc]
    exact List.take_left' o.length_dmac
  case ip4 =>
    intro hv
    have hshort : IPV4_HEADER_LEN + (inner.length + len) < 2 ^ 16 := by
      rw [Outer.ipLen, hv, if_neg (by decide)] at hlen
      omega
    rw [outerBytes_type, hv, outerBytes, hv]
    exact ⟨rfl, outerIpv4_ip4Header complements hv hshort inner⟩
  case ip6 =>
    intro hv
    rw [outerBytes_type, hv, outerBytes, hv]
    exact ⟨rfl, outerIpv6_ip6Header hv (by omega) inner⟩
  case inner => exact List.drop_left' length_outerBytes

/-! ## Inner headers -/

/-- The bytes of a port in network order. -/
theorem htons_bytes {x : Nat} (h : x < 2 ^ 16) :
    (htons (.ofNat (x % 2 ^ 16))).toNat % 256 * 256 +
      (htons (.ofNat (x % 2 ^ 16))).toNat / 256 % 256 = x := by
  obtain ⟨a, b, ha, hb, rfl⟩ : ∃ a b, a < 256 ∧ b < 256 ∧ x = b * 256 + a :=
    ⟨x % 256, x / 256, by omega, by omega, by omega⟩
  rw [toNat_htons ha hb (by rw [UInt16.toNat_ofNat']; omega)]
  omega

/-- The first three bytes of a VNI in network order. -/
theorem htonl_bytes {x : Nat} (h : x < 2 ^ 24) :
    ((htonl (.ofNat (x % 2 ^ 24 * 2 ^ 8))).toNat % 256 * 256 +
      (htonl (.ofNat (x % 2 ^ 24 * 2 ^ 8))).toNat / 256 % 256) * 256 +
      (htonl (.ofNat (x % 2 ^ 24 * 2 ^ 8))).toNat / 65536 % 256 = x := by
  obtain ⟨b, c, d, hb, hc, hd, rfl⟩ : ∃ b c d, b < 256 ∧ c < 256 ∧ d < 256 ∧
      x = d * 65536 + c * 256 + b :=
    ⟨x % 256, x / 256 % 256, x / 65536, by omega, by omega, by omega, by omega⟩
  rw [toNat_htonl (a := 0) (by omega) hb hc hd (by rw [UInt32.toNat_ofNat']; omega)]
  have hfirst : (0 * 16777216 + b * 65536 + c * 256 + d) % 256 = d := by omega
  have hsecond : (0 * 16777216 + b * 65536 + c * 256 + d) / 256 = b * 256 + c := by omega
  have hthird : (0 * 16777216 + b * 65536 + c * 256 + d) / 65536 = b := by omega
  rw [hfirst, hsecond, hthird, Nat.mul_add_mod_of_lt hc, Nat.mod_eq_of_lt hb]
  omega

theorem vxlanInner (v : Vxlan) (hlen : UDP_HEADER_LEN + VXLAN_HEADER_LEN + len < 2 ^ 16) :
    VxlanInner v len (sfUdpHeader (htons (.ofNat (v.dport % 2 ^ 16)))
        (UDP_HEADER_LEN + VXLAN_HEADER_LEN + len) ++
      sfVxlanHeader (htonl (.ofNat (v.vni % 2 ^ 24 * 2 ^ 8)))) := by
  constructor
  case length => rfl
  case dport => exact (net16_bytes16 rfl rfl).trans (htons_bytes v.dport_lt)
  case udpLength => exact net16_netBytes16 hlen rfl rfl
  case flags => rfl
  case vni =>
    rw [net16_bytes16 rfl rfl]
    show _ + (UInt8.ofNat _).toNat = _
    rw [UInt8.toNat_ofNat']
    exact htonl_bytes v.vni_lt

variable {r : Erspan}

theorem Erspan.sessionId_toAdditional (r : Erspan) :
    (UInt16.ofNat r.sessionId).toNat = r.sessionId := by
  have hle := r.sessionId_le
  rw [UInt16.toNat_ofNat']
  omega

theorem erspanInner_i (h : r.type.val = 0) : ErspanInner r (sfGreHeader false 0x88BE) := by
  constructor
  case length =>
    rw [Erspan.innerLen, if_pos h]
    rfl
  case flagS => exact (if_pos h).symm
  case protocolType =>
    rw [if_neg (by omega)]
    rfl
  case version => exact fun hne => absurd h hne
  case sessionId => exact fun hne => absurd h hne

theorem erspanInner_ii (h : r.type.val = 1) (option : Nat) (cos : Nat) :
    ErspanInner r (sfGreHeader true 0x88BE ++ netBytes32 option ++
      sfErspanIiHeader cos (UInt16.ofNat r.sessionId).toNat netBytes16) := by
  have hle := r.sessionId_le
  rw [r.sessionId_toAdditional]
  constructor
  case length =>
    rw [Erspan.innerLen, if_neg (by omega), if_pos h]
    rfl
  case flagS =>
    rw [if_neg (by omega)]
    rfl
  case protocolType =>
    rw [if_neg (by omega)]
    exact net16_netBytes16 (by decide) rfl rfl
  case version =>
    intro _
    rw [net16_netBytes16 (n := 0 % 4096 + 1 * 4096) (by omega) rfl rfl, h]
  case sessionId =>
    intro _
    rw [net16_netBytes16 (n := r.sessionId % 1024 + 3 * 2048 + cos % 8 * 8192) (by omega) rfl rfl]
    omega

theorem erspanInner_iii (h : r.type.val = 2) (option vlan cos timestamp : Nat) :
    ErspanInner r (sfGreHeader true 0x22EB ++ netBytes32 option ++
      sfErspanIiiHeader vlan cos (UInt16.ofNat r.sessionId).toNat timestamp netBytes16) := by
  have hle := r.sessionId_le
  rw [r.sessionId_toAdditional]
  constructor
  case length =>
    rw [Erspan.innerLen, if_neg (by omega), if_neg (by omega)]
    rfl
  case flagS =>
    rw [if_neg (by omega)]
    rfl
  case protocolType =>
    rw [if_pos h]
    exact net16_netBytes16 (by decide) rfl rfl
  case version =>
    intro _
    rw [net16_netBytes16 (n := vlan % 4096 + 2 * 4096) (by omega) rfl rfl]
    omega
  case sessionId =>
    intro _
    rw [net16_netBytes16 (n := r.sessionId % 1024 + 0 * 2048 + cos % 8 * 8192) (by omega) rfl rfl]
    omega

/-! ## The nodes -/

/-- The packet gets the header, which may be counted. -/
def Packet.Gets (p : Packet) (h : List UInt8) (q : Packet) : Prop :=
  q = p.prepend h ∨ ∃ size, q = (p.prepend h).addDelta size

/-- The node has a header for the packet. -/
structure Encapsulates (d : Dataplane) (e : Encapsulations) (n : Node) (p : Packet)
    (h : List UInt8) (q : Packet) : Prop where
  gets : p.Gets h q
  length : h.length = e.size n
  header : d.ChecksumComplements → p.currentLength.toNat + e.size n < 2 ^ 16 →
    n.Header e p.currentLength.toNat h

variable {p : Packet}

theorem dipType_toTunnel (o : Outer) : o.toTunnel.dipType = if o.isIpv6 then 6 else 4 := rfl

/-- The two versions of a node together. -/
theorem dispatch_outer {α : Sort*} (f : (Nat → List UInt8) → α) (other : α) :
    (if o.toTunnel.dipType = 4 then f (outerIpv4 d intf o.toTunnel protocol)
      else if o.toTunnel.dipType = 6 then f (outerIpv6 intf o.toTunnel protocol) else other) =
      f (outerBytes d intf o protocol) := by
  rw [dipType_toTunnel]
  have houter (len : Nat) : outerBytes d intf o protocol len = if o.isIpv6 then
      outerIpv6 intf o.toTunnel protocol len else outerIpv4 d intf o.toTunnel protocol len := rfl
  have houter := funext houter
  cases hv : o.isIpv6 with
  | false =>
      rw [hv] at houter
      rw [houter]
      rfl
  | true =>
      rw [hv] at houter
      rw [houter]
      rfl

/-- An outer header with what belongs behind it. -/
theorem Encapsulates.of_gets {n : Node} {q : Packet}
    (hq : p.Gets (outerBytes d (d.interfaces p.interfaceId) o protocol
      (inner.length + p.currentLength.toNat) ++ inner) q)
    (hsize : e.size n = ETH_HEADER_LEN + o.ipLen + inner.length)
    (hheader : ∀ h, p.currentLength.toNat + e.size n < 2 ^ 16 →
      OuterHeader o protocol inner p.currentLength.toNat h →
      n.Header e p.currentLength.toNat h) :
    ∃ h, Encapsulates d e n p h q := by
  refine ⟨_, hq, ?_, fun complements hshort => hheader _ hshort ?_⟩
  · rw [List.length_append, length_outerBytes, hsize]
  · exact outerBytes_outerHeader complements (by omega)

theorem sfEncapGre_encapsulates
    (hencap : (getActionPtrNocheck d p).additionalActions = e.toAdditional)
    (ho : e.gre = some o) : ∃ h, Encapsulates d e .gre p h (sfEncapGre d p) := by
  have htunnel : e.toAdditional.gre = o.toTunnel := by
    rw [Encapsulations.toAdditional, ho]
    rfl
  have hgre : sfEncapGre d p = p.prepend (outerBytes d (d.interfaces p.interfaceId) o IP_PRO_GRE
      ((sfGreHeader false 0x6558).length + p.currentLength.toNat) ++ sfGreHeader false 0x6558) := by
    rw [sfEncapGre, hencap, htunnel]
    exact dispatch_outer (fun outer => p.prepend
      (outer (GRE_HEADER_LEN + p.currentLength.toNat) ++ sfGreHeader false 0x6558)) p
  refine Encapsulates.of_gets (.inl hgre) ?_ fun h _ hh => ⟨o, ho, hh⟩
  rw [Encapsulations.size, ho]
  rfl

theorem sfEncapVxlan_encapsulates {v : Vxlan}
    (hencap : (getActionPtrNocheck d p).additionalActions = e.toAdditional)
    (hv : e.vxlan = some v) : ∃ h, Encapsulates d e .vxlan p h (sfEncapVxlan d p) := by
  have htunnel : e.toAdditional.vxlan = v.outer.toTunnel := by
    rw [Encapsulations.toAdditional, hv]
    rfl
  obtain ⟨inner, hinner⟩ : ∃ inner, inner =
      sfUdpHeader e.toAdditional.vxlanDport
        (UDP_HEADER_LEN + VXLAN_HEADER_LEN + p.currentLength.toNat) ++
      sfVxlanHeader e.toAdditional.vxlanVni := ⟨_, rfl⟩
  have hlength : inner.length = UDP_HEADER_LEN + VXLAN_HEADER_LEN := by
    rw [hinner]
    rfl
  have hvxlan : sfEncapVxlan d p = p.prepend (outerBytes d (d.interfaces p.interfaceId) v.outer
      IP_PRO_UDP (inner.length + p.currentLength.toNat) ++ inner) := by
    rw [sfEncapVxlan, hencap, htunnel, hlength, hinner]
    exact dispatch_outer (fun outer => p.prepend
      (outer (UDP_HEADER_LEN + VXLAN_HEADER_LEN + p.currentLength.toNat) ++ (_ ++ _))) p
  have hsize : e.size .vxlan = ETH_HEADER_LEN + v.outer.ipLen + inner.length := by
    rw [Encapsulations.size, hv, hlength]
    rfl
  refine Encapsulates.of_gets (.inl hvxlan) hsize fun h hshort hh => ⟨v, hv, inner, ?_, hh⟩
  have hfields := vxlanInner v (show UDP_HEADER_LEN + VXLAN_HEADER_LEN + p.currentLength.toNat <
    2 ^ 16 by omega)
  rwa [hinner, Encapsulations.toAdditional, hv]

/-- Each type has its header behind the outer one. -/
theorem encapErspanProc_gets {r : Erspan} (outer : Nat → List UInt8) (option : UInt32)
    (hr : e.erspan = some r) : ∃ inner size, ErspanInner r inner ∧
      (encapErspanProc outer e.toAdditional option p).2 =
        (p.prepend (outer (inner.length + p.currentLength.toNat) ++ inner)).addDelta size := by
  have htype : e.toAdditional.erspanType = .ofNat (r.type.val + 1) := by
    rw [Encapsulations.toAdditional, hr]
    rfl
  have hsession : e.toAdditional.erspanSessionId = .ofNat r.sessionId := by
    rw [Encapsulations.toAdditional, hr]
    rfl
  have hlt : r.type.val < 3 := r.type.isLt
  rw [encapErspanProc, htype, hsession]
  obtain h | h | h : r.type.val = 0 ∨ r.type.val = 1 ∨ r.type.val = 2 := by omega
  · rw [h, if_pos (show UInt8.ofNat (0 + 1) = 1 from rfl)]
    dsimp only
    have hlen : r.innerLen = GRE_HEADER_LEN := by
      rw [Erspan.innerLen, if_pos h, Nat.add_zero]
    have hinner := erspanInner_i h
    rw [← hlen, ← hinner.length]
    exact ⟨_, _, hinner, rfl⟩
  · rw [h, if_neg (show ¬UInt8.ofNat (1 + 1) = 1 by decide),
      if_pos (show UInt8.ofNat (1 + 1) = 2 from rfl)]
    dsimp only
    generalize Packet.tag _ = tag
    have hlen : r.innerLen = GRE_HEADER_LEN + GRE_OPTION_LEN + ERSPAN_II_HEADER_LEN := by
      rw [Erspan.innerLen, if_neg (by omega), if_pos h, Nat.add_assoc]
    have hinner := erspanInner_ii h option.toNat (tag.elim 0 (· / 8192))
    rw [List.append_assoc, List.append_assoc, ← List.append_assoc (sfGreHeader true _), ← hlen,
      ← hinner.length]
    exact ⟨_, _, hinner, rfl⟩
  · rw [h, if_neg (show ¬UInt8.ofNat (2 + 1) = 1 by decide),
      if_neg (show ¬UInt8.ofNat (2 + 1) = 2 by decide),
      if_pos (show UInt8.ofNat (2 + 1) = 3 from rfl)]
    dsimp only
    generalize Packet.tag _ = tag
    have hlen : r.innerLen = GRE_HEADER_LEN + GRE_OPTION_LEN + ERSPAN_III_HEADER_LEN := by
      rw [Erspan.innerLen, if_neg (by omega), if_neg (by omega), Nat.add_assoc]
    have hinner := erspanInner_iii h option.toNat (tag.getD 0) (tag.elim 0 (· / 8192)) p.clock.toNat
    rw [List.append_assoc, List.append_assoc, ← List.append_assoc (sfGreHeader true _), ← hlen,
      ← hinner.length]
    exact ⟨_, _, hinner, rfl⟩

theorem sfEncapErspan_encapsulates {r : Erspan} (option : UInt32)
    (hencap : (getActionPtrNocheck d p).additionalActions = e.toAdditional)
    (hr : e.erspan = some r) : ∃ h, Encapsulates d e .erspan p h (sfEncapErspan d option p).2 := by
  have htunnel : e.toAdditional.erspan = r.outer.toTunnel := by
    rw [Encapsulations.toAdditional, hr]
    rfl
  have herspan : sfEncapErspan d option p = encapErspanProc (outerBytes d
      (d.interfaces p.interfaceId) r.outer IP_PRO_GRE) e.toAdditional option p := by
    rw [sfEncapErspan, hencap, htunnel]
    exact dispatch_outer (fun outer => encapErspanProc outer e.toAdditional option p) (option, p)
  obtain ⟨inner, size, hinner, hgets⟩ := @encapErspanProc_gets e p r
    (outerBytes d (d.interfaces p.interfaceId) r.outer IP_PRO_GRE) option hr
  rw [herspan]
  refine Encapsulates.of_gets (.inr ⟨size, hgets⟩) ?_ fun h _ hh => ⟨r, hr, inner, hinner, hh⟩
  rw [Encapsulations.size, hr, hinner.length]
  rfl

/-- The nodes of the encapsulations that are switched on, in the order of the list. -/
def Encapsulations.nodes (e : Encapsulations) : List Node :=
  (if e.erspan.isSome then [.erspan] else []) ++ (if e.vxlan.isSome then [.vxlan] else []) ++
    (if e.gre.isSome then [.gre] else [])

theorem mem_nodes {n : Node} : n ∈ e.nodes ↔ match n with
    | .gre => e.gre.isSome
    | .vxlan => e.vxlan.isSome
    | .erspan => e.erspan.isSome := by
  rw [Encapsulations.nodes]
  cases n <;> cases e.gre.isSome <;> cases e.vxlan.isSome <;> cases e.erspan.isSome <;> decide

/-- Every node that is switched on has a header. -/
theorem Node.encap_encapsulates {n : Node} (option : UInt32)
    (hencap : (getActionPtrNocheck d p).additionalActions = e.toAdditional) (hn : n ∈ e.nodes) :
    ∃ h, Encapsulates d e n p h (n.encap d option p).2 := by
  have hn := mem_nodes.mp hn
  cases n with
  | gre =>
      obtain ⟨o, ho⟩ := Option.isSome_iff_exists.mp hn
      exact sfEncapGre_encapsulates hencap ho
  | vxlan =>
      obtain ⟨v, hv⟩ := Option.isSome_iff_exists.mp hn
      exact sfEncapVxlan_encapsulates hencap hv
  | erspan =>
      obtain ⟨r, hr⟩ := Option.isSome_iff_exists.mp hn
      exact sfEncapErspan_encapsulates option hencap hr

end Tapplet.Actions
