import Mathlib.Tactic.Common

/-!
# Packet headers

`common_header.h`: the headers of a packet as they lie in a buffer. A header is read through a
pointer, which is the bytes from there on. Fields of more than one byte are in network order in
the packet and are loaded with the low byte first; the constants are written in that order too.
-/

namespace Tapplet.Net

/-- The bytes behind a pointer. -/
abbrev Bytes := Nat → UInt8

/-- Pointer arithmetic. -/
def Bytes.skip (p : Bytes) (n : Nat) : Bytes := fun i => p (n + i)

def Bytes.u16 (p : Bytes) (i : Nat) : UInt16 := (p i).toUInt16 ||| (p (i + 1)).toUInt16 <<< 8

def Bytes.u32 (p : Bytes) (i : Nat) : UInt32 :=
  (p.u16 i).toUInt32 ||| (p.u16 (i + 2)).toUInt32 <<< 16

def Bytes.u64 (p : Bytes) (i : Nat) : UInt64 :=
  (p.u32 i).toUInt64 ||| (p.u32 (i + 4)).toUInt64 <<< 32

/-- `clib_net_to_host_u16` -/
def netToHost16 (x : UInt16) : UInt16 := x >>> 8 ||| x <<< 8

@[simp] theorem Bytes.skip_apply (p : Bytes) (n i : Nat) : p.skip n i = p (n + i) := rfl

@[simp] theorem Bytes.skip_u16 (p : Bytes) (n i : Nat) : (p.skip n).u16 i = p.u16 (n + i) := rfl

/-! ## Ethernet and VLAN -/

def ETHER_INVALID_TYPE : UInt16 := 0
def ETHER_VLAN_NET_ORDER : UInt16 := 0x0081
def ETHER_QINQ_NET_ORDER : UInt16 := 0xa888
def ETHER_IPV4_NET_ORDER : UInt16 := 0x0008
def ETHER_IPV6_NET_ORDER : UInt16 := 0xdd86

def ETH_HEADER_LEN : Nat := 14
def VLAN_HEADER_LEN : Nat := 4

/-- `eth_type` of an Ethernet header. -/
def Bytes.ethType (p : Bytes) : UInt16 := p.u16 12

/-- `eth_type` of a VLAN tag. -/
def Bytes.tagType (p : Bytes) : UInt16 := p.u16 2

/-- A type that announces a tag. -/
def IsTag (ethType : UInt16) : Prop :=
  ethType = ETHER_VLAN_NET_ORDER ∨ ethType = ETHER_QINQ_NET_ORDER

instance (ethType : UInt16) : Decidable (IsTag ethType) := inferInstanceAs (Decidable (_ ∨ _))

/-! ## IP -/

def IPV4_HEADER_LEN : Nat := 20
def IPV6_HEADER_LEN : Nat := 40

def IP_PRO_HOPOPT : UInt8 := 0
def IP_PRO_TCP : UInt8 := 6
def IP_PRO_UDP : UInt8 := 17
def IP_PRO_ROUTING : UInt8 := 43
def IP_PRO_IPV6_FRAG : UInt8 := 44
def IP_PRO_AH : UInt8 := 51
def IP_PRO_DSTOPTS : UInt8 := 60
def IP_PRO_INVALID : UInt8 := 0xff

/-- The fields of `ipv4_header_t` that are read. -/
def Bytes.ip4HeaderLen (p : Bytes) : UInt8 := p 0 &&& 0xf
def Bytes.ip4TotalLen (p : Bytes) : UInt16 := p.u16 2
def Bytes.ip4Protocol (p : Bytes) : UInt8 := p 9
def Bytes.ip4SrcIp (p : Bytes) : UInt32 := p.u32 12
def Bytes.ip4DstIp (p : Bytes) : UInt32 := p.u32 16

/-- `ip4_is_frag` -/
def Bytes.ip4IsFrag (p : Bytes) : Bool := (p 6 >>> 5) &&& 1 ≠ 0 || p 7 ≠ 0 || p 6 &&& 0x1f ≠ 0

/-- The fields of `ipv6_header_t` that are read. An address is two words. -/
def Bytes.ip6PayloadLen (p : Bytes) : UInt16 := p.u16 4
def Bytes.ip6NextHeader (p : Bytes) : UInt8 := p 6
def Bytes.ip6SrcIp (p : Bytes) : UInt64 × UInt64 := (p.u64 8, p.u64 16)
def Bytes.ip6DstIp (p : Bytes) : UInt64 × UInt64 := (p.u64 24, p.u64 32)

/-! ## TCP and UDP -/

def TCP_HEADER_LEN : Nat := 20
def UDP_HEADER_LEN : Nat := 8

/-- The fields of `sf_tcp_header_t` that are read. The ports of `sf_udp_header_t` are in the same
place. -/
def Bytes.srcPort (p : Bytes) : UInt16 := p.u16 0
def Bytes.dstPort (p : Bytes) : UInt16 := p.u16 2
def Bytes.tcpHdrLen (p : Bytes) : UInt8 := p 12 >>> 4

end Tapplet.Net
