import Tapplet.Net.Decode

/-!
# Frames

Frames as data, and their bytes on the wire: any number of VLAN tags, an IPv4 header with options
or an IPv6 header with extension headers, and a TCP or UDP header or one of another protocol. What
the decoding nodes make of the bytes is compared with the data they were made from.
-/

namespace Tapplet.Net

open Reass (ipv6FragHeaderLen)

/-! ## Bytes behind a pointer -/

/-- The bytes behind the pointer begin with these. -/
def Bytes.Starts (p : Bytes) : List UInt8 → Prop
  | [] => True
  | b :: l => p 0 = b ∧ (p.skip 1).Starts l

@[simp] theorem Bytes.starts_nil (p : Bytes) : p.Starts [] := trivial

@[simp] theorem Bytes.starts_cons (p : Bytes) (b : UInt8) (l : List UInt8) :
    p.Starts (b :: l) ↔ p 0 = b ∧ (p.skip 1).Starts l := Iff.rfl

theorem Bytes.skip_skip (p : Bytes) (m n : Nat) : (p.skip m).skip n = p.skip (m + n) := by
  funext i
  simp only [skip_apply, Nat.add_assoc]

@[simp] theorem Bytes.skip_zero (p : Bytes) : p.skip 0 = p := by
  funext i
  rw [skip_apply, Nat.zero_add]

theorem Bytes.starts_append {p : Bytes} {l l' : List UInt8} :
    p.Starts (l ++ l') ↔ p.Starts l ∧ (p.skip l.length).Starts l' := by
  induction l generalizing p with
  | nil => simp
  | cons b l ih =>
      rw [List.cons_append, starts_cons, starts_cons, ih, skip_skip, List.length_cons,
        Nat.add_comm 1, and_assoc]

theorem Bytes.starts_getElem {p : Bytes} {l : List UInt8} (h : p.Starts l) (i : Nat)
    (hi : i < l.length) : p i = l[i] := by
  induction l generalizing p i with
  | nil => exact absurd hi (Nat.not_lt_zero i)
  | cons b l ih =>
      obtain ⟨hhead, htail⟩ := h
      cases i with
      | zero => exact hhead
      | succ i =>
          rw [List.getElem_cons_succ, ← ih htail i (Nat.lt_of_succ_lt_succ hi), skip_apply,
            Nat.add_comm]

/-! ## Headers -/

/-- A VLAN tag, in front of which is its own type. -/
structure Tag where
  qinq : Bool
  tci : Vector UInt8 2

/-- The type that announces the tag. -/
def Tag.type (t : Tag) : List UInt8 := if t.qinq then [0x88, 0xa8] else [0x81, 0x00]

/-- The types and tags in front of a network header. -/
def stackBytes (type : List UInt8) : List Tag → List UInt8
  | [] => type
  | t :: tags => t.type ++ t.tci.toList ++ stackBytes type tags

/-- An IPv4 header. Fields of more than one byte are in network order. -/
structure Ip4 where
  tos : UInt8
  totalLen : Vector UInt8 2
  ident : Vector UInt8 2
  fragment : Vector UInt8 2
  ttl : UInt8
  checksum : Vector UInt8 2
  srcIp : Vector UInt8 4
  dstIp : Vector UInt8 4
  options : List (Vector UInt8 4)
  few : options.length ≤ 10

def Ip4.headerLen (h : Ip4) : Nat := 20 + 4 * h.options.length

def Ip4.bytes (h : Ip4) (protocol : UInt8) : List UInt8 :=
  [UInt8.ofNat (0x45 + h.options.length), h.tos] ++ h.totalLen.toList ++ h.ident.toList ++
    h.fragment.toList ++ [h.ttl, protocol] ++ h.checksum.toList ++ h.srcIp.toList ++
    h.dstIp.toList ++ h.options.flatMap (·.toList)

/-- The header is that of a fragment. -/
def Ip4.isFrag (h : Ip4) : Bool :=
  (h.fragment[0] >>> 5) &&& 1 ≠ 0 || h.fragment[1] ≠ 0 || h.fragment[0] &&& 0x1f ≠ 0

/-- A number of two bytes in network order. -/
def number16 (v : Vector UInt8 2) : UInt16 := .ofNat (256 * v[0].toNat + v[1].toNat)

/-- An IPv6 extension header that the decoder passes. A fragment header that is passed is that of
a packet in one piece. -/
inductive Extension where
  | ext (kind units : UInt8) (data : List UInt8) (isExt : IsExt kind)
      (length_eq : data.length + 2 = (extHdrLen kind units).toNat)
  | whole (reserved : UInt8) (ident : Vector UInt8 4)

def Extension.kind : Extension → UInt8
  | .ext kind _ _ _ _ => kind
  | .whole _ _ => IP_PRO_IPV6_FRAG

def Extension.bytes (next : UInt8) : Extension → List UInt8
  | .ext _ units data _ _ => next :: units :: data
  | .whole reserved ident => [next, reserved, 0, 0] ++ ident.toList

/-- The kind of the next header in front of these. -/
def nextKind (protocol : UInt8) : List Extension → UInt8
  | [] => protocol
  | e :: _ => e.kind

def extensionBytes (protocol : UInt8) : List Extension → List UInt8
  | [] => []
  | e :: es => e.bytes (nextKind protocol es) ++ extensionBytes protocol es

/-- The header of a fragment that is not the whole packet. -/
structure Ip6Fragment where
  reserved : UInt8
  offset : Vector UInt8 2
  ident : Vector UInt8 4
  part : offset[1] &&& 1 ≠ 0 ∨ offset[0].toNat * 32 + offset[1].toNat / 8 ≠ 0

def Ip6Fragment.bytes (h : Ip6Fragment) (protocol : UInt8) : List UInt8 :=
  [protocol, h.reserved] ++ h.offset.toList ++ h.ident.toList

structure Ip6 where
  flow : Vector UInt8 4
  payloadLen : Vector UInt8 2
  hopLimit : UInt8
  srcIp : Vector UInt8 16
  dstIp : Vector UInt8 16
  extensions : List Extension
  fragment : Option Ip6Fragment

/-- The extension headers, up to the one of a fragment. -/
def Ip6.chain (h : Ip6) (protocol : UInt8) : List UInt8 :=
  match h.fragment with
  | none => extensionBytes protocol h.extensions
  | some fragment => extensionBytes IP_PRO_IPV6_FRAG h.extensions ++ fragment.bytes protocol

/-- The kind of the header behind the fixed one. -/
def Ip6.nextHeader (h : Ip6) (protocol : UInt8) : UInt8 :=
  nextKind (if h.fragment.isSome then IP_PRO_IPV6_FRAG else protocol) h.extensions

def Ip6.bytes (h : Ip6) (protocol : UInt8) : List UInt8 :=
  h.flow.toList ++ h.payloadLen.toList ++ [h.nextHeader protocol, h.hopLimit] ++
    h.srcIp.toList ++ h.dstIp.toList ++ h.chain protocol

inductive Upper where
  | udp (srcPort dstPort : Vector UInt8 2) (rest : Vector UInt8 4)
  | tcp (srcPort dstPort : Vector UInt8 2) (numbers : Vector UInt8 8) (reserved : Fin 16)
      (rest : Vector UInt8 7) (options : List (Vector UInt8 4)) (few : options.length ≤ 10)
  | other (protocol : UInt8) (isOther : protocol ≠ IP_PRO_UDP ∧ protocol ≠ IP_PRO_TCP)

def Upper.protocol : Upper → UInt8
  | .udp .. => IP_PRO_UDP
  | .tcp .. => IP_PRO_TCP
  | .other protocol _ => protocol

def Upper.headerLen : Upper → Nat
  | .udp .. => 8
  | .tcp _ _ _ _ _ options _ => 20 + 4 * options.length
  | .other .. => 0

def Upper.bytes : Upper → List UInt8
  | .udp srcPort dstPort rest => srcPort.toList ++ dstPort.toList ++ rest.toList
  | .tcp srcPort dstPort numbers reserved rest options _ =>
      srcPort.toList ++ dstPort.toList ++ numbers.toList ++
        [UInt8.ofNat (16 * (5 + options.length) + reserved)] ++ rest.toList ++
        options.flatMap (·.toList)
  | .other .. => []

inductive Ip where
  | v4 (h : Ip4)
  | v6 (h : Ip6)

def Ip.type : Ip → List UInt8
  | .v4 _ => [0x08, 0x00]
  | .v6 _ => [0x86, 0xdd]

def Ip.bytes (protocol : UInt8) : Ip → List UInt8
  | .v4 h => h.bytes protocol
  | .v6 h => h.bytes protocol

def Ip.isFrag : Ip → Bool
  | .v4 h => h.isFrag
  | .v6 h => h.fragment.isSome

/-- The header can have this one behind it. An IPv6 header is told from an extension header by its
protocol, and is looked for in the packet; an extension header that ends with the packet is taken
for an error. -/
def Ip.Carries (content : List UInt8) (protocol : UInt8) : Ip → Prop
  | .v4 _ => True
  | .v6 h => protocol ≠ IP_PRO_INVALID ∧
      (h.fragment = none → protocol ≠ IP_PRO_IPV6_FRAG ∧ ¬ IsExt protocol) ∧
      (h.chain protocol ≠ [] → content ≠ [])

structure Frame where
  dmac : Vector UInt8 6
  smac : Vector UInt8 6
  tags : List Tag
  ip : Ip
  upper : Upper
  payload : List UInt8
  carries : ip.Carries (upper.bytes ++ payload) upper.protocol

def Frame.bytes (f : Frame) : List UInt8 :=
  f.dmac.toList ++ f.smac.toList ++ stackBytes f.ip.type f.tags ++ f.ip.bytes f.upper.protocol ++
    (f.upper.bytes ++ f.payload)

/-- Where the IP header is. -/
def Frame.ipOffset (f : Frame) : Nat := ETH_HEADER_LEN + VLAN_HEADER_LEN * f.tags.length

/-! ## Lengths -/

theorem length_flatMap_words (words : List (Vector UInt8 4)) :
    (words.flatMap (·.toList)).length = 4 * words.length := by
  induction words with
  | nil => rfl
  | cons word words ih =>
      rw [List.flatMap_cons, List.length_append, ih, Vector.length_toList, List.length_cons]
      omega

theorem Tag.length_type (t : Tag) : t.type.length = 2 := by
  unfold type
  split
  next => rfl
  next => rfl

theorem length_stackBytes (type : List UInt8) (tags : List Tag) :
    (stackBytes type tags).length = VLAN_HEADER_LEN * tags.length + type.length := by
  induction tags with
  | nil => simp [stackBytes]
  | cons t tags ih =>
      rw [stackBytes, List.length_append, List.length_append, ih, t.length_type,
        Vector.length_toList, List.length_cons, VLAN_HEADER_LEN]
      omega

theorem Ip4.length_bytes (h : Ip4) (protocol : UInt8) :
    (h.bytes protocol).length = h.headerLen := by
  simp only [bytes, headerLen, List.length_append, List.length_cons, List.length_nil,
    Vector.length_toList, length_flatMap_words]

theorem Upper.length_bytes (u : Upper) : u.bytes.length = u.headerLen := by
  cases u with
  | udp => simp only [bytes, headerLen, List.length_append, Vector.length_toList]
  | tcp =>
      simp only [bytes, headerLen, List.length_append, List.length_cons, List.length_nil,
        Vector.length_toList, length_flatMap_words]
  | other => rfl

/-! ## The walk over the tags -/

/-- A type as it is loaded. -/
def loadType (a b : UInt8) : UInt16 := a.toUInt16 ||| b.toUInt16 <<< 8

theorem Bytes.u16_of_starts {p : Bytes} {a b : UInt8} {l : List UInt8}
    (h : p.Starts (a :: b :: l)) : p.u16 0 = loadType a b := by
  obtain ⟨ha, hb, -⟩ := h
  rw [u16, ha, ← hb]
  rfl

theorem Tag.isTag_of_starts {p : Bytes} {t : Tag} {l : List UInt8} (h : p.Starts (t.type ++ l)) :
    IsTag (p.u16 0) := by
  unfold type at h
  split at h
  next =>
    rw [Bytes.u16_of_starts h]
    decide
  next =>
    rw [Bytes.u16_of_starts h]
    decide

/-- The tags that are written are the ones that are there. -/
theorem tagStack_of_starts {a b : UInt8} (hnot : ¬ IsTag (loadType a b)) {t : Tag}
    {tags : List Tag} {p : Bytes} (h : p.Starts (stackBytes [a, b] (t :: tags))) :
    TagStack (p.skip 2) (tags.length + 1) (loadType a b) := by
  induction tags generalizing t p with
  | nil =>
      rw [stackBytes, Bytes.starts_append, List.length_append, t.length_type,
        Vector.length_toList] at h
      have htype : (p.skip 2).tagType = loadType a b := Bytes.u16_of_starts h.2
      rw [← htype] at hnot ⊢
      exact .last hnot
  | cons t' tags ih =>
      rw [stackBytes, Bytes.starts_append, List.length_append, t.length_type,
        Vector.length_toList] at h
      have hrest := h.2
      have htag : IsTag (p.skip 2).tagType := by
        rw [stackBytes, List.append_assoc] at hrest
        exact Tag.isTag_of_starts hrest
      refine .outer htag ?_
      have hstack := ih hrest
      rw [Bytes.skip_skip] at hstack ⊢
      exact hstack

/-! ## The walk over the extension headers -/

/-- An extension header is left behind. -/
theorem Extension.next_of_starts {p : Bytes} {e : Extension} {next protocol : UInt8} {o o' : Nat}
    (h : (p.skip o).Starts (e.bytes next))
    (hrest : Chain p next (o + (e.bytes next).length) protocol o') :
    Chain p e.kind o protocol o' := by
  cases e with
  | ext kind units data isExt length_eq =>
      obtain ⟨hnext, hunits, -⟩ := h
      have hfrag : kind ≠ IP_PRO_IPV6_FRAG := by
        rintro rfl
        exact not_isExt_frag isExt
      have hnext : p o = next := hnext
      have hunits : (p.skip o) 1 = units := hunits
      have hlen := extensionLen_ext hfrag isExt (p.skip o)
      rw [hunits, ← length_eq] at hlen
      rw [← hnext] at hrest
      exact .next hlen (fun h => hfrag h.1) hrest
  | whole reserved ident =>
      obtain ⟨hnext, -, hhigh, hlow, -⟩ := h
      have hnext : p o = next := hnext
      have hhigh : (p.skip o) 2 = 0 := hhigh
      have hlow : (p.skip o) 3 = 0 := hlow
      have hlength : (bytes next (.whole reserved ident)).length = ipv6FragHeaderLen := by
        simp only [bytes, List.length_append, List.length_cons, List.length_nil,
          Vector.length_toList]
        rfl
      rw [hlength, ← hnext] at hrest
      refine .next (extensionLen_frag _) ?_ hrest
      rintro ⟨-, hpart⟩
      rw [Fragmenting, ip6fFlags, Reass.getIp6FragOffset, hhigh, hlow] at hpart
      exact absurd hpart (by decide)

theorem chain_of_starts {p : Bytes} {protocol : UInt8} {es : List Extension} {o : Nat}
    (h : (p.skip o).Starts (extensionBytes protocol es)) :
    Chain p (nextKind protocol es) o protocol (o + (extensionBytes protocol es).length) := by
  induction es generalizing o with
  | nil => exact .here protocol o
  | cons e es ih =>
      rw [extensionBytes, Bytes.starts_append, Bytes.skip_skip] at h
      rw [extensionBytes, List.length_append, ← Nat.add_assoc]
      exact e.next_of_starts h.1 (ih h.2)

theorem toList_two (v : Vector UInt8 2) : v.toList = [v[0], v[1]] := by
  obtain ⟨⟨bytes⟩, hsize⟩ := v
  match bytes, hsize with
  | [a, b], rfl => rfl

theorem Ip6Fragment.length_bytes (h : Ip6Fragment) (protocol : UInt8) :
    (h.bytes protocol).length = ipv6FragHeaderLen := by
  simp only [bytes, List.length_append, List.length_cons, List.length_nil, Vector.length_toList]
  rfl

theorem Ip6Fragment.fragmenting_of_starts {p : Bytes} {h : Ip6Fragment} {protocol : UInt8}
    {l : List UInt8} (hstarts : p.Starts (h.bytes protocol ++ l)) :
    p 0 = protocol ∧ Fragmenting p := by
  rw [bytes, toList_two] at hstarts
  obtain ⟨hprotocol, -, hhigh, hlow, -⟩ := hstarts
  have hhigh : p 2 = h.offset[0] := hhigh
  have hlow : p 3 = h.offset[1] := hlow
  refine ⟨hprotocol, ?_⟩
  rw [Fragmenting, ip6fFlags, Reass.getIp6FragOffset, hhigh, hlow]
  exact h.part

/-- The extension headers that are written are the ones that are there. -/
theorem Ip6.chainEnd {p : Bytes} {h : Ip6} {protocol : UInt8}
    (hupper : h.fragment = none → protocol ≠ IP_PRO_IPV6_FRAG ∧ ¬ IsExt protocol)
    (hstarts : (p.skip IPV6_HEADER_LEN).Starts (h.chain protocol)) :
    ChainEnd p (h.nextHeader protocol) IPV6_HEADER_LEN protocol
      (IPV6_HEADER_LEN + (h.chain protocol).length) h.fragment.isSome := by
  cases hfragment : h.fragment with
  | none =>
      obtain ⟨hfrag, hext⟩ := hupper hfragment
      simp only [chain, nextHeader, hfragment] at hstarts ⊢
      exact .upper (chain_of_starts hstarts) (extensionLen_none hfrag hext _)
  | some fragment =>
      simp only [chain, nextHeader, hfragment] at hstarts ⊢
      rw [Bytes.starts_append, Bytes.skip_skip] at hstarts
      obtain ⟨hchain, hhead⟩ := hstarts
      obtain ⟨hprotocol, hpart⟩ :=
        Ip6Fragment.fragmenting_of_starts (l := []) (by rwa [List.append_nil])
      have hend := ChainEnd.fragment (chain_of_starts hchain) hpart
      rw [List.length_append, fragment.length_bytes, ← Nat.add_assoc, ← hprotocol]
      exact hend

end Tapplet.Net
