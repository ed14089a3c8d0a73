import Tapplet.Net.Decoding
import Tapplet.Reass.Packet

/-!
# The IPv6 extension headers

`parse_ipv6_hdr` follows the chain of extension headers up to the first header that is none, or
past the first fragment header of a real fragment. It is compared with the chain as it lies in
the packet, and the place of the fragment header with the place where the reassembly looks.
-/

namespace Tapplet.Net

open Reass (getIp6FragOffset ipv6FragHeaderLen)

/-- `ip6f_flags` of the fragment header at this place. -/
def ip6fFlags (p : Bytes) (f : Nat) : UInt8 := p (f + 3) &&& 1

/-- The kinds with an `ipv6_ext_t`. -/
def IsExt (protocol : UInt8) : Prop :=
  protocol = IP_PRO_AH ∨ protocol = IP_PRO_HOPOPT ∨ protocol = IP_PRO_ROUTING ∨
    protocol = IP_PRO_DSTOPTS

instance (protocol : UInt8) : Decidable (IsExt protocol) :=
  inferInstanceAs (Decidable (_ ∨ _ ∨ _ ∨ _))

/-- `ext_hdr_len` -/
def extHdrLen (protocol : UInt8) (hdrLen : UInt8) : UInt16 :=
  if protocol = IP_PRO_AH then (hdrLen.toUInt16 + 2) <<< 2 else (hdrLen.toUInt16 + 1) <<< 3

/-- The variables of `parse_ipv6_hdr`. `preData` is counted from `ipv6_hdr`. -/
structure Ip6Walk where
  protocol : UInt8
  preData : Nat
  leftLen : UInt16
  hdrLen : UInt16
  isFrag : Bool

/-- Over a header of this length, to the next one. -/
def Ip6Walk.over (w : Ip6Walk) (nextHeader : UInt8) (length : UInt16) : Ip6Walk :=
  { w with
    protocol := nextHeader
    preData := w.preData + length.toNat
    leftLen := w.leftLen - length
    hdrLen := w.hdrLen + length }

def Ip6Walk.invalid (w : Ip6Walk) : Ip6Walk := { w with protocol := IP_PRO_INVALID }

/-- An extension header has a length. -/
theorem extHdrLen_toNat (protocol hdrLen : UInt8) :
    (extHdrLen protocol hdrLen).toNat =
      if protocol = IP_PRO_AH then (hdrLen.toNat + 2) * 4 else (hdrLen.toNat + 1) * 8 := by
  have hlt := UInt8.toNat_lt hdrLen
  rw [extHdrLen]
  split
  next =>
    simp only [UInt16.toNat_shiftLeft, UInt16.toNat_add, UInt8.toNat_toUInt16, UInt16.reduceToNat,
      Nat.shiftLeft_eq, Nat.reduceMod, Nat.reducePow]
    omega
  next =>
    simp only [UInt16.toNat_shiftLeft, UInt16.toNat_add, UInt8.toNat_toUInt16, UInt16.reduceToNat,
      Nat.shiftLeft_eq, Nat.reduceMod, Nat.reducePow]
    omega

theorem extHdrLen_pos (protocol hdrLen : UInt8) : 8 ≤ (extHdrLen protocol hdrLen).toNat := by
  rw [extHdrLen_toNat]
  split
  next => omega
  next => omega

/-- A header in front of the end is left behind. -/
theorem Ip6Walk.over_leftLen {w : Ip6Walk} {l : UInt16} (nextHeader : UInt8)
    (h : ¬ w.leftLen ≤ l) :
    (w.over nextHeader l).leftLen.toNat = w.leftLen.toNat - l.toNat := by
  rw [UInt16.le_iff_toNat_le] at h
  exact UInt16.toNat_sub_of_le _ _ (UInt16.le_iff_toNat_le.mpr (Nat.le_of_not_le h))

/-- A header that has a length makes the rest shorter. -/
theorem Ip6Walk.over_lt {w : Ip6Walk} {l : UInt16} (nextHeader : UInt8)
    (hpos : 0 < l.toNat) (h : ¬ w.leftLen ≤ l) :
    (w.over nextHeader l).leftLen.toNat < w.leftLen.toNat := by
  rw [over_leftLen nextHeader h]
  rw [UInt16.le_iff_toNat_le] at h
  omega

/-- The loop of `parse_ipv6_hdr`. -/
def ip6Loop (d : Decoding) (w : Ip6Walk) : Decoding × Ip6Walk :=
  let hdr := d.wdata.current.skip w.preData
  if w.protocol = IP_PRO_IPV6_FRAG then
    if w.leftLen ≤ 8 then (d, w.invalid)
    else
      let d' := (d.read w.preData 1).read (w.preData + 2) 2
      let w' := w.over (hdr 0) 8
      if ip6fFlags hdr 0 ≠ 0 ∨ getIp6FragOffset hdr 0 ≠ 0 then (d', { w' with isFrag := true })
      else ip6Loop d' w'
  else if IsExt w.protocol then
    let d' := d.read w.preData 2
    if w.leftLen ≤ extHdrLen w.protocol (hdr 1) then (d', w.invalid)
    else ip6Loop d' (w.over (hdr 0) (extHdrLen w.protocol (hdr 1)))
  else (d, w)
termination_by w.leftLen.toNat
decreasing_by
  · exact w.over_lt _ (l := 8) (by decide) ‹_›
  · exact w.over_lt _ (Nat.lt_of_lt_of_le (by decide) (extHdrLen_pos ..)) ‹_›

/-- `parse_ipv6_hdr`. Both callers hand in `is_frag` as 0 and a `hdr_len` without a value. -/
def parseIpv6Hdr (d : Decoding) : Decoding × Ip6Walk :=
  let left := d.wdata.currentLength
  if left < 40 then
    (d.update (·.setError), ⟨IP_PRO_INVALID, 0, left, 0, false⟩)
  else
    let walk := ip6Loop (d.read 6 1)
      ⟨d.wdata.current.ip6NextHeader, IPV6_HEADER_LEN, left - 40, 40, false⟩
    (if walk.2.protocol = IP_PRO_INVALID then walk.1.update (·.setError) else walk.1, walk.2)

/-! ## The chain in the packet -/

/-- The length of an extension header. Other headers have none. -/
def extensionLen (kind : UInt8) (hdr : Bytes) : Option Nat :=
  if kind = IP_PRO_IPV6_FRAG then some ipv6FragHeaderLen
  else if kind = IP_PRO_AH then some (((hdr 1).toNat + 2) * 4)
  else if IsExt kind then some (((hdr 1).toNat + 1) * 8)
  else none

/-- The fragment header of a real fragment. -/
def Fragmenting (hdr : Bytes) : Prop := ip6fFlags hdr 0 ≠ 0 ∨ getIp6FragOffset hdr 0 ≠ 0

/-- From a header of one kind the extension headers lead to one of another kind, and none of
those between is that of a real fragment. -/
inductive Chain (p : Bytes) : UInt8 → Nat → UInt8 → Nat → Prop where
  | here (kind : UInt8) (o : Nat) : Chain p kind o kind o
  | next {kind kind' : UInt8} {o o' n : Nat} (hlen : extensionLen kind (p.skip o) = some n)
      (hwhole : ¬ (kind = IP_PRO_IPV6_FRAG ∧ Fragmenting (p.skip o)))
      (hrest : Chain p (p o) (o + n) kind' o') : Chain p kind o kind' o'

/-- Where the chain ends: in front of the first header that is no extension header, or behind
the fragment header of a real fragment. -/
inductive ChainEnd (p : Bytes) (kind : UInt8) (o : Nat) : UInt8 → Nat → Bool → Prop where
  | upper {protocol : UInt8} {hdrLen : Nat} (hchain : Chain p kind o protocol hdrLen)
      (hupper : extensionLen protocol (p.skip hdrLen) = none) :
      ChainEnd p kind o protocol hdrLen false
  | fragment {f : Nat} (hchain : Chain p kind o IP_PRO_IPV6_FRAG f)
      (hfrag : Fragmenting (p.skip f)) :
      ChainEnd p kind o (p f) (f + ipv6FragHeaderLen) true

/-- One more header in front. -/
theorem ChainEnd.next {p : Bytes} {kind protocol : UInt8} {o n hdrLen : Nat} {isFrag : Bool}
    (hlen : extensionLen kind (p.skip o) = some n)
    (hwhole : ¬ (kind = IP_PRO_IPV6_FRAG ∧ Fragmenting (p.skip o)))
    (h : ChainEnd p (p o) (o + n) protocol hdrLen isFrag) :
    ChainEnd p kind o protocol hdrLen isFrag := by
  cases h with
  | upper hchain hupper => exact .upper (.next hlen hwhole hchain) hupper
  | fragment hchain hfrag => exact .fragment (.next hlen hwhole hchain) hfrag

/-- A chain does not lead back. -/
theorem Chain.le {p : Bytes} {kind kind' : UInt8} {o o' : Nat} (h : Chain p kind o kind' o') :
    o ≤ o' := by
  induction h with
  | here => exact Nat.le_refl _
  | next _ _ _ ih => exact Nat.le_trans (Nat.le_add_right _ _) ih

theorem ChainEnd.start_le {p : Bytes} {kind protocol : UInt8} {o hdrLen : Nat} {isFrag : Bool}
    (h : ChainEnd p kind o protocol hdrLen isFrag) : o ≤ hdrLen := by
  cases h with
  | upper hchain _ => exact hchain.le
  | fragment hchain _ => exact Nat.le_trans hchain.le (Nat.le_add_right _ _)

/-- Where no extension header is, the chain ends. -/
theorem ChainEnd.of_none {p : Bytes} {kind protocol : UInt8} {o hdrLen : Nat} {isFrag : Bool}
    (h : ChainEnd p kind o protocol hdrLen isFrag) (hnone : extensionLen kind (p.skip o) = none) :
    protocol = kind ∧ hdrLen = o ∧ isFrag = false := by
  cases h with
  | upper hchain _ =>
      cases hchain with
      | here => exact ⟨rfl, rfl, rfl⟩
      | next hlen => exact absurd (hlen.symm.trans hnone) (by simp)
  | fragment hchain _ =>
      cases hchain with
      | here => exact absurd hnone (by simp [extensionLen])
      | next hlen => exact absurd (hlen.symm.trans hnone) (by simp)

/-- The chain ends behind the header where it is now, or later. -/
theorem ChainEnd.le {p : Bytes} {kind protocol : UInt8} {o n hdrLen : Nat} {isFrag : Bool}
    (h : ChainEnd p kind o protocol hdrLen isFrag) (hlen : extensionLen kind (p.skip o) = some n) :
    o + n ≤ hdrLen := by
  cases h with
  | upper hchain hupper =>
      cases hchain with
      | here => exact absurd (hlen.symm.trans hupper) (by simp)
      | next hlen' _ hrest =>
          obtain rfl := Option.some.inj (hlen.symm.trans hlen')
          exact hrest.le
  | fragment hchain _ =>
      cases hchain with
      | here =>
          obtain rfl : n = ipv6FragHeaderLen := Option.some.inj hlen.symm
          exact Nat.le_refl _
      | next hlen' _ hrest =>
          obtain rfl := Option.some.inj (hlen.symm.trans hlen')
          exact Nat.le_trans hrest.le (Nat.le_add_right _ _)

/-- At a real fragment the chain ends. -/
theorem ChainEnd.of_fragment {p : Bytes} {protocol : UInt8} {o hdrLen : Nat} {isFrag : Bool}
    (h : ChainEnd p IP_PRO_IPV6_FRAG o protocol hdrLen isFrag) (hfrag : Fragmenting (p.skip o)) :
    protocol = p o ∧ hdrLen = o + ipv6FragHeaderLen ∧ isFrag = true := by
  cases h with
  | upper hchain hupper =>
      cases hchain with
      | here => exact absurd hupper (by simp [extensionLen])
      | next _ hwhole => exact absurd ⟨rfl, hfrag⟩ hwhole
  | fragment hchain _ =>
      cases hchain with
      | here => exact ⟨rfl, rfl, rfl⟩
      | next _ hwhole => exact absurd ⟨rfl, hfrag⟩ hwhole

/-- Otherwise it ends where the chain behind the header ends. -/
theorem ChainEnd.rest {p : Bytes} {kind protocol : UInt8} {o n hdrLen : Nat} {isFrag : Bool}
    (h : ChainEnd p kind o protocol hdrLen isFrag) (hlen : extensionLen kind (p.skip o) = some n)
    (hwhole : ¬ (kind = IP_PRO_IPV6_FRAG ∧ Fragmenting (p.skip o))) :
    ChainEnd p (p o) (o + n) protocol hdrLen isFrag := by
  cases h with
  | upper hchain hupper =>
      cases hchain with
      | here => exact absurd (hlen.symm.trans hupper) (by simp)
      | next hlen' _ hrest =>
          obtain rfl := Option.some.inj (hlen.symm.trans hlen')
          exact .upper hrest hupper
  | fragment hchain hfrag =>
      cases hchain with
      | here => exact absurd ⟨rfl, hfrag⟩ hwhole
      | next hlen' _ hrest =>
          obtain rfl := Option.some.inj (hlen.symm.trans hlen')
          exact .fragment hrest hfrag

theorem extensionLen_frag (hdr : Bytes) :
    extensionLen IP_PRO_IPV6_FRAG hdr = some ipv6FragHeaderLen := rfl

/-- The code computes the length of the other extension headers in 16 bits. -/
theorem extensionLen_ext {kind : UInt8} (hfrag : kind ≠ IP_PRO_IPV6_FRAG) (hext : IsExt kind)
    (hdr : Bytes) : extensionLen kind hdr = some (extHdrLen kind (hdr 1)).toNat := by
  rw [extensionLen, if_neg hfrag, extHdrLen_toNat, if_pos hext]
  split
  next => rfl
  next => rfl

theorem extensionLen_none {kind : UInt8} (hfrag : kind ≠ IP_PRO_IPV6_FRAG) (hext : ¬ IsExt kind)
    (hdr : Bytes) : extensionLen kind hdr = none := by
  rw [extensionLen, if_neg hfrag, if_neg fun hah => hext (.inl hah), if_neg hext]

/-! ## The walk -/

/-- The variables agree about where the walk is in a packet of this length. -/
structure Ip6Walk.At (w : Ip6Walk) (length : Nat) : Prop where
  place : w.preData = w.hdrLen.toNat
  rest : w.hdrLen.toNat + w.leftLen.toNat = length

theorem Ip6Walk.At.over {w : Ip6Walk} {total : UInt16} (h : w.At total.toNat) {l : UInt16}
    (nextHeader : UInt8) (hlength : ¬ w.leftLen ≤ l) :
    (w.over nextHeader l).At total.toNat := by
  have hleft := w.over_leftLen nextHeader hlength
  have htotal := UInt16.toNat_lt total
  have hrest := h.rest
  rw [UInt16.le_iff_toNat_le] at hlength
  have hsum : (w.hdrLen + l).toNat = w.hdrLen.toNat + l.toNat := by
    rw [UInt16.toNat_add]
    exact Nat.mod_eq_of_lt (by omega)
  constructor
  · exact (congrArg (· + l.toNat) h.place).trans hsum.symm
  · have hhdr : (w.over nextHeader l).hdrLen.toNat = w.hdrLen.toNat + l.toNat := hsum
    omega

/-- The packet goes on behind a header that is accepted. -/
theorem Ip6Walk.At.lt {w : Ip6Walk} {total : Nat} (h : w.At total) {l : UInt16}
    (hlength : ¬ w.leftLen ≤ l) : w.preData + l.toNat < total := by
  rw [UInt16.le_iff_toNat_le] at hlength
  rw [h.place, ← h.rest]
  omega

/-- It ends with a header that is not, or before. -/
theorem Ip6Walk.At.le {w : Ip6Walk} {total : Nat} (h : w.At total) {l : UInt16}
    (hlength : w.leftLen ≤ l) : total ≤ w.preData + l.toNat := by
  rw [UInt16.le_iff_toNat_le] at hlength
  rw [h.place, ← h.rest]
  omega

/-- Where the walk stops, unless it gives up. -/
theorem ip6Loop_ends {d : Decoding} {w : Ip6Walk} (hat : w.At d.wdata.currentLength.toNat)
    (hnew : w.isFrag = false) :
    ((ip6Loop d w).2.protocol = IP_PRO_INVALID ∧ (ip6Loop d w).2.isFrag = false) ∨
      ChainEnd d.wdata.current w.protocol w.preData (ip6Loop d w).2.protocol
        (ip6Loop d w).2.hdrLen.toNat (ip6Loop d w).2.isFrag ∧
      ((ip6Loop d w).2.hdrLen.toNat = w.preData ∨
        (ip6Loop d w).2.hdrLen.toNat < d.wdata.currentLength.toNat) := by
  fun_induction ip6Loop d w with
  | case1 => exact .inl ⟨rfl, hnew⟩
  | case2 d w hdr hfrag hlength d' w' hstop =>
      have hover := hat.over (hdr 0) (l := 8) hlength
      have hplace : (w.over (hdr 0) 8).hdrLen.toNat = w.preData + ipv6FragHeaderLen :=
        hover.place.symm
      refine .inr ⟨?_, .inr (Nat.lt_of_le_of_lt (Nat.le_of_eq hplace) ?_)⟩
      · show ChainEnd _ w.protocol w.preData (hdr 0) (w.over (hdr 0) 8).hdrLen.toNat true
        rw [hplace, hfrag]
        exact .fragment (.here ..) hstop
      · exact hat.lt (l := 8) hlength
  | case3 d w hdr hfrag hlength d' w' hgo ih =>
      have hlen : extensionLen w.protocol hdr = some 8 := hfrag ▸ extensionLen_frag hdr
      obtain hinvalid | ⟨hend, hplace⟩ := ih (hat.over (hdr 0) (l := 8) hlength) hnew
      · exact .inl hinvalid
      · refine .inr ⟨hend.next hlen fun h => hgo h.2, .inr ?_⟩
        obtain heq | hlt := hplace
        · rw [heq]
          exact hat.lt (l := 8) hlength
        · exact hlt
  | case4 => exact .inl ⟨rfl, hnew⟩
  | case5 d w hdr hfrag hext d' hlength ih =>
      obtain hinvalid | ⟨hend, hplace⟩ := ih (hat.over (hdr 0) hlength) hnew
      · exact .inl hinvalid
      · refine .inr ⟨hend.next (extensionLen_ext hfrag hext hdr) fun h => hfrag h.1, .inr ?_⟩
        obtain heq | hlt := hplace
        · rw [heq]
          exact hat.lt hlength
        · exact hlt
  | case6 d w hfrag hext =>
      refine .inr ⟨?_, .inl hat.place.symm⟩
      rw [hnew, ← hat.place]
      exact .upper (.here ..) (extensionLen_none hfrag hext _)

/-- A chain with a header that does not end in front of the end of the packet is given up. -/
theorem ip6Loop_beyond {d : Decoding} {w : Ip6Walk} (hat : w.At d.wdata.currentLength.toNat)
    {kind : UInt8} {o n : Nat} (hchain : Chain d.wdata.current w.protocol w.preData kind o)
    (hlen : extensionLen kind (d.wdata.current.skip o) = some n)
    (hbeyond : d.wdata.currentLength.toNat ≤ o + n) :
    (ip6Loop d w).2.protocol = IP_PRO_INVALID := by
  fun_induction ip6Loop d w with
  | case1 => rfl
  | case2 d w hdr hfrag hlength d' w' hstop =>
      cases hchain with
      | here =>
          obtain rfl : ipv6FragHeaderLen = n :=
            Option.some.inj ((hfrag ▸ extensionLen_frag hdr).symm.trans hlen)
          exact absurd (hat.lt (l := 8) hlength) (Nat.not_lt_of_le hbeyond)
      | next _ hwhole => exact absurd ⟨hfrag, hstop⟩ hwhole
  | case3 d w hdr hfrag hlength d' w' hgo ih =>
      have hover := hat.over (hdr 0) (l := 8) hlength
      cases hchain with
      | here =>
          obtain rfl : ipv6FragHeaderLen = n :=
            Option.some.inj ((hfrag ▸ extensionLen_frag hdr).symm.trans hlen)
          exact absurd (hat.lt (l := 8) hlength) (Nat.not_lt_of_le hbeyond)
      | next hlen' _ hrest =>
          obtain rfl : _ = ipv6FragHeaderLen :=
            Option.some.inj (hlen'.symm.trans (hfrag ▸ extensionLen_frag hdr))
          exact ih hover hrest hlen hbeyond
  | case4 => rfl
  | case5 d w hdr hfrag hext d' hlength ih =>
      have hover := hat.over (hdr 0) hlength
      cases hchain with
      | here =>
          obtain rfl := Option.some.inj ((extensionLen_ext hfrag hext hdr).symm.trans hlen)
          exact absurd (hat.lt hlength) (Nat.not_lt_of_le hbeyond)
      | next hlen' _ hrest =>
          obtain rfl := Option.some.inj (hlen'.symm.trans (extensionLen_ext hfrag hext hdr))
          exact ih hover hrest hlen hbeyond
  | case6 d w hfrag hext =>
      cases hchain with
      | here => exact absurd (hlen.symm.trans (extensionLen_none hfrag hext _)) (by simp)
      | next hlen' => exact absurd (hlen'.symm.trans (extensionLen_none hfrag hext _)) (by simp)

/-- Behind a header the end of the chain is no longer where it was. -/
theorem lt_of_behind {total o n hdrLen : Nat} (hn : 8 ≤ n) (hle : o + n ≤ hdrLen)
    (h : hdrLen = o ∨ hdrLen < total) : hdrLen < total := by
  omega

/-- A chain of which no header ends with the packet or behind it is walked to its end. -/
theorem ip6Loop_accepts {d : Decoding} {w : Ip6Walk} (hat : w.At d.wdata.currentLength.toNat)
    (hnew : w.isFrag = false) {protocol : UInt8} {hdrLen : Nat} {isFrag : Bool}
    (hend : ChainEnd d.wdata.current w.protocol w.preData protocol hdrLen isFrag)
    (hinside : hdrLen = w.preData ∨ hdrLen < d.wdata.currentLength.toNat) :
    (ip6Loop d w).2.protocol = protocol ∧ (ip6Loop d w).2.hdrLen.toNat = hdrLen ∧
      (ip6Loop d w).2.isFrag = isFrag := by
  fun_induction ip6Loop d w with
  | case1 d w hfrag hlength =>
      have hle := hend.le (hfrag ▸ extensionLen_frag _)
      have hshort := hat.le (l := 8) hlength
      exact absurd (Nat.le_trans hshort hle)
        (Nat.not_le_of_lt (lt_of_behind (by decide) hle hinside))
  | case2 d w hdr hfrag hlength d' w' hstop =>
      rw [hfrag] at hend
      obtain ⟨rfl, rfl, rfl⟩ := hend.of_fragment hstop
      exact ⟨rfl, (hat.over (hdr 0) (l := 8) hlength).place.symm, rfl⟩
  | case3 d w hdr hfrag hlength d' w' hgo ih =>
      have hrest := hend.rest (hfrag ▸ extensionLen_frag hdr) fun h => hgo h.2
      have hle := hend.le (hfrag ▸ extensionLen_frag hdr)
      have hlt := lt_of_behind (by decide) hle hinside
      exact ih (hat.over (hdr 0) (l := 8) hlength) hnew hrest (.inr hlt)
  | case4 d w hdr hfrag hext d' hlength =>
      have hle := hend.le (extensionLen_ext hfrag hext hdr)
      have hlt := lt_of_behind (extHdrLen_pos ..) hle hinside
      exact absurd (Nat.le_trans (hat.le hlength) hle) (Nat.not_le_of_lt hlt)
  | case5 d w hdr hfrag hext d' hlength ih =>
      have hrest := hend.rest (extensionLen_ext hfrag hext hdr) fun h => hfrag h.1
      have hle := hend.le (extensionLen_ext hfrag hext hdr)
      have hlt := lt_of_behind (extHdrLen_pos ..) hle hinside
      exact ih (hat.over (hdr 0) hlength) hnew hrest (.inr hlt)
  | case6 d w hfrag hext =>
      obtain ⟨rfl, rfl, rfl⟩ := hend.of_none (extensionLen_none hfrag hext _)
      exact ⟨rfl, hat.place.symm, hnew⟩

/-- What the walk over the headers of a packet finds. -/
structure WalkExact (d : Decoding) : Prop where
  /-- An accepted chain is walked to its end, which lies in the packet. -/
  ends : (parseIpv6Hdr d).2.protocol ≠ IP_PRO_INVALID →
    ChainEnd d.wdata.current d.wdata.current.ip6NextHeader IPV6_HEADER_LEN
      (parseIpv6Hdr d).2.protocol (parseIpv6Hdr d).2.hdrLen.toNat (parseIpv6Hdr d).2.isFrag ∧
    (parseIpv6Hdr d).2.hdrLen.toNat ≤ d.wdata.currentLength.toNat
  /-- A chain of which no header ends with the packet or behind it is accepted. -/
  accepts : ∀ protocol hdrLen isFrag,
    ChainEnd d.wdata.current d.wdata.current.ip6NextHeader IPV6_HEADER_LEN protocol hdrLen isFrag →
    hdrLen = IPV6_HEADER_LEN ∨ hdrLen < d.wdata.currentLength.toNat →
    (parseIpv6Hdr d).2.protocol = protocol ∧ (parseIpv6Hdr d).2.hdrLen.toNat = hdrLen ∧
      (parseIpv6Hdr d).2.isFrag = isFrag
  /-- The fragment header is where `ip6_frag_proc` looks for it. -/
  fragment : (parseIpv6Hdr d).2.isFrag = true →
    ∃ f, f + ipv6FragHeaderLen = (parseIpv6Hdr d).2.hdrLen.toNat ∧
      Chain d.wdata.current d.wdata.current.ip6NextHeader IPV6_HEADER_LEN IP_PRO_IPV6_FRAG f ∧
      Fragmenting (d.wdata.current.skip f)
  /-- A chain that goes on beyond the packet is reported. -/
  beyond : ∀ kind o n,
    Chain d.wdata.current d.wdata.current.ip6NextHeader IPV6_HEADER_LEN kind o →
    extensionLen kind (d.wdata.current.skip o) = some n → d.wdata.currentLength.toNat < o + n →
    (parseIpv6Hdr d).2.protocol = IP_PRO_INVALID ∧ (parseIpv6Hdr d).1.wdata.packetError = true

/-- The walk starts behind the fixed header. -/
theorem Ip6Walk.at_start {left : UInt16} (h : 40 ≤ left.toNat) (nextHeader : UInt8) :
    Ip6Walk.At ⟨nextHeader, IPV6_HEADER_LEN, left - 40, 40, false⟩ left.toNat := by
  refine ⟨rfl, ?_⟩
  have hsub : (left - 40).toNat = left.toNat - 40 :=
    UInt16.toNat_sub_of_le _ _ (UInt16.le_iff_toNat_le.mpr h)
  show 40 + (left - 40).toNat = left.toNat
  omega

/-- The loop starts behind the fixed header. -/
theorem parseIpv6Hdr_walk {d : Decoding} (h : 40 ≤ d.wdata.currentLength.toNat) :
    (parseIpv6Hdr d).2 = (ip6Loop (d.read 6 1) ⟨d.wdata.current.ip6NextHeader, IPV6_HEADER_LEN,
      d.wdata.currentLength - 40, 40, false⟩).2 := by
  have hlength : ¬ d.wdata.currentLength < 40 := by
    rw [UInt16.lt_iff_toNat_lt]
    exact Nat.not_lt_of_le h
  rw [parseIpv6Hdr, if_neg hlength]

/-- An accepted chain is walked to its end. -/
theorem parseIpv6Hdr_ends {d : Decoding} (h : 40 ≤ d.wdata.currentLength.toNat) :
    ((parseIpv6Hdr d).2.protocol = IP_PRO_INVALID ∧ (parseIpv6Hdr d).2.isFrag = false) ∨
      ChainEnd d.wdata.current d.wdata.current.ip6NextHeader IPV6_HEADER_LEN
        (parseIpv6Hdr d).2.protocol (parseIpv6Hdr d).2.hdrLen.toNat (parseIpv6Hdr d).2.isFrag ∧
      ((parseIpv6Hdr d).2.hdrLen.toNat = IPV6_HEADER_LEN ∨
        (parseIpv6Hdr d).2.hdrLen.toNat < d.wdata.currentLength.toNat) := by
  rw [parseIpv6Hdr_walk h]
  exact ip6Loop_ends (d := d.read 6 1) (Ip6Walk.at_start h _) rfl

/-- The error bit goes with the invalid protocol. -/
theorem parseIpv6Hdr_error {d : Decoding} (h : (parseIpv6Hdr d).2.protocol = IP_PRO_INVALID) :
    (parseIpv6Hdr d).1.wdata.packetError = true := by
  rw [parseIpv6Hdr] at h ⊢
  split
  next => rfl
  next hlength =>
    rw [if_neg hlength] at h
    show (if _ then _ else _ : Decoding).wdata.packetError = true
    rw [if_pos h]
    rfl

/-- Walking the headers is exact for every packet with a fixed header. -/
theorem parseIpv6Hdr_exact (d : Decoding) (h : 40 ≤ d.wdata.currentLength.toNat) :
    WalkExact d := by
  have hstart := Ip6Walk.at_start h d.wdata.current.ip6NextHeader
  have hwalk := parseIpv6Hdr_ends h
  refine ⟨fun hvalid => ?_, fun protocol hdrLen isFrag hend hinside => ?_, fun hisFrag => ?_,
    fun kind o n hchain hlen hbeyond => ?_⟩
  · obtain ⟨hinvalid, _⟩ | ⟨hend, hplace⟩ := hwalk
    · exact absurd hinvalid hvalid
    · refine ⟨hend, ?_⟩
      obtain heq | hlt := hplace
      · rw [heq]
        exact h
      · exact Nat.le_of_lt hlt
  · rw [parseIpv6Hdr_walk h]
    exact ip6Loop_accepts (d := d.read 6 1) hstart rfl hend hinside
  · obtain ⟨_, hnot⟩ | ⟨hend, _⟩ := hwalk
    · exact absurd (hnot.symm.trans hisFrag) (by decide)
    · rw [hisFrag] at hend
      generalize (parseIpv6Hdr d).2.hdrLen.toNat = hdrLen at hend ⊢
      generalize (parseIpv6Hdr d).2.protocol = protocol at hend
      cases hend with
      | fragment hchain hfrag => exact ⟨_, rfl, hchain, hfrag⟩
  · have hinvalid : (parseIpv6Hdr d).2.protocol = IP_PRO_INVALID := by
      rw [parseIpv6Hdr_walk h]
      exact ip6Loop_beyond (d := d.read 6 1) hstart hchain hlen (Nat.le_of_lt hbeyond)
    exact ⟨hinvalid, parseIpv6Hdr_error hinvalid⟩

/-- A piece of a UDP packet behind hop-by-hop options: the fragment header is the second one. -/
def pieceHeaders : Bytes := fun i =>
  if i = 6 then IP_PRO_HOPOPT else if i = 40 then IP_PRO_IPV6_FRAG
  else if i = 48 then IP_PRO_UDP else if i = 51 then 1 else 0

theorem parseIpv6Hdr_exact_piece :
    40 ≤ (Decoding.start pieceHeaders 14 100).wdata.currentLength.toNat ∧
      WalkExact (Decoding.start pieceHeaders 14 100) :=
  ⟨by decide, parseIpv6Hdr_exact _ (by decide)⟩

end Tapplet.Net
