import Tapplet.Lib.OnesComplement
import Tapplet.Reass.Order

/-!
# The built packet as a datagram

What the header of a built packet that is to be sent on says about the packet. The build function
of the node clears the fragment fields of the header that it copied, and `update_ip_reass_pkt`
updates the lengths and the checksum. The first goes by the IP version of the node, the second by
that of the header. The key has no IP version, so the header may be one of the other version.
-/

namespace Tapplet.Reass

open Linked GenericHash SfTimer Transition Patch OnesComplement

variable {env : Env} {nenv : NodeEnv} {S : System} {es : List Event} {v : Version}
  {f : Fragment} {fs : List Fragment} {p : Reassembled} {huge : Option Block}

/-! ## Headers -/

/-- A 16-bit field in network byte order. -/
def net16 (u : View) (i : Nat) : Nat := (u i).toNat * 256 + (u (i + 1)).toNat

/-- The 16-bit fields of the first `n` bytes. -/
def netWords (u : View) (n : Nat) : List Nat := (List.range (n / 2)).map fun j => net16 u (2 * j)

/-- The words of an IPv4 header in host byte order, with a checksum of 0. -/
def checksumWords (u : View) : List Nat :=
  (List.range (2 * ((u 0).toNat % 16))).map fun j => if j = 5 then 0 else load16 u (2 * j)

/-- `ip4_header_checksum` returns the complement of the sum of the header. Where that is 0 and the
header has the checksum 65535 it may return this one, which stands for the same sum. -/
def ChecksumComplements (env : Env) : Prop :=
  ∀ u : View, 5 ≤ (u 0).toNat % 16 →
    env.ip4HeaderChecksum u = 65535 - sum (checksumWords u) ∨
      env.ip4HeaderChecksum u = 65535 ∧ sum (checksumWords u) = 65535 ∧ load16 u 10 = 65535

/-- What the decoding nodes promise of a fragment: its metadata are about the header, which has
its whole length, and the header is the one of a fragment. -/
structure Decoded (f : Fragment) : Prop where
  frame : f.wdata.l2HdrOffset ≤ f.before
  ip4 : f.version = .ip4 → f.wdata.ipWdata.version = 4 ∧ 20 ≤ f.hdrLen ∧
    f.hdrLen = 4 * ((f.view 0).toNat % 16) ∧
    (getIp4HdrFlag f.view % 2 = 1 ∨ getIp4HdrOffset f.view ≠ 0)
  ip6 : f.version = .ip6 → f.wdata.ipWdata.version = 6 ∧ 48 ≤ f.hdrLen ∧
    ((f.view (f.hdrLen - ipv6FragHeaderLen + 3)).toNat % 2 = 1 ∨
      getIp6FragOffset f.view (f.hdrLen - ipv6FragHeaderLen) ≠ 0)

/-- The packet in its huge buffer, from the data pointer on. -/
def Reassembled.bytes (p : Reassembled) : List UInt8 := p.header ++ p.payload

/-- The packet from the byte `before` on. -/
def Reassembled.view (p : Reassembled) (before : Nat) : View := fun i => p.bytes.getD (before + i) 0

/-- The IPv4 header is that of `f`, for a datagram with `size` bytes of payload. -/
structure Ip4HeaderFor (f : Fragment) (size : Nat) (u : View) : Prop where
  totalLen : net16 u 2 = f.hdrLen + size
  checksum : Verifies (netWords u f.hdrLen)
  flags : getIp4HdrFlag u = 0
  offset : getIp4HdrOffset u = 0
  others : ∀ i < f.hdrLen, i ∉ [2, 3, 6, 7, 10, 11] → u i = f.view i

/-- The IPv6 header with its extension headers is that of `f`, for a datagram with `size` bytes
of payload. Of byte 3 of the fragment header the reserved bits are left. -/
structure Ip6HeaderFor (f : Fragment) (size : Nat) (u : View) : Prop where
  payloadLen : net16 u 4 = f.hdrLen + size - 40
  flag : (u (f.hdrLen - ipv6FragHeaderLen + 3)).toNat % 2 = 0
  offset : getIp6FragOffset u (f.hdrLen - ipv6FragHeaderLen) = 0
  reserved : (u (f.hdrLen - ipv6FragHeaderLen + 3)).toNat / 2 % 4 =
    (f.view (f.hdrLen - ipv6FragHeaderLen + 3)).toNat / 2 % 4
  others : ∀ i < f.hdrLen, i ∉ [4, 5, f.hdrLen - ipv6FragHeaderLen + 2,
    f.hdrLen - ipv6FragHeaderLen + 3] → u i = f.view i

/-- The packet is a datagram with the header of `f` and `size` bytes of payload, at which
decoding continues. -/
structure WellFormed (f : Fragment) (size : Nat) (p : Reassembled) : Prop where
  bytes : p.bytes.length = f.before + f.hdrLen + size
  resetData : p.wdata.reset.currentData = f.wdata.l2HdrOffset
  resetLength : p.wdata.reset.currentLength = f.before - f.wdata.l2HdrOffset + f.hdrLen + size
  ip4 : f.version = .ip4 → Ip4HeaderFor f size (p.view f.before)
  ip6 : f.version = .ip6 → Ip6HeaderFor f size (p.view f.before)
  current : p.wdata.currentData = f.before + f.hdrLen
  currentLength : p.wdata.currentLength = size
  payloadLen : p.wdata.ipWdata.payloadLen = size

/-! ## Fields that were written -/

theorem load16_put16 {g : Nat → UInt8} {k x : Nat} (hx : x < 2 ^ 16) :
    load16 (fun i => put16 g k x i) k = x := by
  have h0 : put16 g k x k = UInt8.ofNat (x / 256 ^ 0) := @patch_add _ g k 2 0 _ (by omega)
  have h1 : put16 g k x (k + 1) = UInt8.ofNat (x / 256 ^ 1) := patch_add (by omega)
  rw [load16, h0, h1, UInt8.toNat_ofNat', UInt8.toNat_ofNat']
  omega

theorem net16_eq_swap (u : View) (i : Nat) : net16 u i = swap (load16 u i) := by
  have hlow := (u i).toNat_lt
  have hhigh := (u (i + 1)).toNat_lt
  rw [net16, load16, swap]
  omega

/-- A number that is written in network byte order. -/
theorem net16_put16 {g : Nat → UInt8} {k n : Nat} (hn : n < 2 ^ 16) :
    net16 (fun i => put16 g k (n % 256 * 256 + n / 256) i) k = n := by
  rw [net16_eq_swap, load16_put16 (by omega), swap]
  omega

theorem net16_congr {u u' : View} {i : Nat} (h : u i = u' i) (h' : u (i + 1) = u' (i + 1)) :
    net16 u i = net16 u' i := by
  rw [net16, net16, h, h']

theorem load16_congr {u u' : View} {i : Nat} (h : u i = u' i) (h' : u (i + 1) = u' (i + 1)) :
    load16 u i = load16 u' i := by
  rw [load16, load16, h, h']

theorem netWords_eq (u : View) (n : Nat) :
    netWords u n = ((List.range (n / 2)).map fun j => load16 u (2 * j)).map swap := by
  rw [netWords, List.map_map]
  exact List.map_congr_left fun j _ => net16_eq_swap u (2 * j)

/-- The updated IPv4 header, by its own bytes. -/
theorem updatedBytes_ip4 {w : IpWdata} (hv : w.version = 4) (g : Nat → UInt8) (before : Nat) :
    ∃ u : View, u = put16 (fun i => g (before + i)) 2
        ((w.headerLen + w.payloadLen) % 2 ^ 16 % 256 * 256 +
        (w.headerLen + w.payloadLen) % 2 ^ 16 / 256) ∧
      ∀ i, updatedBytes env w g before (before + i) = put16 u 10 (env.ip4HeaderChecksum u) i := by
  refine ⟨_, rfl, fun i => ?_⟩
  have hshift : ∀ (g : Nat → UInt8) k x, (fun i => put16 g (before + k) x (before + i)) =
      put16 (fun i => g (before + i)) k x := fun g k x => funext fun i => patch_shift before
  rw [updatedBytes, if_pos hv, hshift]
  exact (congrFun (hshift _ 10 _) i).trans (by rw [hshift])

/-- The updated IPv6 header, by its own bytes. -/
theorem updatedBytes_ip6 {w : IpWdata} (hv : w.version ≠ 4) (g : Nat → UInt8) (before i : Nat) :
    updatedBytes env w g before (before + i) = put16 (fun i => g (before + i)) 4
      ((w.headerLen + w.payloadLen + 2 ^ 16 - 40) % 2 ^ 16 % 256 * 256 +
        (w.headerLen + w.payloadLen + 2 ^ 16 - 40) % 2 ^ 16 / 256) i := by
  rw [updatedBytes, if_neg hv]
  exact patch_shift before

/-! ## The header of the first fragment with its fragment fields cleared -/

theorem headByte_ip4_cleared {i : Nat} (h : i = 6 ∨ i = 7) :
    f.headByte .ip4 (f.before + i) = 0 := by
  rw [Fragment.headByte, clearedBytes, patch, if_pos (by omega)]

theorem headByte_ip4_kept {i : Nat} (h6 : i ≠ 6) (h7 : i ≠ 7) :
    f.headByte .ip4 (f.before + i) = f.view i := by
  rw [Fragment.headByte, clearedBytes, patch, if_neg (by omega)]
  rfl

section Ip6

variable {k : Nat} (hk : f.hdrLen - ipv6FragHeaderLen = k)
include hk

theorem headByte_ip6_offset : f.headByte .ip6 (f.before + (k + 2)) = 0 := by
  rw [Fragment.headByte, clearedBytes, hk]
  rw [patch_of_lt (by omega), patch, if_pos (by omega)]

theorem headByte_ip6_flag : f.headByte .ip6 (f.before + (k + 3)) =
    UInt8.ofNat ((f.view (k + 3)).toNat / 2 % 4 * 2) := by
  rw [Fragment.headByte, clearedBytes, hk]
  rw [patch, if_pos (by omega), Nat.add_assoc]
  rfl

theorem headByte_ip6_kept {i : Nat} (h2 : i ≠ k + 2) (h3 : i ≠ k + 3) :
    f.headByte .ip6 (f.before + i) = f.view i := by
  rw [Fragment.headByte, clearedBytes, hk]
  rw [patch, if_neg (by omega), patch, if_neg (by omega)]
  rfl

end Ip6

/-! ## The built packet -/

section Assembled

variable (hp : Assembled env v huge fs p) (hf : fs.head? = some f) (alloc : huge ≠ none)
include hp hf alloc

/-- The bytes of the packet are those that were built. -/
theorem Assembled.view_eq : ∃ old, p.bytes.length = f.before + f.hdrLen + meetLen fs ∧
    ∀ i < f.hdrLen, p.view f.before i = builtBytes env v f fs old (f.before + i) := by
  obtain ⟨-, -, old, hheader, hpayload⟩ := hp.bytes hf alloc
  refine ⟨old, ?_, fun i hi => ?_⟩
  · rw [Reassembled.bytes, List.length_append, hheader, hpayload]
    simp
  · have hlt : f.before + i < p.header.length := by
      rw [hheader]
      simpa using hi
    rw [Reassembled.view, Reassembled.bytes, List.getD_eq_getElem?_getD,
      List.getElem?_append_left hlt,
      hheader, List.getElem?_map, List.getElem?_range (by omega)]
    rfl

/-- The bytes of the header that are not updated. -/
theorem Assembled.view_kept (long : 8 ≤ f.hdrLen) {i : Nat} (hi : i < f.hdrLen)
    (hrw : f.before + i ∉ rewritten f) : p.view f.before i = f.headByte v (f.before + i) := by
  obtain ⟨old, -, hview⟩ := hp.view_eq hf alloc
  rw [hview i hi]
  exact builtBytes_head long (by omega) hrw

end Assembled

/-- The words of an IPv4 header with a checksum that complements them. -/
theorem verifies_put16 (complements : ChecksumComplements env) {u w : View} {n : Nat}
    (long : 20 ≤ n) (exact : n = 4 * ((u 0).toNat % 16))
    (same : ∀ i < n, w i = put16 u 10 (env.ip4HeaderChecksum u) i) : Verifies (netWords w n) := by
  have hhalf : 2 * ((u 0).toNat % 16) = n / 2 := by omega
  have hsum := complements u (by omega)
  obtain ⟨x, hx⟩ : ∃ x, x = env.ip4HeaderChecksum u := ⟨_, rfl⟩
  rw [← hx] at hsum same
  have hx16 : x < 2 ^ 16 := by omega
  have hwords : ∀ j < n / 2, (if j = 5 then 0 else load16 w (2 * j)) =
      if j = 5 then 0 else load16 u (2 * j) := by
    intro j hj
    by_cases h5 : j = 5
    · rw [if_pos h5, if_pos h5]
    · rw [if_neg h5, if_neg h5]
      apply load16_congr
      · rw [same _ (by omega), put16_of_ne (by omega) (by omega)]
      · rw [same _ (by omega), put16_of_ne (by omega) (by omega)]
  have hfield : load16 w (2 * 5) = x := by
    have hput : load16 (fun i => put16 u 10 x i) 10 = x := load16_put16 hx16
    rw [← hput]
    exact load16_congr (same 10 (by omega)) (same 11 (by omega))
  rw [netWords_eq]
  have hshort : ∀ y ∈ (List.range (n / 2)).map fun j => load16 w (2 * j), y < 2 ^ 16 := by
    intro y hy
    obtain ⟨j, -, rfl⟩ := List.mem_map.mp hy
    exact Fragment.load16_lt _ _
  have hshort' : ∀ y ∈ checksumWords u, y < 2 ^ 16 := by
    intro y hy
    obtain ⟨j, -, rfl⟩ := List.mem_map.mp hy
    split
    · omega
    · exact Fragment.load16_lt _ _
  have htotal : ((List.range (n / 2)).map fun j => load16 w (2 * j)).sum =
      (checksumWords u).sum + x := by
    rw [sum_take_out (fun j => load16 w (2 * j)) (show 5 < n / 2 by omega), hfield, checksumWords,
      hhalf]
    congr 2
    exact List.map_congr_left fun j hj => hwords j (List.mem_range.mp hj)
  exact (verifies_of_complement hshort hshort' htotal (by omega)).swap hshort

section Matching

variable (alloc : huge ≠ none) (hf : fs.head? = some f) (decoded : Decoded f)
  (output : f.output ≠ 0) (fits : f.hdrLen + meetLen fs < 2 ^ 16)
include alloc hf decoded output fits

theorem Assembled.ip4Header (complements : ChecksumComplements env)
    (hp : Assembled env .ip4 huge fs p) (hv : f.version = .ip4) :
    Ip4HeaderFor f (meetLen fs) (p.view f.before) := by
  obtain ⟨hversion, hlong, hexact, -⟩ := decoded.ip4 hv
  have hrewritten : rewritten f =
      [f.before + 2, f.before + 3, f.before + 10, f.before + 11] := by
    rw [rewritten, if_neg output, if_pos hversion]
  have hkept : ∀ i < f.hdrLen, i ∉ [2, 3, 10, 11] →
      p.view f.before i = f.headByte .ip4 (f.before + i) := by
    intro i hi hmem
    apply hp.view_kept hf alloc (by omega) hi
    simp only [hrewritten, List.mem_cons, List.not_mem_nil, or_false, not_or] at hmem ⊢
    omega
  have hcleared : ∀ i, i = 6 ∨ i = 7 → p.view f.before i = 0 := fun i hi => by
    rw [hkept i (by omega) (by simp; omega)]
    exact headByte_ip4_cleared hi
  obtain ⟨old, -, hview⟩ := hp.view_eq hf alloc
  obtain ⟨u, hu, hupdated⟩ := @updatedBytes_ip4 env (builtIpWdata f fs) hversion
    (laidBytes .ip4 f fs old) f.before
  have hbytes : ∀ i < f.hdrLen, p.view f.before i = put16 u 10 (env.ip4HeaderChecksum u) i := by
    intro i hi
    rw [hview i hi, ← hupdated, builtBytes, if_pos output]
  have hfirst : u 0 = f.view 0 := by
    have h0 := hbytes 0 (by omega)
    rw [put16_of_ne (by omega) (by omega), hkept 0 (by omega) (by simp),
      headByte_ip4_kept (by omega) (by omega)] at h0
    exact h0.symm
  constructor
  · have hlength : net16 u 2 = f.hdrLen + meetLen fs := by
      rw [hu]
      simp only [builtIpWdata_headerLen, builtIpWdata_payloadLen, Nat.mod_eq_of_lt fits]
      exact net16_put16 fits
    rw [← hlength]
    apply net16_congr
    · rw [hbytes 2 (by omega), put16_of_ne (by omega) (by omega)]
    · rw [hbytes 3 (by omega), put16_of_ne (by omega) (by omega)]
  · apply verifies_put16 complements hlong (u := u) (by rw [hfirst]; exact hexact) hbytes
  · rw [getIp4HdrFlag, hcleared 6 (by omega)]
    rfl
  · rw [getIp4HdrOffset, hcleared 6 (by omega), hcleared 7 (by omega)]
    rfl
  · intro i hi hmem
    simp only [List.mem_cons, List.not_mem_nil, or_false, not_or] at hmem
    rw [hkept i hi (by simp; omega), headByte_ip4_kept (by omega) (by omega)]

theorem Assembled.ip6Header (hp : Assembled env .ip6 huge fs p) (hv : f.version = .ip6) :
    Ip6HeaderFor f (meetLen fs) (p.view f.before) := by
  obtain ⟨hversion, hlong, -⟩ := decoded.ip6 hv
  have hne : f.wdata.ipWdata.version ≠ 4 := by omega
  obtain ⟨k, hk⟩ : ∃ k, f.hdrLen - ipv6FragHeaderLen = k := ⟨_, rfl⟩
  have hend : f.hdrLen = k + 8 := by
    rw [ipv6FragHeaderLen] at hk
    omega
  have hrewritten : rewritten f = [f.before + 4, f.before + 5] := by
    rw [rewritten, if_neg output, if_neg hne]
  have hkept : ∀ i < f.hdrLen, i ∉ [4, 5] →
      p.view f.before i = f.headByte .ip6 (f.before + i) := by
    intro i hi hmem
    apply hp.view_kept hf alloc (by omega) hi
    simp only [hrewritten, List.mem_cons, List.not_mem_nil, or_false, not_or] at hmem ⊢
    omega
  have hoffset : p.view f.before (k + 2) = 0 := by
    rw [hkept _ (by omega) (by simp; omega)]
    exact headByte_ip6_offset hk
  have hflag : p.view f.before (k + 3) = UInt8.ofNat ((f.view (k + 3)).toNat / 2 % 4 * 2) := by
    rw [hkept _ (by omega) (by simp; omega)]
    exact headByte_ip6_flag hk
  have hflagNat : (p.view f.before (k + 3)).toNat = (f.view (k + 3)).toNat / 2 % 4 * 2 := by
    rw [hflag, UInt8.toNat_ofNat']
    omega
  obtain ⟨old, -, hview⟩ := hp.view_eq hf alloc
  constructor
  · have hlength : (f.hdrLen + meetLen fs + 2 ^ 16 - 40) % 2 ^ 16 = f.hdrLen + meetLen fs - 40 := by
      omega
    have hfield : ∀ i < f.hdrLen, p.view f.before i =
        put16 (fun i => laidBytes .ip6 f fs old (f.before + i)) 4
          ((f.hdrLen + meetLen fs - 40) % 256 * 256 + (f.hdrLen + meetLen fs - 40) / 256) i := by
      intro i hi
      rw [hview i hi, builtBytes, if_pos output]
      have hupdated := @updatedBytes_ip6 env (builtIpWdata f fs) hne (laidBytes .ip6 f fs old)
        f.before i
      simp only [builtIpWdata_headerLen, builtIpWdata_payloadLen, hlength] at hupdated
      exact hupdated
    rw [net16_congr (hfield 4 (by omega)) (hfield 5 (by omega))]
    exact net16_put16 (by omega)
  · rw [hk, hflagNat]
    omega
  · rw [getIp6FragOffset, hk, hoffset, hflagNat]
    have hzero : (0 : UInt8).toNat = 0 := rfl
    omega
  · rw [hk, hflagNat]
    omega
  · intro i hi hmem
    rw [hk] at hmem
    simp only [List.mem_cons, List.not_mem_nil, or_false, not_or] at hmem
    rw [hkept i hi (by simp; omega), headByte_ip6_kept hk (by omega) (by omega)]

end Matching

/-! ## The header of the other version -/

section Mixed

variable (hf : fs.head? = some f) (alloc : huge ≠ none) (decoded : Decoded f)
include hf alloc decoded

/-- In an IPv4 header `ip6_frag_build_pkt` does not clear the flags and the offset. -/
theorem Assembled.not_ip4Header (hp : Assembled env .ip6 huge fs p) (hv : f.version = .ip4)
    (size : Nat) : ¬Ip4HeaderFor f size (p.view f.before) := by
  intro header
  obtain ⟨hversion, hlong, -, hfrag⟩ := decoded.ip4 hv
  have hkept : ∀ i, i = 6 ∨ i = 7 → p.view f.before i = f.view i := by
    intro i hi
    rw [hp.view_kept hf alloc (by omega) (by omega)]
    · apply headByte_ip6_kept rfl
      · rw [ipv6FragHeaderLen]
        omega
      · rw [ipv6FragHeaderLen]
        omega
    · rw [rewritten, if_pos hversion]
      split
      · exact List.not_mem_nil
      · simp only [List.mem_cons, List.not_mem_nil, or_false, not_or]
        omega
  have hflags := header.flags
  have hoffset := header.offset
  rw [getIp4HdrFlag, hkept 6 (.inl rfl), ← getIp4HdrFlag] at hflags
  rw [getIp4HdrOffset, hkept 6 (.inl rfl), hkept 7 (.inr rfl), ← getIp4HdrOffset] at hoffset
  omega

/-- In an IPv6 header `ip4_frag_build_pkt` does not clear the fragment header. -/
theorem Assembled.not_ip6Header (hp : Assembled env .ip4 huge fs p) (hv : f.version = .ip6)
    (size : Nat) : ¬Ip6HeaderFor f size (p.view f.before) := by
  intro header
  obtain ⟨hversion, hlong, hfrag⟩ := decoded.ip6 hv
  obtain ⟨k, hk⟩ : ∃ k, f.hdrLen - ipv6FragHeaderLen = k := ⟨_, rfl⟩
  have hend : f.hdrLen = k + 8 := by
    rw [ipv6FragHeaderLen] at hk
    omega
  have hkept : ∀ i, i = k + 2 ∨ i = k + 3 → p.view f.before i = f.view i := by
    intro i hi
    rw [hp.view_kept hf alloc (by omega) (by omega)]
    · exact headByte_ip4_kept (by omega) (by omega)
    · rw [rewritten, if_neg (by omega : ¬f.wdata.ipWdata.version = 4)]
      split
      · exact List.not_mem_nil
      · simp only [List.mem_cons, List.not_mem_nil, or_false, not_or]
        omega
  have hflag := header.flag
  have hoffset := header.offset
  rw [hk, hkept _ (.inr rfl)] at hflag
  rw [getIp6FragOffset, hk, hkept _ (.inl rfl), hkept _ (.inr rfl), ← getIp6FragOffset] at hoffset
  rw [hk] at hfrag
  omega

end Mixed

/-- An assembled packet is a datagram exactly when the fragment that came first has the IP version
of the node. -/
theorem Assembled.wellFormed_iff (complements : ChecksumComplements env)
    (hp : Assembled env v huge fs p) (hf : fs.head? = some f) (alloc : huge ≠ none)
    (decoded : Decoded f) (output : f.output ≠ 0)
    (fits : f.before + f.hdrLen + (fs.map Fragment.size).sum ≤ sfHugePktMaxDataSize) :
    WellFormed f (fs.map Fragment.size).sum p ↔ f.version = v := by
  have hmax : sfHugePktMaxDataSize < 2 ^ 16 := by decide
  have hmeet : meetLen fs = (fs.map Fragment.size).sum := Nat.mod_eq_of_lt (by omega)
  rw [← hmeet] at fits ⊢
  constructor
  · intro h
    cases hv : f.version with
    | ip4 =>
      cases v with
      | ip4 => rfl
      | ip6 => exact absurd (h.ip4 hv) (hp.not_ip4Header hf alloc decoded hv _)
    | ip6 =>
      cases v with
      | ip4 => exact absurd (h.ip6 hv) (hp.not_ip6Header hf alloc decoded hv _)
      | ip6 => rfl
  · intro hv
    obtain ⟨hwdata, -, -⟩ := hp.bytes hf alloc
    have hcurrent : p.wdata.currentData = f.before + f.hdrLen := by rw [hwdata]; rfl
    have hlength : p.wdata.currentLength = meetLen fs := by rw [hwdata]; rfl
    have hl2 : p.wdata.l2HdrOffset = f.wdata.l2HdrOffset := by rw [hwdata]; rfl
    have hframe := decoded.frame
    constructor
    · obtain ⟨-, hbytes, -⟩ := hp.view_eq hf alloc
      exact hbytes
    · exact hl2
    · rw [Wdata.reset, hcurrent, hlength, hl2]
      dsimp only
      omega
    · intro h4
      obtain rfl : v = .ip4 := hv.symm.trans h4
      exact Assembled.ip4Header alloc hf decoded output (by omega) complements hp h4
    · intro h6
      obtain rfl : v = .ip6 := hv.symm.trans h6
      exact Assembled.ip6Header alloc hf decoded output (by omega) hp h6
    · exact hcurrent
    · exact hlength
    · rw [hwdata]
      rfl

/-- After any run, what a node builds when a fragment arrives is a well-formed datagram exactly
when the fragment that came first has the IP version of this node. -/
theorem reassembled_wellFormed_iff (complements : ChecksumComplements env)
    (room_pos : ∀ k, 0 < nenv.room k) (registered : nenv.nextIndexVec sfTwTimerGroupIpReass ≠ 0)
    {w : Worker} {arr : EnqueueArrays} {start interval : Nat} (hstart : start < 2 ^ 64)
    (hpos : 0 < interval) (run : Run (Step env nenv) (.init w arr start interval) es S)
    {b c : BufferId} {wdata : Wdata} {bytes : Nat → UInt8} {o : Outside}
    (en : Enabled S (.packet v b wdata bytes o))
    (built : S.builtBuffer env v b wdata bytes o = some c) (alloc : o.newHuge ≠ none)
    (hf : (S.cached env (arriving v b wdata bytes o).key).head? = some f) (decoded : Decoded f)
    (output : f.output ≠ 0) {fs : List Fragment}
    (hfs : fs = S.cached env (arriving v b wdata bytes o).key ++ [arriving v b wdata bytes o])
    (fits : f.before + f.hdrLen + (fs.map Fragment.size).sum ≤ sfHugePktMaxDataSize)
    (hp : p = (S.proc env v b wdata bytes o).1.reassembled
      (Function.update S.fragment b (arriving v b wdata bytes o)) c) :
    WellFormed f (fs.map Fragment.size).sum p ↔ f.version = v := by
  obtain ⟨live, kids, h⟩ := inv_of_run room_pos registered hstart hpos run
  obtain ⟨-, -, hassembled⟩ := h.assembled en built
  rw [← hfs, ← hp] at hassembled
  refine hassembled.wellFormed_iff complements ?_ alloc decoded output fits
  rw [hfs, List.head?_append, hf]
  rfl

/-! A fragment at the start of an IPv4 datagram, with the checksum as it is computed. The interface
sends what is built on. -/

def datagramEnv : Env := ⟨fun _ => 0, fun u => 65535 - sum (checksumWords u)⟩

def datagramOutside (k : Nat) : Outside :=
  { sampleOutside k with ipReassOutputEnable := fun _ => 1 }

def datagramKey : KeyIpReass := ⟨⟨0, 0⟩, ⟨0, 0⟩, 0, 1⟩

def datagramPacket : Event :=
  .packet .ip4 1 (sampleWdata 1 8) (orderBytes 1 32 0 64) (datagramOutside 1)

def datagramLead : Fragment :=
  arriving .ip4 1 (sampleWdata 1 8) (orderBytes 1 32 0 64) (datagramOutside 1)

/-- The state in which it waits for the rest. -/
def datagramWaits : System := sampleInit.after datagramEnv sampleNodeEnv datagramPacket

theorem datagramRun :
    Run (Step datagramEnv sampleNodeEnv) sampleInit [datagramPacket] datagramWaits :=
  .cons ⟨by decide +kernel, rfl⟩ (.refl _)

theorem datagramWaits_cached : datagramWaits.cached datagramEnv datagramKey = [datagramLead] := by
  have hfound : datagramWaits.worker.hashFind (datagramEnv.getHashIndex datagramKey.bytes)
      datagramKey = some 1 := by decide +kernel
  have hchain : datagramWaits.worker.chain ((datagramWaits.worker.node 1).cachePktNum + 1)
      (datagramWaits.worker.node 1).head = [1] := by decide +kernel
  rw [System.cached, hfound]
  show datagramWaits.nodeFrags 1 = _
  rw [System.nodeFrags, hchain]
  rfl

theorem datagramLead_decoded : Decoded datagramLead := ⟨by decide, fun _ => by decide, nofun⟩

/-- What the node of the version `v` builds when the fragment in the buffer 2 arrives. -/
def datagramBuilt (v : Version) (wdata : Wdata) (bytes : Nat → UInt8) : Reassembled :=
  (datagramWaits.proc datagramEnv v 2 wdata bytes (datagramOutside 2)).1.reassembled
    (Function.update datagramWaits.fragment 2 (arriving v 2 wdata bytes (datagramOutside 2))) 52

theorem reassembled_wellFormed_iff_ip4 :
    WellFormed datagramLead 16 (datagramBuilt .ip4 (sampleWdata 2 8) (orderBytes 2 0 1 64)) ↔
      datagramLead.version = .ip4 := by
  have hkey : (arriving .ip4 2 (sampleWdata 2 8) (orderBytes 2 0 1 64) (datagramOutside 2)).key =
      datagramKey := by decide +kernel
  have hcached := datagramWaits_cached
  rw [← hkey] at hcached
  have hen : Enabled datagramWaits (.packet .ip4 2 (sampleWdata 2 8) (orderBytes 2 0 1 64)
      (datagramOutside 2)) := by decide +kernel
  have hbuilt : datagramWaits.builtBuffer datagramEnv .ip4 2 (sampleWdata 2 8)
      (orderBytes 2 0 1 64) (datagramOutside 2) = some 52 := by decide +kernel
  exact reassembled_wellFormed_iff (fun _ _ => .inl rfl) (fun _ => Nat.one_pos) (by decide)
    (by decide) (by decide) datagramRun hen hbuilt (by decide) (by rw [hcached]; rfl)
    datagramLead_decoded (by decide) (congrArg (· ++ [_]) hcached.symm) (by decide) rfl

/-- The rest of the datagram, but in an IPv6 packet. -/
def datagramRest : Wdata :=
  { sampleWdata 2 8 with
    ipWdata := { (sampleWdata 2 8).ipWdata with version := 6, headerLen := 48 } }

def datagramRestBytes (i : Nat) : UInt8 := if i = 57 then 8 else 0

/-- Two fragments of different IP versions build a packet that says that it is a fragment. -/
theorem built_packet_malformed :
    ¬∀ es S v b wdata bytes o c f, Run (Step datagramEnv sampleNodeEnv) sampleInit es S →
      Enabled S (.packet v b wdata bytes o) →
      S.builtBuffer datagramEnv v b wdata bytes o = some c →
      S.cached datagramEnv (arriving v b wdata bytes o).key = [f] → Decoded f →
      Decoded (arriving v b wdata bytes o) → f.output ≠ 0 →
      f.before + f.hdrLen + (f.size + wdata.ipWdata.payloadLen) ≤ sfHugePktMaxDataSize →
      WellFormed f (f.size + wdata.ipWdata.payloadLen)
        ((S.proc datagramEnv v b wdata bytes o).1.reassembled
          (Function.update S.fragment b (arriving v b wdata bytes o)) c) := by
  intro claim
  have hkey : (arriving .ip6 2 datagramRest datagramRestBytes (datagramOutside 2)).key =
      datagramKey := by decide +kernel
  have hcached := datagramWaits_cached
  rw [← hkey] at hcached
  have hen : Enabled datagramWaits (.packet .ip6 2 datagramRest datagramRestBytes
      (datagramOutside 2)) := by decide +kernel
  have hbuilt : datagramWaits.builtBuffer datagramEnv .ip6 2 datagramRest datagramRestBytes
      (datagramOutside 2) = some 52 := by decide +kernel
  have hdecoded : Decoded (arriving .ip6 2 datagramRest datagramRestBytes (datagramOutside 2)) :=
    ⟨by decide, nofun, fun _ => by decide⟩
  have hwell := claim _ _ _ _ _ _ _ _ _ datagramRun hen hbuilt hcached datagramLead_decoded
    hdecoded (by decide) (by decide)
  have hflags :
    getIp4HdrFlag ((datagramBuilt .ip6 datagramRest datagramRestBytes).view 14) = 1 := by
    decide +kernel
  exact absurd ((hwell.ip4 rfl).flags.symm.trans hflags) (by decide)

end Tapplet.Reass
