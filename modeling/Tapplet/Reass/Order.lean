import Tapplet.Reass.Built

/-!
# Order of arrival

The packet starts with the header and the metadata of the fragment that came first, wherever
in the datagram that belongs. Two arrival orders of one complete set of fragments build the
same packet when the fragments that came first agree on them.
-/

namespace Tapplet.Reass

open Linked GenericHash SfTimer Transition Patch Tiling

variable {env : Env} {nenv : NodeEnv} {S S' : System} {es es' : List Event} {v v' : Version}
  {f g z : Fragment} {fs gs : List Fragment} {p q : Reassembled} {huge huge' : Option Block}
  {old old' : Nat → UInt8} {total : Nat}

/-! ## What a packet takes from its first fragment -/

/-- A byte of the headers of a fragment, with the fragment fields of the IP header cleared. -/
def Fragment.headByte (v : Version) (f : Fragment) : Nat → UInt8 :=
  clearedBytes v f.data f.before f.hdrLen

/-- The places of the length fields and the checksum, when they are updated. -/
def rewritten (f : Fragment) : List Nat :=
  if f.output = 0 then []
  else if f.wdata.ipWdata.version = 4 then
    [f.before + 2, f.before + 3, f.before + 10, f.before + 11]
  else [f.before + 4, f.before + 5]

/-- The metadata that a packet takes over, without its own length and data. -/
def leadWdata (f : Fragment) : Wdata := builtWdata none f []

/-- The fragments lead to the same headers, by the build functions of two versions. -/
structure SameHeader (v v' : Version) (f g : Fragment) : Prop where
  before : f.before = g.before
  hdrLen : f.hdrLen = g.hdrLen
  version : f.wdata.ipWdata.version = g.wdata.ipWdata.version
  output : f.output = g.output
  bytes : ∀ i < f.before + f.hdrLen, i ∉ rewritten f → f.headByte v i = g.headByte v' i

/-- The fragments lead to the same packets, if the payload is the same. -/
structure SameLead (v v' : Version) (f g : Fragment) : Prop where
  wdata : leadWdata f = leadWdata g
  header : SameHeader v v' f g

/-- The packets are the same, apart from where they are in memory. -/
structure SamePacket (p q : Reassembled) : Prop where
  wdata : { p.wdata with dataPtr := .null } = { q.wdata with dataPtr := .null }
  output : p.ipReassOutput = q.ipReassOutput
  header : p.header = q.header
  payload : p.payload = q.payload

/-- The header of the packet is the one of `z`, apart from the fields that are updated. -/
structure HeaderOf (v : Version) (z : Fragment) (p : Reassembled) : Prop where
  currentData : p.wdata.currentData = z.before + z.hdrLen
  hdrLen : p.wdata.ipWdata.headerLen = z.hdrLen
  version : p.wdata.ipWdata.version = z.wdata.ipWdata.version
  output : p.ipReassOutput = z.output
  bytes : ∀ i < z.before + z.hdrLen, i ∉ rewritten z → p.header[i]? = some (z.headByte v i)

/-- The decoding nodes found an IP header, and for IPv4 its length in its first byte. -/
structure HeaderOk (f : Fragment) : Prop where
  long : 20 ≤ f.hdrLen
  exact : f.wdata.ipWdata.version = 4 → f.hdrLen = 4 * ((f.view 0).toNat % 16)

/-- The checksum of an IPv4 header reads the header, without the checksum in it. -/
def ChecksumReadsHeader (env : Env) : Prop :=
  ∀ u u' : View, (∀ i < 4 * ((u 0).toNat % 16), i ≠ 10 → i ≠ 11 → u i = u' i) →
    env.ip4HeaderChecksum u = env.ip4HeaderChecksum u'

/-! ## The header of a built packet -/

@[simp] theorem builtIpWdata_headerLen : (builtIpWdata f fs).headerLen = f.hdrLen := rfl

@[simp] theorem builtIpWdata_payloadLen : (builtIpWdata f fs).payloadLen = meetLen fs := rfl

theorem clearedBytes_congr {u u' : Nat → UInt8} {before hdrLen n i : Nat}
    (same : ∀ i < n, u i = u' i) (long : 8 ≤ hdrLen) (hn : n = before + hdrLen) (hi : i < n) :
    clearedBytes v u before hdrLen i = clearedBytes v u' before hdrLen i := by
  cases v with
  | ip4 =>
      rw [clearedBytes, clearedBytes]
      exact patch_congr (same i hi) fun _ _ => rfl
  | ip6 =>
      have hbyte : u (before + (hdrLen - ipv6FragHeaderLen) + 3) =
          u' (before + (hdrLen - ipv6FragHeaderLen) + 3) := by
        apply same
        rw [ipv6FragHeaderLen]
        omega
      rw [clearedBytes, clearedBytes, hbyte]
      exact patch_congr (patch_congr (same i hi) fun _ _ => rfl) fun _ _ => rfl

theorem laidBytes_head (long : 8 ≤ f.hdrLen) {i : Nat} (hi : i < f.before + f.hdrLen) :
    laidBytes v f fs old i = f.headByte v i := by
  rw [laidBytes, lay_of_lt hi]
  refine clearedBytes_congr (n := f.before + f.hdrLen) (fun j hj => ?_) long rfl hi
  by_cases h : j < f.before
  · rw [patch_of_lt h]
    have hdata : patch old 0 f.before f.data (0 + j) = f.data j := patch_add h
    rwa [Nat.zero_add] at hdata
  · obtain ⟨k, rfl⟩ := Nat.exists_eq_add_of_le (Nat.le_of_not_lt h)
    rw [patch_add (by omega), Fragment.view]
    rfl

theorem put16_of_ne {u : Nat → UInt8} {k x i : Nat} (h : i ≠ k) (h' : i ≠ k + 1) :
    put16 u k x i = u i := by
  by_cases hlt : i < k
  · exact patch_of_lt hlt
  · exact patch_of_ge (by omega)

/-- What is not rewritten stays. -/
theorem builtBytes_of_not_rewritten {i : Nat} (hi : i ∉ rewritten f) :
    builtBytes env v f fs old i = laidBytes v f fs old i := by
  rw [builtBytes]
  by_cases hout : f.output = 0
  · rw [if_neg (by simpa using hout)]
  · rw [if_pos hout]
    rw [rewritten, if_neg hout] at hi
    by_cases hv : f.wdata.ipWdata.version = 4
    · simp only [if_pos hv, List.mem_cons, List.not_mem_nil, or_false, not_or] at hi
      have hvf : (builtIpWdata f fs).version = 4 := hv
      rw [updatedBytes, if_pos hvf]
      rw [put16_of_ne (by omega) (by omega), put16_of_ne (by omega) (by omega)]
    · simp only [if_neg hv, List.mem_cons, List.not_mem_nil, or_false, not_or] at hi
      have hvf : ¬(builtIpWdata f fs).version = 4 := hv
      rw [updatedBytes, if_neg hvf]
      rw [put16_of_ne (by omega) (by omega)]

theorem builtBytes_head (long : 8 ≤ f.hdrLen) {i : Nat} (hi : i < f.before + f.hdrLen)
    (hrw : i ∉ rewritten f) : builtBytes env v f fs old i = f.headByte v i :=
  (builtBytes_of_not_rewritten hrw).trans (laidBytes_head long hi)

theorem put16_congr {u u' : Nat → UInt8} {k x i : Nat} (h : i ≠ k → i ≠ k + 1 → u i = u' i) :
    put16 u k x i = put16 u' k x i := by
  by_cases hmem : k ≤ i ∧ i < k + 2
  · rw [put16, put16, patch, patch, if_pos hmem, if_pos hmem]
  · rw [put16_of_ne (by omega) (by omega), put16_of_ne (by omega) (by omega)]
    exact h (by omega) (by omega)

/-- The updated fields are functions of the rest of the header and of the lengths. -/
theorem builtBytes_congr (reads : ChecksumReadsHeader env) (hf : HeaderOk f)
    (same : SameHeader v v' f g) (length : meetLen fs = meetLen gs) {n : Nat}
    (hn : f.before + f.hdrLen ≤ n)
    (laid : ∀ i < n, i ∉ rewritten f → laidBytes v f fs old i = laidBytes v' g gs old' i) {i : Nat}
    (hi : i < n) : builtBytes env v f fs old i = builtBytes env v' g gs old' i := by
  rw [builtBytes, builtBytes, ← same.output]
  by_cases hout : f.output = 0
  · rw [if_neg (by simpa using hout), if_neg (by simpa using hout)]
    exact laid i hi (by simp [rewritten, hout])
  · rw [if_pos hout, if_pos hout]
    by_cases hv : f.wdata.ipWdata.version = 4
    · simp only [rewritten, if_neg hout, if_pos hv, List.mem_cons, List.not_mem_nil, or_false,
        not_or] at laid
      have hvf : (builtIpWdata f fs).version = 4 := hv
      have hvg : (builtIpWdata g gs).version = 4 := same.version.symm.trans hv
      rw [updatedBytes, updatedBytes, if_pos hvf, if_pos hvg]
      simp only [builtIpWdata_headerLen, builtIpWdata_payloadLen, ← same.hdrLen, ← same.before,
        ← length]
      obtain ⟨x, hx⟩ : ∃ x, x = (f.hdrLen + meetLen fs) % 2 ^ 16 % 256 * 256 +
          (f.hdrLen + meetLen fs) % 2 ^ 16 / 256 := ⟨_, rfl⟩
      rw [← hx]
      -- the header with its length, up to the checksum
      have hput : ∀ j < n, j ≠ f.before + 10 → j ≠ f.before + 11 →
          put16 (laidBytes v f fs old) (f.before + 2) x j =
            put16 (laidBytes v' g gs old') (f.before + 2) x j := fun j hj h10 h11 =>
        put16_congr fun h2 h3 => laid j hj ⟨h2, h3, h10, h11⟩
      have hlong := hf.long
      have hfirst : put16 (laidBytes v f fs old) (f.before + 2) x (f.before + 0) = f.view 0 := by
        rw [put16_of_ne (by omega) (by omega), laidBytes_head (by omega) (by omega),
          Fragment.headByte]
        cases v with
        | ip4 =>
            rw [clearedBytes, patch_of_lt (by omega)]
            rfl
        | ip6 =>
            rw [clearedBytes, patch_of_lt (by omega), patch_of_lt (by omega)]
            rfl
      have hsum : env.ip4HeaderChecksum (fun j =>
            put16 (laidBytes v f fs old) (f.before + 2) x (f.before + j)) =
          env.ip4HeaderChecksum fun j =>
            put16 (laidBytes v' g gs old') (f.before + 2) x (f.before + j) := by
        apply reads
        intro j hj h10 h11
        rw [hfirst, ← hf.exact hv] at hj
        exact hput _ (by omega) (by omega) (by omega)
      rw [hsum]
      exact put16_congr fun h10 h11 => hput i hi h10 (by omega)
    · simp only [rewritten, if_neg hout, if_neg hv, List.mem_cons, List.not_mem_nil, or_false,
        not_or] at laid
      have hvf : ¬(builtIpWdata f fs).version = 4 := hv
      have hvg : ¬(builtIpWdata g gs).version = 4 := fun h => hv (same.version.trans h)
      rw [updatedBytes, updatedBytes, if_neg hvf, if_neg hvg]
      simp only [builtIpWdata_headerLen, builtIpWdata_payloadLen, ← same.hdrLen, ← same.before,
        ← length]
      exact put16_congr fun h4 h5 => laid i hi ⟨h4, by omega⟩

/-! ## The payload -/

/-- What a fragment is, wherever in memory it is: its metadata, its place, the output switch of
its interface, and its bytes. -/
def Fragment.content (f : Fragment) : Wdata × Nat × Nat × List UInt8 :=
  ({ f.wdata with dataPtr := .null }, f.offset, f.output,
    (List.range (f.before + f.hdrLen + f.size)).map f.data)

def Fragment.interval (f : Fragment) : Nat × Nat := (f.offset, f.size)

section Content

variable (h : f.content = g.content)
include h

theorem Fragment.interval_of_content : f.interval = g.interval := by
  rw [content, content, Prod.mk.injEq, Prod.mk.injEq] at h
  have hsize : f.size = g.size := congrArg (fun w => w.ipWdata.payloadLen) h.1
  rw [interval, interval, hsize, h.2.1]

theorem Fragment.body_of_content {j : Nat} (hj : j < f.size) : f.body j = g.body j := by
  rw [content, content, Prod.mk.injEq, Prod.mk.injEq, Prod.mk.injEq] at h
  obtain ⟨hw, -, -, hdata⟩ := h
  have hbefore : f.before = g.before := congrArg (fun w => w.currentData) hw
  have hhdr : f.hdrLen = g.hdrLen := congrArg (fun w => w.ipWdata.headerLen) hw
  have hsize : f.size = g.size := congrArg (fun w => w.ipWdata.payloadLen) hw
  rw [← hbefore, ← hhdr, ← hsize, List.map_inj_left] at hdata
  have hbyte := hdata (f.before + (f.hdrLen + j)) (List.mem_range.mpr (by omega))
  show f.data (f.before + (f.hdrLen + j)) = g.data (g.before + (g.hdrLen + j))
  rw [hbyte, hbefore, hhdr]

end Content

theorem interval_perm (same : (fs.map Fragment.content).Perm (gs.map Fragment.content)) :
    (fs.map Fragment.interval).Perm (gs.map Fragment.interval) := by
  have hfun : ∀ hs : List Fragment, hs.map Fragment.interval =
      (hs.map Fragment.content).map fun c => (c.2.1, c.1.ipWdata.payloadLen) := fun hs => by
    rw [List.map_map]
    rfl
  rw [hfun, hfun]
  exact same.map _

theorem meetLen_perm (same : (fs.map Fragment.content).Perm (gs.map Fragment.content)) :
    meetLen fs = meetLen gs := by
  have hsizes : ∀ hs : List Fragment, hs.map Fragment.size =
      (hs.map Fragment.interval).map Prod.snd := fun hs => by
    rw [List.map_map]
    rfl
  rw [meetLen, meetLen, hsizes, hsizes, ((interval_perm same).map Prod.snd).sum_eq]

/-- A byte of the payload does not depend on the order, nor on what the memory held before. -/
theorem laidBytes_payload (tiles : Tiles total (fs.map Fragment.interval))
    (same : (fs.map Fragment.content).Perm (gs.map Fragment.content)) {i : Nat} (hi : i < total) :
    laidBytes v f fs old (f.before + f.hdrLen + i) =
      laidBytes v' g gs old' (g.before + g.hdrLen + i) := by
  obtain ⟨iv, hiv, hcover⟩ := tiles.covered hi
  obtain ⟨a, ha, rfl⟩ := List.mem_map.mp hiv
  have hunique : ∀ b ∈ fs, b.piece.Covers i → b = a := fun b hb hbi =>
    eq_of_apart tiles.apart hb ha hbi hcover
  have hleft : laidBytes v f fs old (f.before + f.hdrLen + i) = a.piece.at i := by
    apply lay_of_covered
    · exact ⟨a.piece, List.mem_map_of_mem ha, hcover⟩
    · intro p hp hpi
      obtain ⟨b, hb, rfl⟩ := List.mem_map.mp hp
      rw [hunique b hb hpi]
  have hright : laidBytes v' g gs old' (g.before + g.hdrLen + i) = a.piece.at i := by
    apply lay_of_covered
    · obtain ⟨c, hc, hca⟩ := List.mem_map.mp (same.mem_iff.mp (List.mem_map_of_mem ha))
      refine ⟨c.piece, List.mem_map_of_mem hc, ?_⟩
      have hinterval := Fragment.interval_of_content hca
      show Covers c.interval i
      rw [hinterval]
      exact hcover
    · intro p hp hpi
      obtain ⟨c, hc, rfl⟩ := List.mem_map.mp hp
      obtain ⟨b, hb, hbc⟩ := List.mem_map.mp (same.mem_iff.mpr (List.mem_map_of_mem hc))
      have hinterval := Fragment.interval_of_content hbc
      have hbi : Covers b.interval i := by
        rw [hinterval]
        exact hpi
      obtain rfl := hunique b hb hbi
      have hoffset : b.offset = c.offset := congrArg Prod.fst hinterval
      have hlt : i - b.offset < b.size := by
        have hcovers : b.offset ≤ i ∧ i < b.offset + b.size := hbi
        omega
      show c.body (i - c.offset) = b.body (i - b.offset)
      rw [← hoffset]
      exact (Fragment.body_of_content hbc hlt).symm
  rw [hleft, hright]

/-! ## Two orders -/

section Assembled

variable (hp : Assembled env v huge fs p) (hf : fs.head? = some f) (alloc : huge ≠ none)
include hp hf alloc

/-- The header of an assembled packet, byte by byte. -/
theorem Assembled.bytes : p.wdata = builtWdata huge f fs ∧ p.ipReassOutput = f.output ∧ ∃ old,
    p.header = (List.range (f.before + f.hdrLen)).map (builtBytes env v f fs old) ∧
    p.payload = (List.range (meetLen fs)).map fun i =>
      builtBytes env v f fs old (f.before + f.hdrLen + i) := by
  obtain ⟨first, hfirst, hwdata, houtput, hbytes⟩ := hp.built
  obtain rfl : first = f := Option.some.inj (hfirst.symm.trans hf)
  exact ⟨hwdata, houtput, hbytes alloc⟩

theorem Assembled.header_get (ok : HeaderOk f) {i : Nat} (hi : i < f.before + f.hdrLen)
    (hrw : i ∉ rewritten f) : p.header[i]? = some (f.headByte v i) := by
  obtain ⟨-, -, old, hheader, -⟩ := hp.bytes hf alloc
  have hlong := ok.long
  rw [hheader, List.getElem?_map, List.getElem?_range hi, Option.map_some,
    builtBytes_head (by omega) hi hrw]

/-- The header is that of `z` exactly when the first fragment has the same header. -/
theorem Assembled.headerOf_iff (ok : HeaderOk f) : HeaderOf v z p ↔ SameHeader v v f z := by
  obtain ⟨hwdata, houtput, -⟩ := hp.bytes hf alloc
  have hcurrent : p.wdata.currentData = f.before + f.hdrLen := by rw [hwdata]; rfl
  have hhdr : p.wdata.ipWdata.headerLen = f.hdrLen := by rw [hwdata]; rfl
  have hversion : p.wdata.ipWdata.version = f.wdata.ipWdata.version := by rw [hwdata]; rfl
  constructor
  · rintro ⟨current, hdr, version, output, bytes⟩
    rw [hcurrent] at current
    rw [hhdr] at hdr
    rw [hversion] at version
    rw [houtput] at output
    have hbefore : f.before = z.before := by omega
    have hrewritten : rewritten f = rewritten z := by
      rw [rewritten, rewritten, output, version, hbefore]
    refine ⟨hbefore, hdr, version, output, fun i hi hrw => ?_⟩
    have hleft := hp.header_get hf alloc ok hi hrw
    rw [bytes i (by omega) (hrewritten ▸ hrw)] at hleft
    exact (Option.some.inj hleft).symm
  · rintro ⟨before, hdr, version, output, bytes⟩
    have hrewritten : rewritten f = rewritten z := by
      rw [rewritten, rewritten, output, version, before]
    refine ⟨by rw [hcurrent, before, hdr], hhdr.trans hdr, hversion.trans version,
      houtput.trans output, fun i hi hrw => ?_⟩
    have hi' : i < f.before + f.hdrLen := by omega
    have hrw' : i ∉ rewritten f := by rwa [hrewritten]
    rw [hp.header_get hf alloc ok hi' hrw', bytes i hi' hrw']

end Assembled

/-- Two packets of one set of fragments are the same exactly when the fragments that came first
agree on what a packet takes from them. -/
theorem Assembled.same_iff (reads : ChecksumReadsHeader env) (hp : Assembled env v huge fs p)
    (hq : Assembled env v' huge' gs q) (alloc : huge ≠ none) (alloc' : huge' ≠ none)
    (hf : fs.head? = some f) (hg : gs.head? = some g) (ok : HeaderOk f) (ok' : HeaderOk g)
    (same : (fs.map Fragment.content).Perm (gs.map Fragment.content))
    (tiles : Tiles total (fs.map Fragment.interval)) :
    SamePacket p q ↔ SameLead v v' f g := by
  obtain ⟨hpw, hpo, old, hph, hpp⟩ := hp.bytes hf alloc
  obtain ⟨hqw, hqo, old', hqh, hqp⟩ := hq.bytes hg alloc'
  have hmeet := meetLen_perm same
  constructor
  · rintro ⟨hwdata, houtput, hheader, -⟩
    rw [hpw, hqw] at hwdata
    rw [hpo, hqo] at houtput
    have hhdr : f.hdrLen = g.hdrLen := congrArg (fun w => w.ipWdata.headerLen) hwdata
    have hversion : f.wdata.ipWdata.version = g.wdata.ipWdata.version :=
      congrArg (fun w => w.ipWdata.version) hwdata
    have hbefore : f.before = g.before := by
      have hcurrent : f.before + f.hdrLen = g.before + g.hdrLen :=
        congrArg (fun w => w.currentData) hwdata
      omega
    have hlead : leadWdata f = leadWdata g := congrArg
      (fun w : Wdata => { w with
        dataPtr := allocHugePkt16k none
        currentLength := meetLen []
        ipWdata := { w.ipWdata with payloadLen := meetLen [] } }) hwdata
    refine ⟨hlead, hbefore, hhdr, hversion, houtput, fun i hi hrw => ?_⟩
    have hrewritten : rewritten f = rewritten g := by
      rw [rewritten, rewritten, houtput, hversion, hbefore]
    have hleft := hp.header_get hf alloc ok hi hrw
    rw [hheader, hq.header_get hg alloc' ok' (by omega) (hrewritten ▸ hrw)] at hleft
    exact (Option.some.inj hleft).symm
  · rintro ⟨hlead, hhead⟩
    have hlen : f.before + f.hdrLen = g.before + g.hdrLen := by rw [hhead.before, hhead.hdrLen]
    have hlong := ok.long
    have hlong' := ok'.long
    have hsize : meetLen fs ≤ total := by
      rw [meetLen]
      have hsum := sum_le tiles.apart tiles.within
      have hmap : (fs.map Fragment.interval).map Prod.snd = fs.map Fragment.size := by
        rw [List.map_map]
        rfl
      rw [hmap] at hsum
      omega
    have hlaid : ∀ i < f.before + f.hdrLen + meetLen fs, i ∉ rewritten f →
        laidBytes v f fs old i = laidBytes v' g gs old' i := by
      intro i hi hrw
      by_cases h : i < f.before + f.hdrLen
      · rw [laidBytes_head (by omega) h, laidBytes_head (by omega) (by omega)]
        exact hhead.bytes i h hrw
      · obtain ⟨j, rfl⟩ := Nat.exists_eq_add_of_le (Nat.le_of_not_lt h)
        rw [laidBytes_payload tiles same (by omega), ← hlen]
    have hbytes : ∀ i < f.before + f.hdrLen + meetLen fs,
        builtBytes env v f fs old i = builtBytes env v' g gs old' i := fun i hi =>
      builtBytes_congr reads ok hhead hmeet (by omega) hlaid hi
    refine ⟨?_, ?_, ?_, ?_⟩
    · have hwdata := congrArg
        (fun w : Wdata => { w with
          dataPtr := .null
          currentLength := meetLen fs
          ipWdata := { w.ipWdata with payloadLen := meetLen fs } }) hlead
      rw [hpw, hqw]
      have hright : builtWdata huge' g gs = { builtWdata huge' g fs with
          currentLength := meetLen fs } := by rw [builtWdata, builtIpWdata, ← hmeet]; rfl
      rw [hright]
      exact hwdata
    · rw [hpo, hqo, hhead.output]
    · rw [hph, hqh, ← hlen]
      exact List.map_congr_left fun i hi => hbytes i (by have := List.mem_range.mp hi; omega)
    · rw [hpp, hqp, ← hlen, ← hmeet]
      exact List.map_congr_left fun i hi => hbytes _ (by have := List.mem_range.mp hi; omega)

def orderBytes (b : BufferId) (flags offset ttl : UInt8) : Nat → UInt8 := fun i =>
  if i = 14 then 69 else if i = 22 then ttl else sampleBytes flags offset b.toUInt8 i

def orderPacket (b : BufferId) (flags offset ttl : UInt8) : Event :=
  .packet .ip4 b (sampleWdata b 8) (orderBytes b flags offset ttl) (sampleOutside b)

/-- The result of a fragment that arrives after the events `es`. -/
def orderResult (es : List Event) (b : BufferId) (flags offset ttl : UInt8) : Result :=
  (sampleAfter es).result sampleEnv .ip4 b (sampleWdata b 8) (orderBytes b flags offset ttl)
    (sampleOutside b)

theorem orderResult_mem (es : List Event) (b : BufferId) (flags offset ttl : UInt8) :
    orderResult es b flags offset ttl ∈
      (sampleAfter (es ++ [orderPacket b flags offset ttl])).results := by
  rw [sampleAfter, List.foldl_append, List.foldl_cons, List.foldl_nil]
  exact List.mem_append_right _ (List.mem_singleton.mpr rfl)

/-- The packet that this fragment completes. -/
def orderBuilt (es : List Event) (b : BufferId) (flags offset ttl : UInt8) (c : BufferId) :
    Reassembled :=
  ((sampleAfter es).proc sampleEnv .ip4 b (sampleWdata b 8) (orderBytes b flags offset ttl)
    (sampleOutside b)).1.reassembled (Function.update (sampleAfter es).fragment b
      (arriving .ip4 b (sampleWdata b 8) (orderBytes b flags offset ttl) (sampleOutside b))) c

theorem orderResult_packet {es : List Event} {b c : BufferId} {flags offset ttl : UInt8}
    (h : (sampleAfter es).builtBuffer sampleEnv .ip4 b (sampleWdata b 8)
      (orderBytes b flags offset ttl) (sampleOutside b) = some c) :
    (orderResult es b flags offset ttl).packet = some (orderBuilt es b flags offset ttl c) := by
  rw [orderResult, System.result]
  dsimp only
  rw [h]
  rfl

theorem orderBuilt_children {es : List Event} {b c : BufferId} {flags offset ttl : UInt8}
    (bs : List BufferId)
    (h : ((sampleAfter es).proc sampleEnv .ip4 b (sampleWdata b 8) (orderBytes b flags offset ttl)
      (sampleOutside b)).1.children c = bs) :
    (orderBuilt es b flags offset ttl c).children = bs.map (Function.update
      (sampleAfter es).fragment b
      (arriving .ip4 b (sampleWdata b 8) (orderBytes b flags offset ttl) (sampleOutside b))) := by
  rw [← h]
  rfl

instance (f : Fragment) : Decidable (HeaderOk f) :=
  decidable_of_iff (20 ≤ f.hdrLen ∧ (f.wdata.ipWdata.version = 4 →
    f.hdrLen = 4 * ((f.view 0).toNat % 16))) ⟨fun h => ⟨h.1, h.2⟩, fun h => ⟨h.1, h.2⟩⟩

theorem orderRun (es : List Event)
    (h : Checked Enabled (System.after sampleEnv sampleNodeEnv) sampleInit es) :
    Run (Step sampleEnv sampleNodeEnv) sampleInit es (sampleAfter es) :=
  .of_checked (fun _ _ h => ⟨h, rfl⟩) h

/-- The two fragments with the times to live `ttl` and `ttl'`, the first one first. -/
def orderForth (ttl ttl' : UInt8) : Reassembled := orderBuilt [orderPacket 1 32 0 ttl] 2 0 1 ttl' 52

/-- The same fragments, the last one first. -/
def orderBack (ttl ttl' : UInt8) : Reassembled := orderBuilt [orderPacket 2 0 1 ttl'] 1 32 0 ttl 51

/-- The fragment that arrives in `b`. -/
def orderFragment (b : BufferId) (flags offset ttl : UInt8) : Fragment :=
  arriving .ip4 b (sampleWdata b 8) (orderBytes b flags offset ttl) (sampleOutside b)

theorem tiles_two (m n : Nat) : Tiles (m + n) [(0, m), (m, n)] := by
  intro i
  have hfirst : Covers (0, m) i ↔ i < m := by
    unfold Covers
    omega
  have hlast : Covers (m, n) i ↔ m ≤ i ∧ i < m + n := .rfl
  simp only [depth_cons, depth_nil, hfirst, hlast]
  split <;> split <;> split <;> omega

end Tapplet.Reass
