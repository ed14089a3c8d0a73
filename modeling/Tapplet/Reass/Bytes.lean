import Tapplet.Lib.Patch
import Tapplet.Reass.Build

/-!
# The bytes of a built packet

What the build functions leave in the huge packet, as a function of the fragments: the bytes
before the IP header, the header with its fragment fields cleared, the payload, and last the
length fields and the checksum when the packet is to be sent on.
-/

namespace Tapplet.Reass

open Patch

variable {env : Env} {s : Worker} {fs : List Fragment} {f : Fragment} {huge : Option Block}
  {mem : PacketMem} {p : DataPtr} {blk : Block}

theorem load_store_add (hp : p.block = some blk) (k n : Nat) (bytes : Nat → UInt8) :
    load (store mem (p.add k) n bytes) p = patch (load mem p) k n bytes := by
  funext i
  rw [load_store (b := blk) (by simpa using hp) hp, patch, DataPtr.add_offset]
  by_cases h : k ≤ i ∧ i < k + n
  · rw [if_pos (by omega), if_pos h]
    congr 1
    omega
  · rw [if_neg (by omega), if_neg h]

theorem load_add_eq (mem : PacketMem) (p : DataPtr) (k : Nat) :
    load mem (p.add k) = fun i => load mem p (k + i) :=
  funext fun i => load_add mem p k i

/-- A header with its fragment fields cleared, from `before` on. -/
def clearedBytes (v : Version) (g : Nat → UInt8) (before hdrLen : Nat) : Nat → UInt8 :=
  match v with
  | .ip4 => patch g (before + 6) 2 fun _ => 0
  | .ip6 =>
      let f := before + (hdrLen - ipv6FragHeaderLen)
      patch (patch g (f + 2) 1 fun _ => 0) (f + 3) 1 fun _ =>
        UInt8.ofNat ((g (f + 3)).toNat / 2 % 4 * 2)

/-- A number in the two bytes from `i` on, low byte first. -/
def put16 (g : Nat → UInt8) (i x : Nat) :
    Nat → UInt8 := patch g i 2 fun j => UInt8.ofNat (x / 256 ^ j)

/-- A header with its length fields updated, and for IPv4 its checksum. -/
def updatedBytes (env : Env) (w : IpWdata) (g : Nat → UInt8) (before : Nat) : Nat → UInt8 :=
  if w.version = 4 then
    let total := (w.headerLen + w.payloadLen) % 2 ^ 16
    let g := put16 g (before + 2) (total % 256 * 256 + total / 256)
    put16 g (before + 10) (env.ip4HeaderChecksum fun i => g (before + i))
  else
    let payload := (w.headerLen + w.payloadLen + 2 ^ 16 - 40) % 2 ^ 16
    put16 g (before + 4) (payload % 256 * 256 + payload / 256)

/-- The payload of a fragment as a piece of the packet. -/
def Fragment.piece (f : Fragment) : Piece UInt8 := ⟨f.offset, f.size, f.body⟩

/-- The metadata of the packet with the address part of the first fragment. -/
def builtIpWdata (first : Fragment) (fs : List Fragment) : IpWdata :=
  { first.wdata.ipWdata with payloadLen := meetLen fs, reassOver := 1 }

def builtWdata (huge : Option Block) (first : Fragment) (fs : List Fragment) : Wdata :=
  { first.wdata with
    unused8 := first.wdata.unused8 ||| unused8FlagIpReassPkt ||| unused8PktHugePktWithWdata
    dataPtr := allocHugePkt16k huge
    currentData := first.before + first.hdrLen
    currentLength := meetLen fs
    ipWdata := builtIpWdata first fs }

/-- The bytes before the payload and the payload itself, on top of what was there. -/
def laidBytes (v : Version) (first : Fragment) (fs : List Fragment) (old : Nat → UInt8) :
    Nat → UInt8 :=
  let g := patch (patch old 0 first.before first.data) first.before first.hdrLen first.view
  lay (first.before + first.hdrLen) (clearedBytes v g first.before first.hdrLen)
    (fs.map Fragment.piece)

/-- The bytes of the packet built from the fragments `fs`, of which `first` came first. -/
def builtBytes (env : Env) (v : Version) (first : Fragment) (fs : List Fragment)
    (old : Nat → UInt8) : Nat → UInt8 :=
  let g := laidBytes v first fs old
  if first.output ≠ 0 then updatedBytes env (builtIpWdata first fs) g first.before else g

/-! ## The build functions -/

theorem clearFrag_bytes (v : Version) (hp : p.block = some blk) (before hdrLen : Nat) :
    load (v.fields.clearFrag mem (p.add before) hdrLen) p =
      clearedBytes v (load mem p) before hdrLen := by
  have hadd : ∀ k, (p.add before).add k = p.add (before + k) := fun k => by
    simp [DataPtr.add, Nat.add_assoc]
  cases v with
  | ip4 =>
      simp only [Version.fields, ip4Fields, clearedBytes, hadd]
      exact load_store_add hp _ _ _
  | ip6 =>
      have hadd' : ∀ k l, (p.add k).add l = p.add (k + l) := fun k l => by
        simp [DataPtr.add, Nat.add_assoc]
      simp only [Version.fields, ip6Fields, clearedBytes, hadd, hadd']
      rw [load_store_add hp, load_store_add hp]
      simp only [load_add_eq]

theorem updateIpReassPkt_bytes (hp : p.block = some blk) (w : IpWdata) (before : Nat) :
    load (updateIpReassPkt env mem w (p.add before)) p =
      updatedBytes env w (load mem p) before := by
  have hadd : ∀ k, (p.add before).add k = p.add (before + k) := fun k => by
    simp [DataPtr.add, Nat.add_assoc]
  unfold updateIpReassPkt updatedBytes put16
  simp only [hadd]
  split
  · rw [load_store_add hp, load_store_add hp, load_add_eq, load_store_add hp]
  · rw [load_store_add hp]

theorem foldl_bytes {ptr : DataPtr} {c : Build} {base : Nat} (hp : p.block = some blk)
    (hptr : ptr = p.add base) (apart : ∀ f ∈ fs, f.wdata.dataPtr.block ≠ some blk)
    (intact : ∀ f ∈ fs, load c.mem f.wdata.dataPtr = f.data) :
    load (fs.foldl (copyPayload huge ptr) c).mem p =
      lay base (load c.mem p) (fs.map Fragment.piece) := by
  induction fs using List.reverseRecOn with
  | nil => rfl
  | append_singleton fs f ih =>
      have hsource : load (fs.foldl (copyPayload huge ptr) c).mem
          (f.wdata.current.add f.hdrLen) = f.body := by
        funext j
        have hne : f.wdata.dataPtr.block ≠ ptr.block := by
          rw [hptr, DataPtr.add_block, hp]
          exact apart f (by simp)
        rw [load_add, Wdata.current, load_add, foldl_load_of_ne hne, intact f (by simp)]
        rfl
      have hadd : ptr.add f.offset = p.add (base + f.offset) := by
        rw [hptr]
        simp [DataPtr.add, Nat.add_assoc]
      rw [List.foldl_append, List.foldl_cons, List.foldl_nil, copyPayload_mem, memcpy, hsource,
        hadd, load_store_add hp, List.map_append, List.map_singleton, lay_concat,
        ih (fun g hg => apart g (by simp [hg])) fun g hg => intact g (by simp [hg])]
      rfl

/-- The contents of the huge packet, and the metadata and output switch of the new buffer. -/
theorem buildInto_bytes (env : Env) (huge : Option Block) (v : Version) (h : Chain s (f :: fs))
    {fuel : Nat} (hfuel : (f :: fs).length ≤ fuel) (b : BufferId) :
    (buildInto v.fields env s f.buffer b huge fuel).wdata b = builtWdata huge f (f :: fs) ∧
      ((buildInto v.fields env s f.buffer b huge fuel).record b).ipReassOutput = f.output ∧
      (∀ blk, huge = some blk → (∀ g ∈ f :: fs, g.wdata.dataPtr.block ≠ some blk) →
        load (buildInto v.fields env s f.buffer b huge fuel).mem (allocHugePkt16k huge) =
          builtBytes env v f (f :: fs) (load s.mem (allocHugePkt16k huge))) := by
  have hf := h.ok f (List.mem_cons_self ..)
  obtain ⟨mem₀, hmem₀⟩ : ∃ mem₀, mem₀ = memcpy (memcpy s.mem (allocHugePkt16k huge)
      f.wdata.dataPtr f.before) ((allocHugePkt16k huge).add f.before) f.wdata.current f.hdrLen :=
    ⟨_, rfl⟩
  obtain ⟨start, hstart⟩ : ∃ start : Build, start =
      { mem := v.fields.clearFrag mem₀ ((allocHugePkt16k huge).add f.before) f.hdrLen
        currentLength := 0
        followedNodesCnt := 0
        copies := s.copies ++ [⟨huge, allocHugePkt16k huge, f.before⟩,
          ⟨huge, (allocHugePkt16k huge).add f.before, f.hdrLen⟩] } := ⟨_, rfl⟩
  obtain ⟨c, hc⟩ : ∃ c, c = copyFrags s huge (payloadPtr huge f) fuel (some f.buffer) start :=
    ⟨_, rfl⟩
  have hloop : c = (f :: fs).foldl (copyPayload huge (payloadPtr huge f)) start :=
    hc.trans (copyFrags_eq h.linked h.ok hfuel start)
  have hlength : c.currentLength = meetLen (f :: fs) :=
    hloop ▸ foldl_currentLength (by rw [hstart])
  have hwdata : (buildInto v.fields env s f.buffer b huge fuel).wdata b =
      builtWdata huge f (f :: fs) := by
    rw [builtWdata, builtIpWdata, ← hlength, hc, hstart, hmem₀]
    simp only [buildInto, hf.wdata, hf.ipHdrLen, Function.update_self]
    rfl
  have houtput : ((buildInto v.fields env s f.buffer b huge fuel).record b).ipReassOutput =
      f.output := by
    simp only [buildInto, Function.update_self, hf.output]
  have hmem : (buildInto v.fields env s f.buffer b huge fuel).mem =
      if f.output ≠ 0 then
        updateIpReassPkt env c.mem (builtIpWdata f (f :: fs)) ((allocHugePkt16k huge).add f.before)
      else c.mem := by
    rw [builtIpWdata, ← hlength, hc, hstart, hmem₀]
    simp only [buildInto, hf.wdata, hf.ipHdrLen, hf.output]
    rfl
  refine ⟨hwdata, houtput, fun blk hblk apart => ?_⟩
  have hp : (allocHugePkt16k huge).block = some blk := hblk
  have hother : ∀ g ∈ f :: fs, load start.mem g.wdata.dataPtr = g.data := by
    intro g hg
    have hne : g.wdata.dataPtr.block ≠ huge := by
      rw [hblk]
      exact apart g hg
    rw [hstart, clearFrag_load_of_ne v (by exact hne), hmem₀, memcpy,
      load_store_of_ne (by exact Ne.symm hne), memcpy, load_store_of_ne (by exact Ne.symm hne)]
    exact (h.ok g hg).data
  have hstartBytes : load start.mem (allocHugePkt16k huge) =
      clearedBytes v (patch (patch (load s.mem (allocHugePkt16k huge)) 0 f.before f.data) f.before
        f.hdrLen f.view) f.before f.hdrLen := by
    have hne : (allocHugePkt16k huge).block ≠ f.wdata.current.block := by
      rw [hp]
      exact Ne.symm (apart f (List.mem_cons_self ..))
    have hview : load s.mem f.wdata.current = f.view := by
      funext i
      rw [Wdata.current, load_add, hf.data, Fragment.view]
    have hfirst : ∀ bytes : Nat → UInt8, load (store s.mem (allocHugePkt16k huge) f.before bytes)
        (allocHugePkt16k huge) = patch (load s.mem (allocHugePkt16k huge)) 0 f.before bytes :=
      fun bytes => load_store_add (p := allocHugePkt16k huge) hp 0 f.before bytes
    rw [hstart, clearFrag_bytes v hp, hmem₀, memcpy, load_store_add hp, memcpy,
      load_store_of_ne hne, hview, hf.data, hfirst]
  have hlaid : load c.mem (allocHugePkt16k huge) =
      laidBytes v f (f :: fs) (load s.mem (allocHugePkt16k huge)) := by
    have hptr : payloadPtr huge f = (allocHugePkt16k huge).add (f.before + f.hdrLen) := by
      simp [payloadPtr, DataPtr.add, Nat.add_assoc]
    rw [hloop, foldl_bytes hp hptr apart hother, hstartBytes, laidBytes]
  rw [hmem, builtBytes]
  split
  · rw [updateIpReassPkt_bytes hp, hlaid]
  · exact hlaid

end Tapplet.Reass
