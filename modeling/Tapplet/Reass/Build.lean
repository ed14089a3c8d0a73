import Mathlib.Data.List.Induction
import Tapplet.Reass.Found

/-!
# Building the packet

What the build functions leave behind: which copies they make, what the payload of the
new packet is and how its buffer is linked to the cached ones. Nothing else changes.
-/

namespace Tapplet.Reass

open Linked GenericHash

variable {F : FragFields} {env : Env} {s : Worker} {o : Outside} {fs : List Fragment}
  {f : Fragment} {huge : Option Block} {ptr : DataPtr} {c : Build}

/-! ## The copy loop -/

/-- One round of the loop, in terms of the fragment. -/
def copyPayload (huge : Option Block) (ptr : DataPtr) (c : Build) (f : Fragment) : Build where
  mem := memcpy c.mem (ptr.add f.offset) (f.wdata.current.add f.hdrLen) f.size
  currentLength := (c.currentLength + f.size) % 2 ^ 16
  followedNodesCnt := (c.followedNodesCnt + 1) % 2 ^ 8
  copies := c.copies ++ [⟨huge, ptr.add f.offset, f.size⟩]

@[simp] theorem copyPayload_mem : (copyPayload huge ptr c f).mem =
    memcpy c.mem (ptr.add f.offset) (f.wdata.current.add f.hdrLen) f.size := rfl

@[simp] theorem copyPayload_currentLength : (copyPayload huge ptr c f).currentLength =
    (c.currentLength + f.size) % 2 ^ 16 := rfl

@[simp] theorem copyPayload_followed : (copyPayload huge ptr c f).followedNodesCnt =
    (c.followedNodesCnt + 1) % 2 ^ 8 := rfl

@[simp] theorem copyPayload_copies : (copyPayload huge ptr c f).copies =
    c.copies ++ [⟨huge, ptr.add f.offset, f.size⟩] := rfl

theorem copyFrag_eq (h : FragOk s f) :
    copyFrag s huge ptr f.buffer c = copyPayload huge ptr c f := by
  simp only [copyFrag, copyPayload, h.wdata, h.fragOffset, h.fragSize, h.ipHdrLen, h.followed,
    Nat.add_zero]

/-- The loop visits the cached fragments in order. -/
theorem copyFrags_eq {p : Option BufferId} {fuel : Nat}
    (linked : Seg s.nextFrag p (buffers fs) none) (ok : ∀ f ∈ fs, FragOk s f)
    (hfuel : fs.length ≤ fuel) (c : Build) :
    copyFrags s huge ptr fuel p c = fs.foldl (copyPayload huge ptr) c := by
  induction fs generalizing p fuel c with
  | nil =>
      obtain rfl : p = none := linked
      unfold copyFrags
      rfl
  | cons f fs ih =>
      obtain ⟨rfl, hrest⟩ := linked
      cases fuel with
      | zero => simp at hfuel
      | succ fuel =>
          rw [copyFrags, copyFrag_eq (ok f (List.mem_cons_self ..)), List.foldl_cons]
          exact ih hrest (fun g hg => ok g (List.mem_cons_of_mem _ hg)) (by simpa using hfuel) _

theorem foldl_copies : (fs.foldl (copyPayload huge ptr) c).copies =
    c.copies ++ fs.map fun f => ⟨huge, ptr.add f.offset, f.size⟩ := by
  induction fs generalizing c with
  | nil => simp
  | cons f fs ih =>
      rw [List.foldl_cons, ih]
      simp

theorem foldl_currentLength (hzero : c.currentLength = 0) :
    (fs.foldl (copyPayload huge ptr) c).currentLength = meetLen fs := by
  induction fs using List.reverseRecOn with
  | nil => simpa [meetLen] using hzero
  | append_singleton fs f ih =>
      rw [List.foldl_concat, copyPayload_currentLength, ih, meetLen_append]

theorem foldl_followed (hzero : c.followedNodesCnt = 0) (hlen : fs.length < 2 ^ 8) :
    (fs.foldl (copyPayload huge ptr) c).followedNodesCnt = fs.length := by
  induction fs using List.reverseRecOn with
  | nil => simpa using hzero
  | append_singleton fs f ih =>
      rw [List.length_append, List.length_singleton] at hlen
      rw [List.foldl_concat, copyPayload_followed, ih (by omega), List.length_append,
        List.length_singleton]
      omega

/-- The loop writes to the huge packet only. -/
theorem foldl_load_of_ne {q : DataPtr} (h : q.block ≠ ptr.block) :
    load (fs.foldl (copyPayload huge ptr) c).mem q = load c.mem q := by
  induction fs using List.reverseRecOn with
  | nil => rfl
  | append_singleton fs f ih =>
      rw [List.foldl_concat, copyPayload_mem, memcpy, load_store_of_ne (by exact Ne.symm h), ih]

/-- The fragment that a payload byte comes from: the last one copied over it. -/
def writer (fs : List Fragment) (i : Nat) : Option Fragment :=
  (fs.filter fun f => f.offset ≤ i ∧ i < f.stop).getLast?

theorem writer_append (fs : List Fragment) (f : Fragment) (i : Nat) :
    writer (fs ++ [f]) i = if f.offset ≤ i ∧ i < f.stop then some f else writer fs i := by
  by_cases h : f.offset ≤ i ∧ i < f.stop
  · simp [writer, h]
  · simp only [writer, List.filter_append, h]
    simp [h]

/-- A byte behind the header after the loop: that of its writer, or what was there. -/
theorem foldl_load {blk : Block} (hptr : ptr.block = some blk)
    (apart : ∀ f ∈ fs, f.wdata.dataPtr.block ≠ some blk)
    (intact : ∀ f ∈ fs, load c.mem f.wdata.dataPtr = f.data) (i : Nat) :
    load (fs.foldl (copyPayload huge ptr) c).mem ptr i =
      match writer fs i with
      | none => load c.mem ptr i
      | some f => f.body (i - f.offset) := by
  induction fs using List.reverseRecOn with
  | nil => rfl
  | append_singleton fs f ih =>
      have hsource : load (fs.foldl (copyPayload huge ptr) c).mem
          (f.wdata.current.add f.hdrLen) = f.body := by
        funext j
        have hne : f.wdata.dataPtr.block ≠ ptr.block := by
          rw [hptr]
          exact apart f (by simp)
        rw [load_add, Wdata.current, load_add, foldl_load_of_ne hne, intact f (by simp)]
        rfl
      rw [List.foldl_concat, copyPayload_mem, memcpy, hsource,
        load_store (b := blk) (by simpa using hptr) hptr, writer_append, DataPtr.add_offset]
      have hcover : ptr.offset + f.offset ≤ ptr.offset + i ∧
          ptr.offset + i < ptr.offset + f.offset + f.size ↔ f.offset ≤ i ∧ i < f.stop := by
        rw [Fragment.stop]
        omega
      by_cases h : f.offset ≤ i ∧ i < f.stop
      · rw [if_pos (hcover.mpr h), if_pos h]
        congr 1
        omega
      · rw [if_neg (mt hcover.mp h), if_neg h]
        exact ih (fun g hg => apart g (by simp [hg])) fun g hg => intact g (by simp [hg])

/-! ## The new packet -/

theorem isReass_of_flag {w : Wdata} {x : UInt8}
    (h : w.unused8 = x ||| unused8FlagIpReassPkt ||| unused8PktHugePktWithWdata) : w.isReass := by
  have hbit : ∀ y : BitVec 8, (y ||| 8#8 ||| 7#8) &&& 8#8 ≠ 0#8 := by decide
  rw [Wdata.isReass, h]
  exact fun hx => hbit x.toBitVec (congrArg UInt8.toBitVec hx)

theorem allocHugePkt16k_ne_null (huge : Option Block) : allocHugePkt16k huge ≠ .null := by
  intro h
  have hoff := congrArg DataPtr.offset h
  simp [allocHugePkt16k, DataPtr.null, sfHugePktPreDataSize] at hoff

/-- Where the payload of the packet starts in the huge buffer. -/
def payloadPtr (huge : Option Block) (f : Fragment) : DataPtr :=
  ((allocHugePkt16k huge).add f.before).add f.hdrLen

/-- The copies of one build, in order. -/
def buildCopies (huge : Option Block) (first : Fragment) (fs : List Fragment) : List Copy :=
  [⟨huge, allocHugePkt16k huge, first.before⟩,
    ⟨huge, (allocHugePkt16k huge).add first.before, first.hdrLen⟩] ++
  fs.map fun f => ⟨huge, (payloadPtr huge first).add f.offset, f.size⟩

@[simp] theorem store_block_none (mem : PacketMem) (p : DataPtr) (n : Nat) (bytes : Nat → UInt8)
    (h : p.block = none) : store mem p n bytes = mem := by
  simp [store, h]

/-- Updating the length fields writes to the header only. -/
theorem updateIpReassPkt_load_of_ne {mem : PacketMem} {w : IpWdata} {hdr q : DataPtr}
    (h : q.block ≠ hdr.block) : load (updateIpReassPkt env mem w hdr) q = load mem q := by
  unfold updateIpReassPkt
  dsimp only
  split
  · rw [load_store_of_ne (by simpa using Ne.symm h), load_store_of_ne (by simpa using Ne.symm h)]
  · rw [load_store_of_ne (by simpa using Ne.symm h)]

theorem updateIpReassPkt_load {mem : PacketMem} {w : IpWdata} {hdr : DataPtr} {hdrLen : Nat}
    (hlen : 12 ≤ hdrLen) (i : Nat) :
    load (updateIpReassPkt env mem w hdr) (hdr.add hdrLen) i = load mem (hdr.add hdrLen) i := by
  obtain ⟨_ | b, off⟩ := hdr
  · rfl
  · unfold updateIpReassPkt
    dsimp only
    have hbehind : ∀ k, k + 2 ≤ 12 → ¬((DataPtr.mk (some b) off).add k).offset ≤
        ((DataPtr.mk (some b) off).add hdrLen).offset + i ∨
        ¬((DataPtr.mk (some b) off).add hdrLen).offset + i <
          ((DataPtr.mk (some b) off).add k).offset + 2 := by
      intro k hk
      simp only [DataPtr.add_offset]
      omega
    split
    · rw [load_store (b := b) rfl rfl, if_neg (not_and_or.mpr (hbehind 10 (by omega))),
        load_store (b := b) rfl rfl, if_neg (not_and_or.mpr (hbehind 2 (by omega)))]
    · rw [load_store (b := b) rfl rfl, if_neg (not_and_or.mpr (hbehind 4 (by omega)))]

/-- The two versions clear the fragment fields of the header in the huge buffer. -/
theorem clearFrag_load_of_ne (v : Version) {mem : PacketMem} {hdr q : DataPtr} {n : Nat}
    (h : q.block ≠ hdr.block) : load (v.fields.clearFrag mem hdr n) q = load mem q := by
  cases v with
  | ip4 =>
      simp only [Version.fields, ip4Fields]
      exact load_store_of_ne (Ne.symm h)
  | ip6 =>
      simp only [Version.fields, ip6Fields]
      rw [load_store_of_ne (by exact Ne.symm h), load_store_of_ne (by exact Ne.symm h)]

/-- The buffer `b` holds the packet built from the fragments `fs`, of which `first` came first. -/
structure Packet (t : Worker) (b : BufferId) (huge : Option Block) (first : Fragment)
    (fs : List Fragment) : Prop where
  childFrag : (t.record b).childFrag = some first.buffer
  nextFrag : (t.record b).nextFrag = none
  followed : (t.record b).followedNodesCnt = fs.length
  isReass : (t.wdata b).isReass
  current : (t.wdata b).current = payloadPtr huge first
  length : (t.wdata b).currentLength = meetLen fs
  payload : ∀ blk, huge = some blk → 12 ≤ first.hdrLen →
    (∀ f ∈ fs, f.wdata.dataPtr.block ≠ some blk) → ∀ i,
      ∀ f, writer fs i = some f → load t.mem (payloadPtr huge first) i = f.body (i - f.offset)

/-- What building a packet changes: the buffer `b`, the huge packet and the log of copies. -/
structure BuildFrame (s t : Worker) (b : BufferId) (huge : Option Block) (copies : List Copy) :
    Prop where
  record : ∀ c, c ≠ b → t.record c = s.record c
  wdata : ∀ c, c ≠ b → t.wdata c = s.wdata c
  mem : ∀ q : DataPtr, q.block ≠ huge → load t.mem q = load s.mem q
  copies : t.copies = s.copies ++ copies
  table : t.table = s.table
  node : t.node = s.node
  books : t.toBookkeeping = s.toBookkeeping
  completed : t.completed = s.completed

/-- `ip4_frag_build_pkt` and `ip6_frag_build_pkt` once both allocations have succeeded. -/
theorem buildInto_spec (env : Env) (huge : Option Block) (v : Version) (h : Chain s (f :: fs))
    {fuel : Nat}
    (hfuel : (f :: fs).length ≤ fuel) (hsmall : (f :: fs).length < 2 ^ 8) (b : BufferId) :
    Packet (buildInto v.fields env s f.buffer b huge fuel) b huge f (f :: fs) ∧
      BuildFrame s (buildInto v.fields env s f.buffer b huge fuel) b huge
        (buildCopies huge f (f :: fs)) := by
  have hf := h.ok f (List.mem_cons_self ..)
  obtain ⟨start, hstart⟩ : ∃ start : Build, start =
      { mem := v.fields.clearFrag
          (memcpy (memcpy s.mem (allocHugePkt16k huge) f.wdata.dataPtr f.before)
            ((allocHugePkt16k huge).add f.before) f.wdata.current f.hdrLen)
          ((allocHugePkt16k huge).add f.before) f.hdrLen
        currentLength := 0
        followedNodesCnt := 0
        copies := s.copies ++ [⟨huge, allocHugePkt16k huge, f.before⟩,
          ⟨huge, (allocHugePkt16k huge).add f.before, f.hdrLen⟩] } := ⟨_, rfl⟩
  have hloop : copyFrags s huge (payloadPtr huge f) fuel (some f.buffer) start =
      (f :: fs).foldl (copyPayload huge (payloadPtr huge f)) start :=
    copyFrags_eq h.linked h.ok hfuel start
  obtain ⟨c, hc⟩ : ∃ c, c = (f :: fs).foldl (copyPayload huge (payloadPtr huge f)) start :=
    ⟨_, rfl⟩
  have hblock : (payloadPtr huge f).block = huge := rfl
  have hlength : c.currentLength = meetLen (f :: fs) :=
    hc ▸ foldl_currentLength (by rw [hstart])
  have hfollowed : c.followedNodesCnt = (f :: fs).length :=
    hc ▸ foldl_followed (by rw [hstart]) hsmall
  have hcopies : c.copies = s.copies ++ buildCopies huge f (f :: fs) := by
    rw [hc, foldl_copies, hstart, List.append_assoc]
    rfl
  have hstartMem : ∀ q : DataPtr, q.block ≠ huge → load start.mem q = load s.mem q := by
    intro q hq
    rw [hstart, clearFrag_load_of_ne v (by exact hq), memcpy,
      load_store_of_ne (by exact Ne.symm hq),
      memcpy, load_store_of_ne (by exact Ne.symm hq)]
  have hmem : ∀ q : DataPtr, q.block ≠ huge → load c.mem q = load s.mem q := fun q hq => by
    rw [hc, foldl_load_of_ne hq, hstartMem q hq]
  have hbuild : buildInto v.fields env s f.buffer b huge fuel =
      { s with
        mem :=
          if f.output ≠ 0 then
            updateIpReassPkt env c.mem
              { f.wdata.ipWdata with payloadLen := c.currentLength, reassOver := 1 }
              ((allocHugePkt16k huge).add f.before)
          else c.mem
        wdata := Function.update s.wdata b
          { f.wdata with
            unused8 := f.wdata.unused8 ||| unused8FlagIpReassPkt ||| unused8PktHugePktWithWdata
            dataPtr := allocHugePkt16k huge
            currentData := f.before + f.hdrLen
            currentLength := c.currentLength
            ipWdata := { f.wdata.ipWdata with payloadLen := c.currentLength, reassOver := 1 } }
        record := Function.update s.record b
          { s.record b with
            followedNodesCnt := c.followedNodesCnt
            ipReassOutput := f.output
            interfaceId := (s.record f.buffer).interfaceId
            childFrag := some f.buffer
            nextFrag := none }
        copies := c.copies } := by
    rw [hc, ← hloop, hstart]
    simp only [buildInto, hf.wdata, hf.ipHdrLen, hf.output]
    rfl
  rw [hbuild]
  refine ⟨⟨?_, ?_, ?_, ?_, ?_, ?_, ?_⟩, ⟨?_, ?_, ?_, hcopies, rfl, rfl, rfl, rfl⟩⟩
  · simp only [Function.update_self]
  · simp only [Function.update_self]
  · simp only [Function.update_self]
    exact hfollowed
  · simp only [Function.update_self]
    exact isReass_of_flag rfl
  · simp only [Function.update_self, Wdata.current, payloadPtr, DataPtr.add, Nat.add_assoc]
  · simp only [Function.update_self]
    exact hlength
  · intro blk hblk hlen apart i g hg
    have hbyte : load c.mem (payloadPtr huge f) i = g.body (i - g.offset) := by
      rw [hc, foldl_load (hblock.trans hblk) apart
        (fun e he => by
          rw [hstartMem _ (by rw [hblk]; exact apart e he)]
          exact (h.ok e he).data), hg]
    dsimp only
    split
    · rw [payloadPtr, updateIpReassPkt_load hlen]
      exact hbyte
    · exact hbyte
  · exact fun e he => Function.update_of_ne he _ _
  · exact fun e he => Function.update_of_ne he _ _
  · intro q hq
    dsimp only
    split
    · rw [updateIpReassPkt_load_of_ne (by exact hq), hmem q hq]
    · exact hmem q hq

end Tapplet.Reass
