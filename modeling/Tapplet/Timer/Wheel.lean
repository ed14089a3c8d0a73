import Mathlib.Data.Nat.Bits
import Mathlib.Data.List.Nodup
import Mathlib.Data.List.Perm.Basic
import Tapplet.Lib.Linked
import Tapplet.Lib.Ledger
import Tapplet.Timer.Basic

/-!
# What the wheel holds

An entry is a timer in the wheel: the slot that its handle is stored in, the word that
the slot holds and the tick at which it expires. `WheelInv` says that the buckets hold
the waiting entries, each in the bucket of its tick, and that the expired chunks hold
the expired ones. Submitting, stopping and each round of the expiry loop are described
by what they do to the two lists of entries.
-/

namespace Tapplet.SfTimer

open Linked

/-- A timer in the wheel. `id` tells the timers apart. -/
structure Entry where
  id : Nat
  addr : SlotAddr
  data : Nat
  due : Nat
  deriving DecidableEq

/-- The addresses of the used slots of a chunk. -/
def SfTwTimer.chunkSlots (tw : SfTwTimer) (c : ChunkId) : List SlotAddr :=
  (List.range (tw.chunk c).currentSlotCnt).map (c, ·)

/-- A chunk that is linked somewhere has at least one used slot, and they fit its array. -/
def SfTwTimer.ChunkOk (tw : SfTwTimer) (c : ChunkId) : Prop :=
  0 < (tw.chunk c).currentSlotCnt ∧ (tw.chunk c).currentSlotCnt ≤ sfTwTimerSlotCnt

/-- The bucket `b` is the chain of the chunks `cs`, whose slots hold the entries `es`. -/
structure BucketInv (tw : SfTwTimer) (b : SfTimerBucket) (cs : List ChunkId)
    (es : List Entry) : Prop where
  linked : Seg tw.nextChunk b.firstChunk cs none
  last : b.currentChunk = cs.getLast?
  slots : cs.flatMap tw.chunkSlots = es.map (·.addr)
  used : b.slotUsedCnt = es.length
  left : ∀ c, cs.getLast? = some c →
    b.slotLeftCnt + (tw.chunk c).currentSlotCnt = sfTwTimerSlotCnt
  leftNone : cs = [] → b.slotLeftCnt = 0
  ok : ∀ c ∈ cs, tw.ChunkOk c

/-- The entries of the bucket `i`. -/
def bucketEntries (es : List Entry) (i : Nat) : List Entry :=
  es.filter fun e => e.due % sfTwTimerBucketCnt = i

/-- The wheel has advanced `count` ticks. Its buckets hold the entries `waiting`, in the
chunks `chunks`, and the chain from `first` is that of the `expired` chunks, which hold
the entries `late`. -/
structure WheelInv (tw : SfTwTimer) (first : Option ChunkId) (held : List ChunkId)
    (chunks : Nat → List ChunkId) (expired : List ChunkId) (count : Nat)
    (waiting late : List Entry) : Prop where
  index : tw.preBucketIndex = count % sfTwTimerBucketCnt
  bucket : ∀ i < sfTwTimerBucketCnt,
    BucketInv tw (tw.sfTimerBuckets i) (chunks i) (bucketEntries waiting i)
  due : ∀ e ∈ waiting, count < e.due ∧ e.due ≤ count + sfTwTimerBucketCnt
  expiredLinked : Seg tw.nextChunk first expired none
  expiredSlots : expired.flatMap tw.chunkSlots = late.map (·.addr)
  expiredOk : ∀ c ∈ expired, tw.ChunkOk c
  overdue : ∀ e ∈ late, e.due ≤ count
  stored : ∀ e ∈ waiting ++ late, tw.slot e.addr = e.data
  places : held.Perm ((List.range sfTwTimerBucketCnt).flatMap chunks ++ expired)
  nodup : held.Nodup

theorem and_sfTwTimerBucketMask (x : Nat) :
    x &&& sfTwTimerBucketMask = x % sfTwTimerBucketCnt :=
  Nat.and_two_pow_sub_one_eq_mod x 14

theorem sfTwTimerBucketCnt_eq : sfTwTimerBucketCnt = 16384 := rfl

theorem sfTwTimerBucketCnt_pos : 0 < sfTwTimerBucketCnt := by decide

/-! ## Reading after writing -/

section Read

variable (tw : SfTwTimer) (c d : ChunkId)

@[simp] theorem setBucket_chunk (i : Nat) (b : SfTimerBucket) :
    (tw.setBucket i b).chunk = tw.chunk := rfl

@[simp] theorem setBucket_slot (i : Nat) (b : SfTimerBucket) :
    (tw.setBucket i b).slot = tw.slot := rfl

@[simp] theorem setBucket_nextChunk (i : Nat) (b : SfTimerBucket) :
    (tw.setBucket i b).nextChunk = tw.nextChunk := rfl

@[simp] theorem setNext_buckets (next : Option ChunkId) :
    (tw.setNext c next).sfTimerBuckets = tw.sfTimerBuckets := rfl

@[simp] theorem storeSlot_buckets (data : Nat) :
    (storeSlot tw c data).sfTimerBuckets = tw.sfTimerBuckets := rfl

@[simp] theorem startChunk_buckets (data : Nat) :
    (startChunk tw c data).sfTimerBuckets = tw.sfTimerBuckets := rfl

theorem setNext_nextChunk (next : Option ChunkId) :
    (tw.setNext c next).nextChunk = Function.update tw.nextChunk c next := by
  funext d
  by_cases hd : d = c
  · subst hd
    simp [SfTwTimer.nextChunk, SfTwTimer.setNext, SfTwTimer.setChunk]
  · simp [SfTwTimer.nextChunk, SfTwTimer.setNext, SfTwTimer.setChunk, hd]

@[simp] theorem setNext_slotCnt (next : Option ChunkId) :
    ((tw.setNext c next).chunk d).currentSlotCnt = (tw.chunk d).currentSlotCnt := by
  by_cases hd : d = c
  · subst hd
    simp [SfTwTimer.setNext, SfTwTimer.setChunk]
  · simp [SfTwTimer.setNext, SfTwTimer.setChunk, hd]

@[simp] theorem setNext_slot (next : Option ChunkId) : (tw.setNext c next).slot = tw.slot := by
  funext a
  by_cases ha : a.1 = c
  · simp [SfTwTimer.slot, SfTwTimer.setNext, SfTwTimer.setChunk, ← ha]
  · simp [SfTwTimer.slot, SfTwTimer.setNext, SfTwTimer.setChunk, ha]

@[simp] theorem setSlot_nextChunk (a : SlotAddr) (data : Nat) :
    (tw.setSlot a data).nextChunk = tw.nextChunk := by
  funext d
  by_cases hd : d = a.1
  · simp [SfTwTimer.nextChunk, SfTwTimer.setSlot, SfTwTimer.setChunk, hd]
  · simp [SfTwTimer.nextChunk, SfTwTimer.setSlot, SfTwTimer.setChunk, hd]

@[simp] theorem setSlot_slotCnt (a : SlotAddr) (data : Nat) :
    ((tw.setSlot a data).chunk d).currentSlotCnt = (tw.chunk d).currentSlotCnt := by
  by_cases hd : d = a.1
  · simp [SfTwTimer.setSlot, SfTwTimer.setChunk, hd]
  · simp [SfTwTimer.setSlot, SfTwTimer.setChunk, hd]

theorem setSlot_slot (a b : SlotAddr) (data : Nat) :
    (tw.setSlot a data).slot b = if b = a then data else tw.slot b := by
  obtain ⟨a, i⟩ := a
  obtain ⟨b, j⟩ := b
  by_cases hb : b = a
  · subst hb
    by_cases hj : j = i
    · simp [SfTwTimer.slot, SfTwTimer.setSlot, SfTwTimer.setChunk, hj]
    · simp [SfTwTimer.slot, SfTwTimer.setSlot, SfTwTimer.setChunk, hj]
  · simp [SfTwTimer.slot, SfTwTimer.setSlot, SfTwTimer.setChunk, hb]

@[simp] theorem storeSlot_nextChunk (data : Nat) :
    (storeSlot tw c data).nextChunk = tw.nextChunk := by
  funext d
  by_cases hd : d = c
  · simp [SfTwTimer.nextChunk, storeSlot, SfTwTimer.setChunk, hd]
  · simp [SfTwTimer.nextChunk, storeSlot, SfTwTimer.setChunk, hd]

theorem storeSlot_slotCnt (data : Nat) :
    ((storeSlot tw c data).chunk d).currentSlotCnt =
      if d = c then (tw.chunk c).currentSlotCnt + 1 else (tw.chunk d).currentSlotCnt := by
  by_cases hd : d = c
  · simp [storeSlot, SfTwTimer.setChunk, hd]
  · simp [storeSlot, SfTwTimer.setChunk, hd]

theorem storeSlot_slot (data : Nat) (b : SlotAddr) :
    (storeSlot tw c data).slot b =
      if b = (c, (tw.chunk c).currentSlotCnt) then data else tw.slot b := by
  obtain ⟨b, j⟩ := b
  by_cases hb : b = c
  · subst hb
    by_cases hj : j = (tw.chunk b).currentSlotCnt
    · simp [SfTwTimer.slot, storeSlot, SfTwTimer.setChunk, hj]
    · simp [SfTwTimer.slot, storeSlot, SfTwTimer.setChunk, hj]
  · simp [SfTwTimer.slot, storeSlot, SfTwTimer.setChunk, hb]

theorem startChunk_nextChunk (data : Nat) :
    (startChunk tw c data).nextChunk = Function.update tw.nextChunk c none := by
  funext d
  by_cases hd : d = c
  · subst hd
    simp [SfTwTimer.nextChunk, startChunk, SfTwTimer.setChunk]
  · simp [SfTwTimer.nextChunk, startChunk, SfTwTimer.setChunk, hd]

theorem startChunk_slotCnt (data : Nat) :
    ((startChunk tw c data).chunk d).currentSlotCnt =
      if d = c then 1 else (tw.chunk d).currentSlotCnt := by
  by_cases hd : d = c
  · simp [startChunk, SfTwTimer.setChunk, hd]
  · simp [startChunk, SfTwTimer.setChunk, hd]

theorem startChunk_slot (data : Nat) : (startChunk tw c data).slot (c, 0) = data := by
  simp [SfTwTimer.slot, startChunk, SfTwTimer.setChunk]

theorem startChunk_slot_of_ne (data : Nat) {b : SlotAddr} (hb : b.1 ≠ c) :
    (startChunk tw c data).slot b = tw.slot b := by
  simp [SfTwTimer.slot, startChunk, SfTwTimer.setChunk, hb]

end Read

/-! ## Slots of a chain -/

section Slots

variable {tw tw' : SfTwTimer}

theorem mem_chunkSlots {c : ChunkId} {a : SlotAddr} :
    a ∈ tw.chunkSlots c ↔ a.1 = c ∧ a.2 < (tw.chunk c).currentSlotCnt := by
  obtain ⟨b, j⟩ := a
  simp only [SfTwTimer.chunkSlots, List.mem_map, List.mem_range, Prod.mk.injEq]
  constructor
  · rintro ⟨i, hi, rfl, rfl⟩
    exact ⟨rfl, hi⟩
  · rintro ⟨rfl, hj⟩
    exact ⟨j, hj, rfl, rfl⟩

theorem chunkSlots_nodup (c : ChunkId) : (tw.chunkSlots c).Nodup :=
  List.nodup_range.map fun _ _ h => (Prod.mk.inj h).2

theorem chunkSlots_congr {c : ChunkId}
    (h : (tw'.chunk c).currentSlotCnt = (tw.chunk c).currentSlotCnt) :
    tw'.chunkSlots c = tw.chunkSlots c := by
  rw [SfTwTimer.chunkSlots, SfTwTimer.chunkSlots, h]

theorem flatMap_chunkSlots_congr (tw : SfTwTimer) {tw' : SfTwTimer} {cs : List ChunkId}
    (h : ∀ c ∈ cs, (tw'.chunk c).currentSlotCnt = (tw.chunk c).currentSlotCnt) :
    cs.flatMap tw'.chunkSlots = cs.flatMap tw.chunkSlots :=
  List.flatMap_congr fun c hc => chunkSlots_congr (h c hc)

theorem flatMap_chunkSlots_nodup {cs : List ChunkId} (h : cs.Nodup) :
    (cs.flatMap tw.chunkSlots).Nodup := by
  refine List.nodup_flatMap.mpr ⟨fun c _ => chunkSlots_nodup c, h.imp ?_⟩
  intro c d hcd a ha hd
  exact hcd ((mem_chunkSlots.mp ha).1.symm.trans (mem_chunkSlots.mp hd).1)

/-- Frame rule: a bucket depends on the links and lengths of its own chunks. -/
theorem BucketInv.congr {b : SfTimerBucket} {cs : List ChunkId} {es : List Entry}
    (h : BucketInv tw b cs es) (next : ∀ c ∈ cs, tw'.nextChunk c = tw.nextChunk c)
    (cnt : ∀ c ∈ cs, (tw'.chunk c).currentSlotCnt = (tw.chunk c).currentSlotCnt) :
    BucketInv tw' b cs es where
  linked := h.linked.congr next
  last := h.last
  slots := (flatMap_chunkSlots_congr _ cnt).trans h.slots
  used := h.used
  left := by
    intro c hc
    rw [cnt c (List.mem_of_getLast? hc)]
    exact h.left c hc
  leftNone := h.leftNone
  ok := by
    intro c hc
    rw [SfTwTimer.ChunkOk, cnt c hc]
    exact h.ok c hc

/-- The address of an entry of a bucket is a used slot of one of its chunks. -/
theorem BucketInv.addr_mem {b : SfTimerBucket} {cs : List ChunkId} {es : List Entry}
    (h : BucketInv tw b cs es) {e : Entry} (he : e ∈ es) :
    e.addr.1 ∈ cs ∧ e.addr.2 < (tw.chunk e.addr.1).currentSlotCnt := by
  have hmem : e.addr ∈ cs.flatMap tw.chunkSlots := by
    rw [h.slots]
    exact List.mem_map_of_mem he
  obtain ⟨c, hc, ha⟩ := List.mem_flatMap.mp hmem
  obtain ⟨rfl, hlt⟩ := mem_chunkSlots.mp ha
  exact ⟨hc, hlt⟩

theorem BucketInv.zero : BucketInv tw .zero [] [] where
  linked := rfl
  last := rfl
  slots := rfl
  used := rfl
  left := by simp
  leftNone := fun _ => rfl
  ok := by simp

theorem BucketInv.eq_nil_of_used {b : SfTimerBucket} {cs : List ChunkId} {es : List Entry}
    (h : BucketInv tw b cs es) (hused : b.slotUsedCnt = 0) : cs = [] ∧ es = [] := by
  obtain rfl : es = [] := by simpa [hused] using h.used.symm
  refine ⟨?_, rfl⟩
  by_contra hne
  obtain ⟨c, hc⟩ := List.exists_mem_of_ne_nil cs hne
  have hzero : (c, 0) ∈ cs.flatMap tw.chunkSlots :=
    List.mem_flatMap.mpr ⟨c, hc, mem_chunkSlots.mpr ⟨rfl, (h.ok c hc).1⟩⟩
  simp [h.slots] at hzero

end Slots

/-! ## Where the chunks and entries are -/

@[simp] theorem bucketEntries_append (es fs : List Entry) (i : Nat) :
    bucketEntries (es ++ fs) i = bucketEntries es i ++ bucketEntries fs i :=
  List.filter_append ..

theorem bucketEntries_singleton (e : Entry) (i : Nat) :
    bucketEntries [e] i = if e.due % sfTwTimerBucketCnt = i then [e] else [] := by
  by_cases h : e.due % sfTwTimerBucketCnt = i
  · simp [bucketEntries, h]
  · simp [bucketEntries, h]

theorem mem_bucketEntries {es : List Entry} {i : Nat} {e : Entry} :
    e ∈ bucketEntries es i ↔ e ∈ es ∧ e.due % sfTwTimerBucketCnt = i := by
  simp [bucketEntries]

namespace WheelInv

variable {tw tw' : SfTwTimer} {first : Option ChunkId} {held expired : List ChunkId}
  {chunks : Nat → List ChunkId} {count : Nat} {waiting late : List Entry}

theorem places_nodup (h : WheelInv tw first held chunks expired count waiting late) :
    ((List.range sfTwTimerBucketCnt).flatMap chunks ++ expired).Nodup :=
  h.places.nodup_iff.mp h.nodup

theorem bucket_held (h : WheelInv tw first held chunks expired count waiting late) {i : Nat}
    (hi : i < sfTwTimerBucketCnt) {c : ChunkId} (hc : c ∈ chunks i) : c ∈ held :=
  h.places.mem_iff.mpr
    (List.mem_append_left _ (List.mem_flatMap.mpr ⟨i, List.mem_range.mpr hi, hc⟩))

theorem expired_held (h : WheelInv tw first held chunks expired count waiting late)
    {c : ChunkId} (hc : c ∈ expired) : c ∈ held :=
  h.places.mem_iff.mpr (List.mem_append_right _ hc)

theorem chunks_nodup (h : WheelInv tw first held chunks expired count waiting late) {i : Nat}
    (hi : i < sfTwTimerBucketCnt) : (chunks i).Nodup :=
  Ledger.place_nodup (List.nodup_append.mp h.places_nodup).1 (List.mem_range.mpr hi)

theorem expired_nodup (h : WheelInv tw first held chunks expired count waiting late) :
    expired.Nodup :=
  (List.nodup_append.mp h.places_nodup).2.1

theorem bucket_unique (h : WheelInv tw first held chunks expired count waiting late) {i j : Nat}
    (hi : i < sfTwTimerBucketCnt) (hj : j < sfTwTimerBucketCnt) {c : ChunkId}
    (hci : c ∈ chunks i) (hcj : c ∈ chunks j) : i = j :=
  Ledger.place_unique (List.nodup_append.mp h.places_nodup).1 (List.mem_range.mpr hi)
    (List.mem_range.mpr hj) hci hcj

theorem not_expired (h : WheelInv tw first held chunks expired count waiting late) {i : Nat}
    (hi : i < sfTwTimerBucketCnt) {c : ChunkId} (hc : c ∈ chunks i) : c ∉ expired := by
  intro hexp
  exact (List.nodup_append.mp h.places_nodup).2.2 c
    (List.mem_flatMap.mpr ⟨i, List.mem_range.mpr hi, hc⟩) c hexp rfl

/-- A waiting entry is in a used slot of a chunk of the bucket of its tick. -/
theorem waiting_addr (h : WheelInv tw first held chunks expired count waiting late) {e : Entry}
    (he : e ∈ waiting) :
    e.addr.1 ∈ chunks (e.due % sfTwTimerBucketCnt) ∧
      e.addr.2 < (tw.chunk e.addr.1).currentSlotCnt :=
  (h.bucket _ (Nat.mod_lt _ sfTwTimerBucketCnt_pos)).addr_mem (mem_bucketEntries.mpr ⟨he, rfl⟩)

theorem late_addr (h : WheelInv tw first held chunks expired count waiting late) {e : Entry}
    (he : e ∈ late) :
    e.addr.1 ∈ expired ∧ e.addr.2 < (tw.chunk e.addr.1).currentSlotCnt := by
  have hmem : e.addr ∈ expired.flatMap tw.chunkSlots := by
    rw [h.expiredSlots]
    exact List.mem_map_of_mem he
  obtain ⟨c, hc, ha⟩ := List.mem_flatMap.mp hmem
  obtain ⟨rfl, hlt⟩ := mem_chunkSlots.mp ha
  exact ⟨hc, hlt⟩

/-- Every entry is in a used slot of a chunk that the wheel holds. -/
theorem addr_held (h : WheelInv tw first held chunks expired count waiting late) {e : Entry}
    (he : e ∈ waiting ++ late) :
    e.addr.1 ∈ held ∧ e.addr.2 < (tw.chunk e.addr.1).currentSlotCnt := by
  rcases List.mem_append.mp he with he | he
  · obtain ⟨hc, hlt⟩ := h.waiting_addr he
    exact ⟨h.bucket_held (Nat.mod_lt _ sfTwTimerBucketCnt_pos) hc, hlt⟩
  · obtain ⟨hc, hlt⟩ := h.late_addr he
    exact ⟨h.expired_held hc, hlt⟩

/-- No two entries are in the same slot. -/
theorem addr_inj (h : WheelInv tw first held chunks expired count waiting late) {e e' : Entry}
    (he : e ∈ waiting ++ late) (he' : e' ∈ waiting ++ late) (haddr : e.addr = e'.addr) :
    e = e' := by
  have hmixed : ∀ x ∈ waiting, ∀ y ∈ late, x.addr ≠ y.addr := by
    intro x hx y hy hxy
    refine h.not_expired (Nat.mod_lt _ sfTwTimerBucketCnt_pos) (h.waiting_addr hx).1 ?_
    rw [hxy]
    exact (h.late_addr hy).1
  rcases List.mem_append.mp he with hw | hl <;> rcases List.mem_append.mp he' with hw' | hl'
  · have hlt := Nat.mod_lt e.due sfTwTimerBucketCnt_pos
    have hmod : e.due % sfTwTimerBucketCnt = e'.due % sfTwTimerBucketCnt :=
      h.bucket_unique hlt (Nat.mod_lt _ sfTwTimerBucketCnt_pos) (h.waiting_addr hw).1
        (haddr ▸ (h.waiting_addr hw').1)
    have hnodup : ((bucketEntries waiting (e.due % sfTwTimerBucketCnt)).map (·.addr)).Nodup := by
      rw [← (h.bucket _ hlt).slots]
      exact flatMap_chunkSlots_nodup (h.chunks_nodup hlt)
    exact List.inj_on_of_nodup_map hnodup (mem_bucketEntries.mpr ⟨hw, rfl⟩)
      (mem_bucketEntries.mpr ⟨hw', hmod.symm⟩) haddr
  · exact (hmixed e hw e' hl' haddr).elim
  · exact (hmixed e' hw' e hl haddr.symm).elim
  · have hnodup : (late.map (·.addr)).Nodup := by
      rw [← h.expiredSlots]
      exact flatMap_chunkSlots_nodup h.expired_nodup
    exact List.inj_on_of_nodup_map hnodup hl hl' haddr

/-- An entry due at the next tick is in the next bucket, and nothing else is. -/
theorem bucketEntries_next (h : WheelInv tw first held chunks expired count waiting late) :
    bucketEntries waiting ((count + 1) % sfTwTimerBucketCnt) =
      waiting.filter fun e => e.due = count + 1 := by
  refine List.filter_congr fun e he => ?_
  obtain ⟨hlt, hle⟩ := h.due e he
  have hiff : e.due % sfTwTimerBucketCnt = (count + 1) % sfTwTimerBucketCnt ↔
      e.due = count + 1 := by
    rw [sfTwTimerBucketCnt_eq] at hle ⊢
    omega
  simp only [hiff]

end WheelInv

end Tapplet.SfTimer
