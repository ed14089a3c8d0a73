import Tapplet.Timer.Wheel

/-!
# What each operation does to the entries

A submit appends one waiting entry, in the current chunk of its bucket or in a new one.
A stop clears the word of one entry. A round of the expiry loop moves the entries of one
tick from the waiting ones to the late ones, and the input node takes the entries of the
first expired chunk.
-/

namespace Tapplet.SfTimer

open Linked

variable {tw : SfTwTimer} {first : Option ChunkId} {held expired : List ChunkId}
  {chunks : Nat → List ChunkId} {count : Nat} {waiting late : List Entry}

@[simp] theorem setBucket_buckets (tw : SfTwTimer) (i : Nat) (b : SfTimerBucket) :
    (tw.setBucket i b).sfTimerBuckets = Function.update tw.sfTimerBuckets i b := rfl

@[simp] theorem setBucket_preBucketIndex (tw : SfTwTimer) (i : Nat) (b : SfTimerBucket) :
    (tw.setBucket i b).preBucketIndex = tw.preBucketIndex := rfl

/-! ## Submit -/

/-- Storing a handle in the last chunk of a chain adds one slot at its end. -/
theorem flatMap_storeSlot {cs : List ChunkId} {c : ChunkId} {data : Nat} (hnodup : cs.Nodup)
    (hlast : cs.getLast? = some c) :
    cs.flatMap (storeSlot tw c data).chunkSlots =
      cs.flatMap tw.chunkSlots ++ [(c, (tw.chunk c).currentSlotCnt)] := by
  obtain ⟨init, rfl⟩ := List.getLast?_eq_some_iff.mp hlast
  have hinit : ∀ d ∈ init, d ≠ c := by
    rintro d hd rfl
    exact (List.nodup_append.mp hnodup).2.2 d hd d (by simp) rfl
  have hsame : init.flatMap (storeSlot tw c data).chunkSlots = init.flatMap tw.chunkSlots :=
    flatMap_chunkSlots_congr _ fun d hd => by rw [storeSlot_slotCnt, if_neg (hinit d hd)]
  have hc : (storeSlot tw c data).chunkSlots c =
      tw.chunkSlots c ++ [(c, (tw.chunk c).currentSlotCnt)] := by
    rw [SfTwTimer.chunkSlots, storeSlot_slotCnt, if_pos rfl, List.range_succ, List.map_append]
    rfl
  simp [hsame, hc]

/-- Submitting to a bucket with a free slot. -/
theorem WheelInv.store (h : WheelInv tw first held chunks expired count waiting late) {i : Nat}
    {c : ChunkId} {e : Entry} (hlast : (chunks i).getLast? = some c)
    (hleft : 0 < (tw.sfTimerBuckets i).slotLeftCnt)
    (haddr : e.addr = (c, (tw.chunk c).currentSlotCnt))
    (hdue : count < e.due ∧ e.due ≤ count + sfTwTimerBucketCnt)
    (hi : e.due % sfTwTimerBucketCnt = i) :
    WheelInv (takeFreeSlot tw i c e.data) first held chunks expired count (waiting ++ [e])
      late := by
  have hlt : i < sfTwTimerBucketCnt := hi ▸ Nat.mod_lt _ sfTwTimerBucketCnt_pos
  have hc : c ∈ chunks i := List.mem_of_getLast? hlast
  have hb := h.bucket i hlt
  have hroom := hb.left c hlast
  have hother : ∀ d, d ≠ c →
      ((storeSlot tw c e.data).chunk d).currentSlotCnt = (tw.chunk d).currentSlotCnt := by
    intro d hd
    rw [storeSlot_slotCnt, if_neg hd]
  have hself : ((storeSlot tw c e.data).chunk c).currentSlotCnt =
      (tw.chunk c).currentSlotCnt + 1 := by
    rw [storeSlot_slotCnt, if_pos rfl]
  have hexp : ∀ d ∈ expired, d ≠ c := by
    rintro d hd rfl
    exact h.not_expired hlt hc hd
  rw [takeFreeSlot]
  refine
    { index := h.index
      bucket := ?_
      due := ?_
      expiredLinked := by simpa using h.expiredLinked
      expiredSlots := ?_
      expiredOk := ?_
      overdue := h.overdue
      stored := ?_
      places := h.places
      nodup := h.nodup }
  · intro j hj
    by_cases hji : j = i
    · subst hji
      rw [setBucket_buckets, Function.update_self, bucketEntries_append,
        bucketEntries_singleton, if_pos hi]
      refine
        { linked := by simpa using hb.linked
          last := hb.last
          slots := ?_
          used := by simp [hb.used]
          left := ?_
          leftNone := by
            intro hnil
            simp [hnil] at hlast
          ok := ?_ }
      · change (chunks j).flatMap (storeSlot tw c e.data).chunkSlots = _
        rw [flatMap_storeSlot (h.chunks_nodup hlt) hlast, hb.slots]
        simp [haddr]
      · intro d hd
        obtain rfl : c = d := by simpa [hlast] using hd
        simp only [setBucket_chunk, hself]
        omega
      · intro d hd
        by_cases hdc : d = c
        · subst hdc
          simp only [SfTwTimer.ChunkOk, setBucket_chunk, hself]
          omega
        · simp only [SfTwTimer.ChunkOk, setBucket_chunk, hother d hdc]
          exact hb.ok d hd
    · rw [setBucket_buckets, Function.update_of_ne hji, bucketEntries_append,
        bucketEntries_singleton, if_neg (by omega), List.append_nil]
      refine (h.bucket j hj).congr (fun d _ => by simp) fun d hd => ?_
      rw [setBucket_chunk]
      refine hother d ?_
      rintro rfl
      exact hji (h.bucket_unique hj hlt hd hc)
  · intro x hx
    rcases List.mem_append.mp hx with hx | hx
    · exact h.due x hx
    · obtain rfl := List.mem_singleton.mp hx
      exact hdue
  · rw [← h.expiredSlots]
    exact flatMap_chunkSlots_congr _ fun d hd => hother d (hexp d hd)
  · intro d hd
    simp only [SfTwTimer.ChunkOk, setBucket_chunk, hother d (hexp d hd)]
    exact h.expiredOk d hd
  · intro x hx
    rw [setBucket_slot, storeSlot_slot]
    by_cases hxe : x = e
    · rw [hxe, haddr, if_pos rfl]
    · have hx : x ∈ waiting ++ late := by
        simp only [List.mem_append, List.mem_singleton, hxe, or_false] at hx ⊢
        exact hx
      have hlt := (h.addr_held hx).2
      rw [if_neg, h.stored x hx]
      intro hxa
      simp [hxa] at hlt

/-- Linking a new chunk behind the chain of a bucket. -/
theorem seg_startChunk {cs : List ChunkId} {p : Option ChunkId} {c last : ChunkId} {data : Nat}
    (h : Seg tw.nextChunk p cs none) (hnodup : cs.Nodup) (hc : c ∉ cs)
    (hlast : cs.getLast? = some last) :
    Seg ((startChunk tw c data).setNext last (some c)).nextChunk p (cs ++ [c]) none := by
  obtain ⟨init, rfl⟩ := List.getLast?_eq_some_iff.mp hlast
  have hne : last ≠ c := by
    rintro rfl
    exact hc (by simp)
  have hinit : last ∉ init := by
    intro hmem
    exact (List.nodup_append.mp hnodup).2.2 last hmem last (by simp) rfl
  rw [setNext_nextChunk, startChunk_nextChunk]
  refine Seg.join (h.update hc) ?_ hinit (by simpa using hne)
  simp

@[simp] theorem linkNewChunk_preBucketIndex (i : Nat) (c : ChunkId) (data : Nat) :
    (linkNewChunk tw i c data).preBucketIndex = tw.preBucketIndex := by
  simp only [linkNewChunk]
  split <;> rfl

theorem linkNewChunk_slotCnt (i : Nat) (c d : ChunkId) (data : Nat) :
    ((linkNewChunk tw i c data).chunk d).currentSlotCnt =
      if d = c then 1 else (tw.chunk d).currentSlotCnt := by
  simp only [linkNewChunk]
  split
  · rw [setBucket_chunk, startChunk_slotCnt]
  · rw [setBucket_chunk, setNext_slotCnt, startChunk_slotCnt]

theorem linkNewChunk_slot (i : Nat) (c : ChunkId) (data : Nat) :
    (linkNewChunk tw i c data).slot = (startChunk tw c data).slot := by
  simp only [linkNewChunk]
  split
  · rw [setBucket_slot]
  · rw [setBucket_slot, setNext_slot]

/-- The links of chunks elsewhere are left alone. -/
theorem linkNewChunk_nextChunk {i : Nat} {c d : ChunkId} {data : Nat} (hc : d ≠ c)
    (hlast : (tw.sfTimerBuckets i).currentChunk ≠ some d) :
    (linkNewChunk tw i c data).nextChunk d = tw.nextChunk d := by
  simp only [linkNewChunk]
  split
  · rw [setBucket_nextChunk, startChunk_nextChunk, Function.update_of_ne hc]
  · rename_i last heq
    have hd : d ≠ last := by
      rintro rfl
      exact hlast heq
    rw [setBucket_nextChunk, setNext_nextChunk, startChunk_nextChunk, Function.update_of_ne hd,
      Function.update_of_ne hc]

/-- The bucket of a new chunk has it as its last chunk. -/
theorem linkNewChunk_bucket {i : Nat} {c : ChunkId} {cs : List ChunkId} (data : Nat)
    (linked : Seg tw.nextChunk (tw.sfTimerBuckets i).firstChunk cs none)
    (last : (tw.sfTimerBuckets i).currentChunk = cs.getLast?) (hnodup : cs.Nodup)
    (hc : c ∉ cs) :
    ∃ p, (linkNewChunk tw i c data).sfTimerBuckets =
        Function.update tw.sfTimerBuckets i
          ⟨(tw.sfTimerBuckets i).slotUsedCnt + 1,
            (tw.sfTimerBuckets i).slotLeftCnt + (sfTwTimerSlotCnt - 1), p, some c⟩ ∧
      Seg (linkNewChunk tw i c data).nextChunk p (cs ++ [c]) none := by
  simp only [linkNewChunk]
  split
  · rename_i heq
    obtain rfl : cs = [] := List.getLast?_eq_none_iff.mp (last.symm.trans heq)
    refine ⟨some c, rfl, ?_⟩
    rw [setBucket_nextChunk, startChunk_nextChunk]
    simp
  · rename_i d heq
    refine ⟨(tw.sfTimerBuckets i).firstChunk, rfl, ?_⟩
    rw [setBucket_nextChunk]
    exact seg_startChunk linked hnodup hc (last.symm.trans heq)

/-- Submitting to a bucket without a free slot, with a new chunk. -/
theorem WheelInv.start (h : WheelInv tw first held chunks expired count waiting late) {i : Nat}
    {c : ChunkId} {e : Entry} (fresh : c ∉ held)
    (hleft : (tw.sfTimerBuckets i).slotLeftCnt = 0) (haddr : e.addr = (c, 0))
    (hdue : count < e.due ∧ e.due ≤ count + sfTwTimerBucketCnt)
    (hi : e.due % sfTwTimerBucketCnt = i) :
    WheelInv (linkNewChunk tw i c e.data) first (c :: held)
      (Function.update chunks i (chunks i ++ [c])) expired count (waiting ++ [e]) late := by
  have hlt : i < sfTwTimerBucketCnt := hi ▸ Nat.mod_lt _ sfTwTimerBucketCnt_pos
  have hb := h.bucket i hlt
  have hci : c ∉ chunks i := fun hc => fresh (h.bucket_held hlt hc)
  obtain ⟨p, hbuckets, hseg⟩ :=
    linkNewChunk_bucket e.data hb.linked hb.last (h.chunks_nodup hlt) hci
  have hcnt : ∀ d, d ≠ c →
      ((linkNewChunk tw i c e.data).chunk d).currentSlotCnt = (tw.chunk d).currentSlotCnt := by
    intro d hd
    rw [linkNewChunk_slotCnt, if_neg hd]
  have hcntSelf : ((linkNewChunk tw i c e.data).chunk c).currentSlotCnt = 1 := by
    rw [linkNewChunk_slotCnt, if_pos rfl]
  have hcurrent : ∀ d, d ∉ chunks i → (tw.sfTimerBuckets i).currentChunk ≠ some d := by
    intro d hd heq
    exact hd (List.mem_of_getLast? (hb.last.symm.trans heq))
  have hexpired : ∀ d ∈ expired, d ≠ c ∧ d ∉ chunks i := by
    intro d hd
    refine ⟨?_, fun hdi => h.not_expired hlt hdi hd⟩
    rintro rfl
    exact fresh (h.expired_held hd)
  refine
    { index := by simpa using h.index
      bucket := ?_
      due := ?_
      expiredLinked := ?_
      expiredSlots := ?_
      expiredOk := ?_
      overdue := h.overdue
      stored := ?_
      places := ?_
      nodup := List.nodup_cons.mpr ⟨fresh, h.nodup⟩ }
  · intro j hj
    rw [hbuckets]
    by_cases hji : j = i
    · subst hji
      rw [Function.update_self, Function.update_self, bucketEntries_append,
        bucketEntries_singleton, if_pos hi]
      refine
        { linked := hseg
          last := by simp
          slots := ?_
          used := by simp [hb.used]
          left := ?_
          leftNone := by simp
          ok := ?_ }
      · rw [List.flatMap_append, flatMap_chunkSlots_congr tw, hb.slots]
        · simp [SfTwTimer.chunkSlots, hcntSelf, haddr]
        · intro d hd
          exact hcnt d (ne_of_mem_of_not_mem hd hci)
      · intro d hd
        obtain rfl : c = d := by simpa using hd
        simp only [hcntSelf, hleft]
        decide
      · intro d hd
        by_cases hdc : d = c
        · subst hdc
          rw [SfTwTimer.ChunkOk, hcntSelf]
          decide
        · rw [SfTwTimer.ChunkOk, hcnt d hdc]
          refine hb.ok d ?_
          simpa [hdc] using hd
    · rw [Function.update_of_ne hji, Function.update_of_ne hji, bucketEntries_append,
        bucketEntries_singleton, if_neg (by omega), List.append_nil]
      have hdc : ∀ d ∈ chunks j, d ≠ c := by
        rintro d hd rfl
        exact fresh (h.bucket_held hj hd)
      refine (h.bucket j hj).congr (fun d hd => ?_) fun d hd => hcnt d (hdc d hd)
      refine linkNewChunk_nextChunk (hdc d hd) (hcurrent d fun hdi => hji ?_)
      exact h.bucket_unique hj hlt hd hdi
  · intro x hx
    rcases List.mem_append.mp hx with hx | hx
    · exact h.due x hx
    · obtain rfl := List.mem_singleton.mp hx
      exact hdue
  · refine h.expiredLinked.congr fun d hd => ?_
    exact linkNewChunk_nextChunk (hexpired d hd).1 (hcurrent d (hexpired d hd).2)
  · rw [← h.expiredSlots]
    exact flatMap_chunkSlots_congr _ fun d hd => hcnt d (hexpired d hd).1
  · intro d hd
    rw [SfTwTimer.ChunkOk, hcnt d (hexpired d hd).1]
    exact h.expiredOk d hd
  · intro x hx
    rw [linkNewChunk_slot]
    by_cases hxe : x = e
    · rw [hxe, haddr, startChunk_slot]
    · have hx : x ∈ waiting ++ late := by
        simp only [List.mem_append, List.mem_singleton, hxe, or_false] at hx ⊢
        exact hx
      rw [startChunk_slot_of_ne, h.stored x hx]
      exact ne_of_mem_of_not_mem (h.addr_held hx).1 fresh
  · rw [List.perm_iff_count]
    intro x
    have hold := h.places.count_eq x
    have hmove := Ledger.count_flatMap_exchange (f := chunks)
      (g := Function.update chunks i (chunks i ++ [c])) List.nodup_range
      (List.mem_range.mpr hlt) (fun j _ hj => Function.update_of_ne hj ..) x
    rw [Function.update_self] at hmove
    simp only [List.count_append, List.count_cons, List.count_nil] at hold hmove ⊢
    omega

/-- Fields that submits, stops and the rounds of the expiry loop do not change. -/
structure SameClock (tw tw' : SfTwTimer) : Prop where
  timerInfoStart : tw'.timerInfoStart = tw.timerInfoStart
  expireChunkList : tw'.expireChunkList = tw.expireChunkList
  timerInterval : tw'.timerInterval = tw.timerInterval
  lastRunTime : tw'.lastRunTime = tw.lastRunTime
  nextRunTime : tw'.nextRunTime = tw.nextRunTime

theorem SameClock.refl (tw : SfTwTimer) : SameClock tw tw := ⟨rfl, rfl, rfl, rfl, rfl⟩

theorem SameClock.trans {tw₁ tw₂ tw₃ : SfTwTimer} (h : SameClock tw₁ tw₂)
    (h' : SameClock tw₂ tw₃) : SameClock tw₁ tw₃ where
  timerInfoStart := h'.timerInfoStart.trans h.timerInfoStart
  expireChunkList := h'.expireChunkList.trans h.expireChunkList
  timerInterval := h'.timerInterval.trans h.timerInterval
  lastRunTime := h'.lastRunTime.trans h.lastRunTime
  nextRunTime := h'.nextRunTime.trans h.nextRunTime

theorem linkNewChunk_sameClock (tw : SfTwTimer) (i : Nat) (c : ChunkId) (data : Nat) :
    SameClock tw (linkNewChunk tw i c data) := by
  simp only [linkNewChunk]
  split <;> exact ⟨rfl, rfl, rfl, rfl, rfl⟩

/-- A submit asks the chunk pool for a chunk. -/
def needsChunk (tw : SfTwTimer) (ticks : Nat) : Prop :=
  (tw.sfTimerBuckets ((tw.preBucketIndex + ticks) &&& sfTwTimerBucketMask)).slotLeftCnt = 0

instance (tw : SfTwTimer) (ticks : Nat) : Decidable (needsChunk tw ticks) :=
  inferInstanceAs (Decidable (_ = 0))

/-- The chunks that the wheel holds after a submit. -/
def heldAfterSubmit (tw : SfTwTimer) (ticks : Nat) (newChunk : Option ChunkId)
    (held : List ChunkId) : List ChunkId :=
  if needsChunk tw ticks then newChunk.toList ++ held else held

/-- The first field of a record after a submit with `ticks` ticks. -/
def safeTime (tw : SfTwTimer) (ticks : Nat) : Nat :=
  tw.lastRunTime + (ticks + 2 ^ 32 - 2) % 2 ^ 32 * tw.timerInterval

/-- Everything that a submit can do: it fails and changes nothing, when a chunk is needed
and there is none, or one entry is appended to the waiting ones. The entry is due `d` ticks
from now, where the wheel comes to its bucket next. -/
theorem sfSubmitTimerTw_lands
    (h : WheelInv tw first held chunks expired count waiting late) (info group : Nat)
    {ticks d : Nat} {newChunk : Option ChunkId} (fresh : ∀ c, newChunk = some c → c ∉ held)
    (hmax : ticks ≤ sfTimerMaxTicks) (hpos : 1 ≤ d) (hd : d ≤ sfTimerMaxTicks)
    (hmod : d % sfTwTimerBucketCnt = ticks % sfTwTimerBucketCnt) (id : Nat) :
    (sfSubmitTimerTw tw info group ticks newChunk = (-1, tw, none) ∧ newChunk = none ∧
      needsChunk tw ticks) ∨
    ∃ tw' addr, sfSubmitTimerTw tw info group ticks newChunk =
        (0, tw', some ⟨addr, info, safeTime tw ticks⟩) ∧ SameClock tw tw' ∧
      ∃ chunks', WheelInv tw' first (heldAfterSubmit tw ticks newChunk held) chunks' expired count
        (waiting ++ [⟨id, addr, tw.handleOf group info, count + d⟩]) late := by
  obtain ⟨i, hi⟩ : ∃ i, i = (count + d) % sfTwTimerBucketCnt := ⟨_, rfl⟩
  have hindex : (tw.preBucketIndex + ticks) &&& sfTwTimerBucketMask = i := by
    rw [and_sfTwTimerBucketMask, h.index, hi, Nat.mod_add_mod, Nat.add_mod, ← hmod, ← Nat.add_mod]
  have hlt : i < sfTwTimerBucketCnt := hi ▸ Nat.mod_lt _ sfTwTimerBucketCnt_pos
  have hb := h.bucket i hlt
  have hdue : count < count + d ∧ count + d ≤ count + sfTwTimerBucketCnt :=
    ⟨by omega, by exact Nat.add_le_add_left hd count⟩
  by_cases hleft : 0 < (tw.sfTimerBuckets i).slotLeftCnt
  · right
    have hne : chunks i ≠ [] := by
      intro hnil
      have hzero := hb.leftNone hnil
      omega
    obtain ⟨c, hlast⟩ : ∃ c, (chunks i).getLast? = some c :=
      ⟨_, List.getLast?_eq_getLast_of_ne_nil hne⟩
    have hcur : (tw.sfTimerBuckets i).currentChunk = some c := hb.last.trans hlast
    have hstored := h.store (e := ⟨id, (c, (tw.chunk c).currentSlotCnt),
      tw.handleOf group info, count + d⟩) hlast hleft rfl hdue hi.symm
    refine ⟨takeFreeSlot tw i c (tw.handleOf group info), (c, (tw.chunk c).currentSlotCnt), ?_,
      ⟨rfl, rfl, rfl, rfl, rfl⟩, chunks, ?_⟩
    · simp only [sfSubmitTimerTw, hindex, hcur, if_pos hleft, if_neg (Nat.not_lt.mpr hmax)]
      simp [submitRecord, takeFreeSlot, safeTime, storeSlot, SfTwTimer.setBucket,
        SfTwTimer.setChunk]
    · have hneeds : ¬needsChunk tw ticks := by
        rw [needsChunk, hindex]
        omega
      rw [heldAfterSubmit, if_neg hneeds]
      exact hstored
  · have hzero : (tw.sfTimerBuckets i).slotLeftCnt = 0 := by omega
    have hneeds : needsChunk tw ticks := by rw [needsChunk, hindex, hzero]
    cases newChunk with
    | none =>
        left
        refine ⟨?_, rfl, hneeds⟩
        simp only [sfSubmitTimerTw, hindex, if_neg hleft, if_neg (Nat.not_lt.mpr hmax)]
    | some c =>
        right
        have hstarted := h.start (e := ⟨id, (c, 0), tw.handleOf group info, count + d⟩)
          (fresh c rfl) hzero rfl hdue hi.symm
        have hclock := linkNewChunk_sameClock tw i c (tw.handleOf group info)
        refine ⟨linkNewChunk tw i c (tw.handleOf group info), (c, 0), ?_, hclock,
          Function.update chunks i (chunks i ++ [c]), ?_⟩
        · simp only [sfSubmitTimerTw, hindex, if_neg hleft, if_neg (Nat.not_lt.mpr hmax)]
          simp [submitRecord, linkNewChunk_slotCnt, safeTime, hclock.lastRunTime,
            hclock.timerInterval]
        · rw [heldAfterSubmit, if_pos hneeds]
          exact hstarted

/-- A submit with at least one tick is due in as many ticks. -/
theorem sfSubmitTimerTw_cases
    (h : WheelInv tw first held chunks expired count waiting late) (info group : Nat) {ticks : Nat}
    {newChunk : Option ChunkId} (fresh : ∀ c, newChunk = some c → c ∉ held)
    (hpos : 1 ≤ ticks) (hmax : ticks ≤ sfTimerMaxTicks) (id : Nat) :
    (sfSubmitTimerTw tw info group ticks newChunk = (-1, tw, none) ∧ newChunk = none ∧
      needsChunk tw ticks) ∨
    ∃ tw' addr, sfSubmitTimerTw tw info group ticks newChunk =
        (0, tw', some ⟨addr, info, safeTime tw ticks⟩) ∧ SameClock tw tw' ∧
      ∃ chunks', WheelInv tw' first (heldAfterSubmit tw ticks newChunk held) chunks' expired count
        (waiting ++ [⟨id, addr, tw.handleOf group info, count + ticks⟩]) late :=
  sfSubmitTimerTw_lands h info group fresh hmax hpos hmax rfl id

/-- A submit that does not return 0 changes nothing. -/
theorem sfSubmitTimerTw_fail {info group ticks : Nat} {newChunk : Option ChunkId}
    (h : (sfSubmitTimerTw tw info group ticks newChunk).1 ≠ 0) :
    sfSubmitTimerTw tw info group ticks newChunk = (-1, tw, none) := by
  unfold sfSubmitTimerTw at h ⊢
  grind

/-! ## Stop -/

/-- The entry after the word at the address `a` was cleared. -/
def Entry.clear (a : SlotAddr) (e : Entry) : Entry :=
  if e.addr = a then { e with data := 0 } else e

@[simp] theorem Entry.clear_id (a : SlotAddr) (e : Entry) : (e.clear a).id = e.id := by
  rw [Entry.clear]
  split <;> rfl

@[simp] theorem Entry.clear_addr (a : SlotAddr) (e : Entry) : (e.clear a).addr = e.addr := by
  rw [Entry.clear]
  split <;> rfl

@[simp] theorem Entry.clear_due (a : SlotAddr) (e : Entry) : (e.clear a).due = e.due := by
  rw [Entry.clear]
  split <;> rfl

theorem Entry.clear_data (a : SlotAddr) (e : Entry) :
    (e.clear a).data = if e.addr = a then 0 else e.data := by
  rw [Entry.clear]
  split <;> rfl

theorem bucketEntries_map_clear (a : SlotAddr) (es : List Entry) (i : Nat) :
    bucketEntries (es.map (Entry.clear a)) i = (bucketEntries es i).map (Entry.clear a) := by
  simp [bucketEntries, List.filter_map, Function.comp_def]

/-- Clearing a slot clears the word of the entry that is stored there. -/
theorem WheelInv.clear (h : WheelInv tw first held chunks expired count waiting late)
    (a : SlotAddr) :
    WheelInv (tw.setSlot a 0) first held chunks expired count (waiting.map (Entry.clear a))
      (late.map (Entry.clear a)) where
  index := h.index
  bucket := by
    intro i hi
    have hb : BucketInv (tw.setSlot a 0) (tw.sfTimerBuckets i) (chunks i)
        (bucketEntries waiting i) :=
      (h.bucket i hi).congr (fun d _ => by simp) fun d _ => by simp
    rw [bucketEntries_map_clear]
    exact { hb with
      slots := by simpa [Function.comp_def] using hb.slots
      used := by
        rw [List.length_map]
        exact hb.used }
  due := by
    intro x hx
    obtain ⟨e, he, rfl⟩ := List.mem_map.mp hx
    simpa using h.due e he
  expiredLinked := by simpa using h.expiredLinked
  expiredSlots := by
    rw [flatMap_chunkSlots_congr tw fun d _ => by simp, h.expiredSlots]
    simp [Function.comp_def]
  expiredOk := by
    intro d hd
    rw [SfTwTimer.ChunkOk, setSlot_slotCnt]
    exact h.expiredOk d hd
  overdue := by
    intro x hx
    obtain ⟨e, he, rfl⟩ := List.mem_map.mp hx
    simpa using h.overdue e he
  stored := by
    intro x hx
    rw [← List.map_append] at hx
    obtain ⟨e, he, rfl⟩ := List.mem_map.mp hx
    rw [Entry.clear_addr, Entry.clear_data, setSlot_slot, h.stored e he]
  places := h.places
  nodup := h.nodup

end Tapplet.SfTimer
