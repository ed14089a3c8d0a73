import Tapplet.Timer.Operations

/-!
# Advancing the wheel

Each round of the expiry loop is one tick: the entries whose tick it is become late, and
no other entry moves. Any number of rounds is the induction over single ticks, so a large
advance, also one of more than a full revolution, expires each entry at its own tick.
-/

namespace Tapplet.SfTimer

open Linked

variable {tw : SfTwTimer} {first : Option ChunkId} {held expired : List ChunkId}
  {chunks : Nat → List ChunkId} {count : Nat} {waiting late : List Entry}

/-- The chain of `cs` appended to the expired chunks. -/
theorem linkExpired_seg {cs : List ChunkId} {last next : Option ChunkId}
    (hexp : Seg tw.nextChunk first expired none) (hlast : last = expired.getLast?)
    (hcs : Seg tw.nextChunk next cs none) (hnodup : expired.Nodup)
    (hdisj : ∀ c ∈ expired, c ∉ cs) :
    Seg (linkExpired tw first last next).nextChunk (if first = none then next else first)
      (expired ++ cs) none := by
  cases hf : first with
  | none =>
      subst hf
      obtain rfl := hexp.eq_none_iff.mp rfl
      simpa [linkExpired] using hcs
  | some f =>
      subst hf
      have hne : expired ≠ [] := fun hnil => by simp [hnil] at hexp
      obtain ⟨c, hc⟩ : ∃ c, expired.getLast? = some c :=
        ⟨_, List.getLast?_eq_getLast_of_ne_nil hne⟩
      obtain ⟨init, rfl⟩ := List.getLast?_eq_some_iff.mp hc
      rw [hlast, hc]
      simp only [linkExpired, setNext_nextChunk, reduceCtorEq, if_false]
      refine Seg.join hexp hcs ?_ (hdisj c (by simp))
      intro hmem
      exact (List.nodup_append.mp hnodup).2.2 c hmem c (by simp) rfl

theorem linkExpired_nextChunk {last next : Option ChunkId} {d : ChunkId}
    (hd : last ≠ some d) :
    (linkExpired tw first last next).nextChunk d = tw.nextChunk d := by
  unfold linkExpired
  split
  · rename_i c
    rw [setNext_nextChunk, Function.update_of_ne]
    rintro rfl
    exact hd rfl
  · rfl

@[simp] theorem linkExpired_slotCnt (first last next : Option ChunkId) (d : ChunkId) :
    ((linkExpired tw first last next).chunk d).currentSlotCnt =
      (tw.chunk d).currentSlotCnt := by
  unfold linkExpired
  split
  · rw [setNext_slotCnt]
  · rfl

@[simp] theorem linkExpired_slot (first last next : Option ChunkId) :
    (linkExpired tw first last next).slot = tw.slot := by
  unfold linkExpired
  split
  · rw [setNext_slot]
  · rfl

@[simp] theorem linkExpired_buckets (first last next : Option ChunkId) :
    (linkExpired tw first last next).sfTimerBuckets = tw.sfTimerBuckets := by
  unfold linkExpired
  split <;> rfl

@[simp] theorem linkExpired_preBucketIndex (first last next : Option ChunkId) :
    (linkExpired tw first last next).preBucketIndex = tw.preBucketIndex := by
  unfold linkExpired
  split <;> rfl

theorem linkExpired_sameClock (tw : SfTwTimer) (first last next : Option ChunkId) :
    SameClock tw (linkExpired tw first last next) := by
  unfold linkExpired
  split <;> exact ⟨rfl, rfl, rfl, rfl, rfl⟩

/-- The invariant of the expiry loop after `count` ticks. -/
structure LoopInv (l : ExpireLoop) (held : List ChunkId) (chunks : Nat → List ChunkId)
    (expired : List ChunkId) (count : Nat) (waiting late : List Entry) : Prop where
  wheel : WheelInv l.tw l.firstExpireChunk held chunks expired count waiting late
  last : l.lastExpireChunk = expired.getLast?

/-- Entries that are still waiting after the tick `count`. -/
def dueAfter (count : Nat) (es : List Entry) : List Entry := es.filter fun e => count < e.due

/-- Entries of the tick `count`. -/
def dueAt (count : Nat) (es : List Entry) : List Entry := es.filter fun e => e.due = count

theorem mem_dueAfter {es : List Entry} {e : Entry} :
    e ∈ dueAfter count es ↔ e ∈ es ∧ count < e.due := by
  simp [dueAfter]

theorem mem_dueAt {es : List Entry} {e : Entry} :
    e ∈ dueAt count es ↔ e ∈ es ∧ e.due = count := by
  simp [dueAt]

/-- An empty bucket: nothing expires at this tick. -/
theorem WheelInv.skip (h : WheelInv tw first held chunks expired count waiting late)
    (hused : (tw.sfTimerBuckets ((count + 1) % sfTwTimerBucketCnt)).slotUsedCnt = 0) :
    WheelInv { tw with preBucketIndex := (count + 1) % sfTwTimerBucketCnt } first held chunks
      expired (count + 1) (dueAfter (count + 1) waiting) (late ++ dueAt (count + 1) waiting) ∧
      dueAt (count + 1) waiting = [] := by
  have hlt := Nat.mod_lt (count + 1) sfTwTimerBucketCnt_pos
  have hnil : dueAt (count + 1) waiting = [] := by
    rw [dueAt, ← h.bucketEntries_next]
    exact ((h.bucket _ hlt).eq_nil_of_used hused).2
  have hall : ∀ e ∈ waiting, count + 1 < e.due := by
    intro e he
    have hne : e.due ≠ count + 1 := by
      intro hdue
      have hmem := mem_dueAt.mpr ⟨he, hdue⟩
      simp [hnil] at hmem
    have hlt := (h.due e he).1
    omega
  have hsame : dueAfter (count + 1) waiting = waiting :=
    List.filter_eq_self.mpr fun e he => by simpa using hall e he
  rw [hnil, hsame, List.append_nil]
  refine ⟨?_, rfl⟩
  exact
    { index := rfl
      bucket := fun i hi => (h.bucket i hi).congr (fun d _ => rfl) fun d _ => rfl
      due := fun e he => ⟨hall e he, by have hle := (h.due e he).2; omega⟩
      expiredLinked := h.expiredLinked
      expiredSlots := h.expiredSlots
      expiredOk := h.expiredOk
      overdue := fun e he => Nat.le_succ_of_le (h.overdue e he)
      stored := h.stored
      places := h.places
      nodup := h.nodup }

/-- The next bucket is moved behind the expired chunks. -/
theorem WheelInv.expireBucket (h : WheelInv tw first held chunks expired count waiting late)
    {i : Nat} (hi : i = (count + 1) % sfTwTimerBucketCnt) {last : Option ChunkId}
    (hlast : last = expired.getLast?) :
    WheelInv ((linkExpired { tw with preBucketIndex := i } first last
        (tw.sfTimerBuckets i).firstChunk).setBucket i .zero)
      (if first = none then (tw.sfTimerBuckets i).firstChunk else first) held
      (Function.update chunks i []) (expired ++ chunks i) (count + 1)
      (dueAfter (count + 1) waiting) (late ++ dueAt (count + 1) waiting) := by
  have hlt : i < sfTwTimerBucketCnt := hi ▸ Nat.mod_lt _ sfTwTimerBucketCnt_pos
  have hb := h.bucket i hlt
  have hentries : bucketEntries waiting i = dueAt (count + 1) waiting := by
    rw [hi, h.bucketEntries_next, dueAt]
  have hkeep : ∀ j, j ≠ i → bucketEntries (dueAfter (count + 1) waiting) j =
      bucketEntries waiting j := by
    intro j hj
    rw [bucketEntries, bucketEntries, dueAfter, List.filter_filter]
    refine List.filter_congr fun e he => ?_
    have hlow := (h.due e he).1
    have hne : e.due % sfTwTimerBucketCnt = j → count + 1 < e.due := by
      intro hmod
      by_contra hle
      obtain hdue : e.due = count + 1 := by omega
      exact hj (by rw [← hmod, hdue, hi])
    by_cases hmod : e.due % sfTwTimerBucketCnt = j
    · simp [hmod, hne hmod]
    · simp [hmod]
  have hempty : bucketEntries (dueAfter (count + 1) waiting) i = [] := by
    refine List.filter_eq_nil_iff.mpr fun e he => ?_
    obtain ⟨he, hafter⟩ := mem_dueAfter.mp he
    rw [decide_eq_true_eq]
    intro hmod
    have hat : e ∈ dueAt (count + 1) waiting := by
      rw [← hentries]
      exact mem_bucketEntries.mpr ⟨he, hmod⟩
    have := (mem_dueAt.mp hat).2
    omega
  have hdisj : ∀ c ∈ expired, c ∉ chunks i := fun c hc hci => h.not_expired hlt hci hc
  have hlastNe : ∀ d, d ∉ expired → last ≠ some d := by
    intro d hd heq
    exact hd (List.mem_of_getLast? (hlast.symm.trans heq))
  refine
    { index := by rw [setBucket_preBucketIndex, linkExpired_preBucketIndex, hi]
      bucket := ?_
      due := ?_
      expiredLinked := ?_
      expiredSlots := ?_
      expiredOk := ?_
      overdue := ?_
      stored := ?_
      places := ?_
      nodup := h.nodup }
  · intro j hj
    rw [setBucket_buckets, linkExpired_buckets]
    by_cases hji : j = i
    · subst hji
      rw [Function.update_self, Function.update_self, hempty]
      exact .zero
    · rw [Function.update_of_ne hji, Function.update_of_ne hji, hkeep j hji]
      refine (h.bucket j hj).congr (fun d hd => ?_) fun d _ => ?_
      · rw [setBucket_nextChunk, linkExpired_nextChunk (hlastNe d (h.not_expired hj hd))]
        rfl
      · rw [setBucket_chunk, linkExpired_slotCnt]
  · intro e he
    obtain ⟨he, hafter⟩ := mem_dueAfter.mp he
    exact ⟨hafter, by have hle := (h.due e he).2; omega⟩
  · rw [setBucket_nextChunk]
    exact linkExpired_seg h.expiredLinked hlast hb.linked h.expired_nodup hdisj
  · rw [flatMap_chunkSlots_congr tw fun d _ => by rw [setBucket_chunk, linkExpired_slotCnt],
      List.flatMap_append, h.expiredSlots, hb.slots, hentries, List.map_append]
  · intro c hc
    rw [SfTwTimer.ChunkOk, setBucket_chunk, linkExpired_slotCnt]
    rcases List.mem_append.mp hc with hc | hc
    · exact h.expiredOk c hc
    · exact hb.ok c hc
  · intro e he
    rcases List.mem_append.mp he with he | he
    · exact Nat.le_succ_of_le (h.overdue e he)
    · exact Nat.le_of_eq (mem_dueAt.mp he).2
  · intro e he
    rw [setBucket_slot, linkExpired_slot]
    refine h.stored e ?_
    simp only [List.mem_append, mem_dueAfter, mem_dueAt] at he ⊢
    tauto
  · rw [List.perm_iff_count]
    intro x
    have hold := h.places.count_eq x
    have hmove := Ledger.count_flatMap_exchange (f := chunks)
      (g := Function.update chunks i []) List.nodup_range (List.mem_range.mpr hlt)
      (fun j _ hj => Function.update_of_ne hj ..) x
    rw [Function.update_self] at hmove
    simp only [List.count_append, List.count_nil] at hold hmove ⊢
    omega

/-- One round of the loop expires exactly the entries of the next tick. -/
theorem LoopInv.tick {l : ExpireLoop}
    (h : LoopInv l held chunks expired count waiting late) :
    SameClock l.tw (expireTick l).tw ∧
      (expireTick l).retCnt = l.retCnt + (dueAt (count + 1) waiting).length ∧
      ∃ chunks' expired', LoopInv (expireTick l) held chunks' expired' (count + 1)
        (dueAfter (count + 1) waiting) (late ++ dueAt (count + 1) waiting) := by
  obtain ⟨i, hi⟩ : ∃ i, i = (count + 1) % sfTwTimerBucketCnt := ⟨_, rfl⟩
  have hindex : (l.tw.preBucketIndex + 1) &&& sfTwTimerBucketMask = i := by
    rw [and_sfTwTimerBucketMask, h.wheel.index, hi, Nat.mod_add_mod]
  have hb := h.wheel.bucket i (hi ▸ Nat.mod_lt _ sfTwTimerBucketCnt_pos)
  by_cases hused : (l.tw.sfTimerBuckets i).slotUsedCnt = 0
  · have htick : expireTick l = { l with tw := { l.tw with preBucketIndex := i } } := by
      simp only [expireTick, hindex, hused, if_true]
    obtain ⟨hskip, hnil⟩ := h.wheel.skip (hi ▸ hused)
    rw [htick, hnil]
    rw [hnil, ← hi] at hskip
    exact ⟨⟨rfl, rfl, rfl, rfl, rfl⟩, rfl, chunks, expired, ⟨hskip, h.last⟩⟩
  · have hne : chunks i ≠ [] := by
      intro hnil
      have hslots := hb.slots
      rw [hnil, List.flatMap_nil, eq_comm, List.map_eq_nil_iff] at hslots
      rw [hb.used, hslots] at hused
      exact hused rfl
    have htick : expireTick l =
        { tw := (linkExpired { l.tw with preBucketIndex := i } l.firstExpireChunk
            l.lastExpireChunk (l.tw.sfTimerBuckets i).firstChunk).setBucket i .zero
          retCnt := l.retCnt + (l.tw.sfTimerBuckets i).slotUsedCnt
          firstExpireChunk :=
            if l.firstExpireChunk = none then (l.tw.sfTimerBuckets i).firstChunk
            else l.firstExpireChunk
          lastExpireChunk := (l.tw.sfTimerBuckets i).currentChunk } := by
      simp only [expireTick, hindex, hused, if_false]
    have hclock := linkExpired_sameClock { l.tw with preBucketIndex := i }
      l.firstExpireChunk l.lastExpireChunk (l.tw.sfTimerBuckets i).firstChunk
    rw [htick]
    refine ⟨⟨hclock.1, hclock.2, hclock.3, hclock.4, hclock.5⟩, ?_, Function.update chunks i [],
      expired ++ chunks i, ⟨h.wheel.expireBucket hi h.last, ?_⟩⟩
    · rw [hb.used, hi, h.wheel.bucketEntries_next, dueAt]
    · rw [hb.last, List.getLast?_append_of_ne_nil _ hne]

/-! ## Many ticks -/

/-- Entries whose tick has passed after `count` ticks. -/
def dueUpTo (count : Nat) (es : List Entry) : List Entry := es.filter fun e => e.due ≤ count

theorem mem_dueUpTo {es : List Entry} {e : Entry} :
    e ∈ dueUpTo count es ↔ e ∈ es ∧ e.due ≤ count := by
  simp [dueUpTo]

theorem dueAfter_dueAfter (es : List Entry) :
    dueAfter (count + 1) (dueAfter count es) = dueAfter (count + 1) es := by
  rw [dueAfter, dueAfter, List.filter_filter, dueAfter]
  refine List.filter_congr fun e _ => ?_
  simp only [← Bool.decide_and, decide_eq_decide]
  omega

theorem dueUpTo_succ_perm (es : List Entry) :
    (dueUpTo (count + 1) es).Perm (dueUpTo count es ++ dueAt (count + 1) (dueAfter count es)) := by
  have hsplit := (List.filter_append_perm (fun e : Entry => e.due ≤ count)
    (dueUpTo (count + 1) es)).symm
  have hlow : (dueUpTo (count + 1) es).filter (fun e => e.due ≤ count) = dueUpTo count es := by
    rw [dueUpTo, dueUpTo, List.filter_filter]
    refine List.filter_congr fun e _ => ?_
    simp only [← Bool.decide_and, decide_eq_decide]
    omega
  have hhigh : (dueUpTo (count + 1) es).filter (fun e => !decide (e.due ≤ count)) =
      dueAt (count + 1) (dueAfter count es) := by
    rw [dueUpTo, dueAt, dueAfter, List.filter_filter, List.filter_filter]
    refine List.filter_congr fun e _ => ?_
    simp only [← decide_not, ← Bool.decide_and, decide_eq_decide]
    omega
  rwa [hlow, hhigh] at hsplit

/-- Any number of rounds expires exactly the entries of the ticks passed. -/
theorem LoopInv.ticks {l : ExpireLoop}
    (h : LoopInv l held chunks expired count waiting late) (n : Nat) :
    SameClock l.tw (expireTicks n l).tw ∧
      ∃ chunks' expired' late', LoopInv (expireTicks n l) held chunks' expired' (count + n)
          (dueAfter (count + n) waiting) late' ∧
        late'.Perm (late ++ dueUpTo (count + n) waiting) := by
  induction n with
  | zero =>
      have hafter : dueAfter count waiting = waiting :=
        List.filter_eq_self.mpr fun e he => by simpa using (h.wheel.due e he).1
      have hupto : dueUpTo count waiting = [] :=
        List.filter_eq_nil_iff.mpr fun e he => by simpa using (h.wheel.due e he).1
      refine ⟨.refl _, chunks, expired, late, ?_, ?_⟩
      · rw [Nat.add_zero, hafter]
        exact h
      · simp [hupto]
  | succ n ih =>
      obtain ⟨hclock, chunks', expired', late', hinv, hperm⟩ := ih
      obtain ⟨hclock', -, chunks'', expired'', hinv'⟩ := hinv.tick
      refine ⟨hclock.trans hclock', chunks'', expired'',
        late' ++ dueAt (count + n + 1) (dueAfter (count + n) waiting), ?_, ?_⟩
      · rw [dueAfter_dueAfter] at hinv'
        exact hinv'
      · refine (hperm.append_right _).trans ?_
        rw [List.append_assoc]
        exact (dueUpTo_succ_perm waiting).symm.append_left late

/-- The invariant does not depend on the clock fields. -/
theorem WheelInv.of_eq {tw' : SfTwTimer}
    (h : WheelInv tw first held chunks expired count waiting late)
    (index : tw'.preBucketIndex = tw.preBucketIndex)
    (bucket : tw'.sfTimerBuckets = tw.sfTimerBuckets) (chunk : tw'.chunk = tw.chunk) :
    WheelInv tw' first held chunks expired count waiting late where
  index := index.trans h.index
  bucket := by
    intro i hi
    rw [bucket]
    exact (h.bucket i hi).congr (fun d _ => by simp only [SfTwTimer.nextChunk, chunk])
      fun d _ => by rw [chunk]
  due := h.due
  expiredLinked := h.expiredLinked.congr fun d _ => by simp only [SfTwTimer.nextChunk, chunk]
  expiredSlots := (flatMap_chunkSlots_congr _ fun d _ => by rw [chunk]).trans h.expiredSlots
  expiredOk := by
    intro d hd
    rw [SfTwTimer.ChunkOk, chunk]
    exact h.expiredOk d hd
  overdue := h.overdue
  stored := by
    intro e he
    rw [← h.stored e he, SfTwTimer.slot, SfTwTimer.slot, chunk]
  places := h.places
  nodup := h.nodup

theorem WheelInv.expired_eq_nil
    (h : WheelInv tw none held chunks expired count waiting late) : expired = [] ∧ late = [] := by
  obtain rfl := h.expiredLinked.eq_none_iff.mp rfl
  have hslots := h.expiredSlots
  rw [List.flatMap_nil, eq_comm, List.map_eq_nil_iff] at hslots
  exact ⟨rfl, hslots⟩

/-- Everything that `sf_tw_timer_expire_internal` can do: nothing, when it is too early or
expired chunks are left over, or advance by the ticks that have passed since the last run. -/
theorem sfTwTimerExpireInternal_cases
    (h : WheelInv tw tw.expireChunkList held chunks expired count waiting late) (now : Nat) :
    ((now < tw.nextRunTime ∨ tw.expireChunkList ≠ none) ∧
      (sfTwTimerExpireInternal tw now).2 = tw) ∨
    (tw.nextRunTime ≤ now ∧ expired = [] ∧ late = [] ∧
      ∃ tw' chunks' expired' late', (sfTwTimerExpireInternal tw now).2 = tw' ∧
        WheelInv tw' tw'.expireChunkList held chunks' expired' (count + expireNticks tw now)
          (dueAfter (count + expireNticks tw now) waiting) late' ∧
        late'.Perm (dueUpTo (count + expireNticks tw now) waiting) ∧
        tw'.lastRunTime = tw.lastRunTime + expireNticks tw now * tw.timerInterval ∧
        tw'.nextRunTime = now + tw.timerInterval ∧ tw'.timerInfoStart = tw.timerInfoStart ∧
        tw'.timerInterval = tw.timerInterval) := by
  rw [sfTwTimerExpireInternal]
  by_cases hearly : now < tw.nextRunTime
  · rw [if_pos hearly]
    exact .inl ⟨.inl hearly, rfl⟩
  by_cases hlist : tw.expireChunkList ≠ none
  · rw [if_neg hearly, if_pos hlist]
    exact .inl ⟨.inr hlist, rfl⟩
  rw [if_neg hearly, if_neg hlist]
  right
  have hnone : tw.expireChunkList = none := not_not.mp hlist
  rw [hnone] at h
  obtain ⟨rfl, rfl⟩ := h.expired_eq_nil
  have hstart : LoopInv (.start { tw with nextRunTime := now + tw.timerInterval }) held chunks []
      count waiting [] := ⟨h.of_eq rfl rfl rfl, rfl⟩
  obtain ⟨hclock, chunks', expired', late', hinv, hperm⟩ := hstart.ticks (expireNticks tw now)
  refine ⟨Nat.not_lt.mp hearly, rfl, rfl, _, chunks', expired', late', rfl,
    hinv.wheel.of_eq rfl rfl rfl, by simpa using hperm, ?_, hclock.nextRunTime,
    hclock.timerInfoStart, hclock.timerInterval⟩
  change (expireTicks (expireNticks tw now) _).tw.lastRunTime + expireNticks tw now *
    (expireTicks (expireNticks tw now) _).tw.timerInterval = _
  rw [hclock.lastRunTime, hclock.timerInterval]
  rfl

/-- The input node takes the first expired chunk: its slots hold the first late entries. -/
theorem WheelInv.takeChunk {c : ChunkId}
    (h : WheelInv tw (some c) held chunks expired count waiting late) :
    ∃ cs, expired = c :: cs ∧ 0 < (tw.chunk c).currentSlotCnt ∧
      WheelInv tw (tw.nextChunk c) (held.erase c) chunks cs count waiting
        (late.drop (tw.chunk c).currentSlotCnt) ∧
      (List.range (tw.chunk c).currentSlotCnt).map (tw.chunk c).sfTimerSlots =
        (late.take (tw.chunk c).currentSlotCnt).map (·.data) := by
  obtain _ | ⟨d, cs⟩ := expired
  · have hnil := h.expiredLinked
    simp at hnil
  obtain ⟨hd, hseg⟩ := h.expiredLinked
  obtain rfl := Option.some.inj hd
  have hslots := h.expiredSlots
  rw [List.flatMap_cons] at hslots
  have hlen : (tw.chunkSlots c).length = (tw.chunk c).currentSlotCnt := by
    simp [SfTwTimer.chunkSlots]
  have htake : tw.chunkSlots c = (late.take (tw.chunk c).currentSlotCnt).map (·.addr) := by
    rw [List.map_take, ← hslots, ← hlen, List.take_left]
  have hdrop : cs.flatMap tw.chunkSlots =
      (late.drop (tw.chunk c).currentSlotCnt).map (·.addr) := by
    rw [List.map_drop, ← hslots, ← hlen, List.drop_left]
  refine ⟨cs, rfl, (h.expiredOk c (by simp)).1, ?_, ?_⟩
  · exact
      { index := h.index
        bucket := h.bucket
        due := h.due
        expiredLinked := hseg
        expiredSlots := hdrop
        expiredOk := fun d hd => h.expiredOk d (by simp [hd])
        overdue := fun e he => h.overdue e (List.mem_of_mem_drop he)
        stored := by
          intro e he
          refine h.stored e ?_
          rcases List.mem_append.mp he with he | he
          · exact List.mem_append_left _ he
          · exact List.mem_append_right _ (List.mem_of_mem_drop he)
        places := by
          have hperm := (h.places.trans List.perm_middle).erase c
          rwa [List.erase_cons_head] at hperm
        nodup := h.nodup.erase c }
  · have hmap := congrArg (List.map tw.slot) htake
    rw [List.map_map] at hmap
    calc (List.range (tw.chunk c).currentSlotCnt).map (tw.chunk c).sfTimerSlots
        = (tw.chunkSlots c).map tw.slot := by
          rw [SfTwTimer.chunkSlots, List.map_map]
          rfl
      _ = (late.take (tw.chunk c).currentSlotCnt).map (tw.slot ∘ (·.addr)) := hmap
      _ = (late.take (tw.chunk c).currentSlotCnt).map (·.data) := by
          refine List.map_congr_left fun e he => ?_
          exact h.stored e (List.mem_append_right _ (List.mem_of_mem_take he))

end Tapplet.SfTimer
