import Tapplet.Reass.Conserved

/-!
# Flattening a forest of fragments

What `split_frag_buffer_on_fail` and `split_frag_buffer` leave in the arrays, and in which order
they access `vlib_buffer_array` on the way: the arrays are not cleared between two calls, so an
entry that is read before it is written would be a buffer of an earlier call.
-/

namespace Tapplet.Reass

/-- An access to an entry of `vlib_buffer_array`. -/
inductive Access where
  | read (i : Nat)
  | write (i : Nat)

/-- The entries that a round writes. -/
def roundWrites (record : BufferId → IpReassRecord) (base : Nat) (x : Split) : List Nat :=
  let tmp := x.arr.buffers (base + x.preIndex)
  let r := record tmp
  (if r.nextFrag.isSome then [base + x.preIndex + r.followedNodesCnt + 1] else []) ++
    if (x.wdata tmp).isReass ∧ r.childFrag.isSome then [base + x.preIndex + 1] else []

/-- A round reads the buffer that it visits. -/
def roundAccesses (record : BufferId → IpReassRecord) (base : Nat) (x : Split) : List Access :=
  .read (base + x.preIndex) :: (roundWrites record base x).map .write

/-- The accesses of `splitOnFailLoop`. -/
def splitOnFailAccesses (round : Split → Split) (accesses : Split → List Access) :
    Nat → Split → List Access
  | 0, _ => []
  | fuel + 1, x =>
      if x.preIndex = x.count then []
      else accesses x ++ splitOnFailAccesses round accesses fuel (round x)

/-- The accesses of `splitLoop`. -/
def splitAccesses (round : Split → Split) (accesses : Split → List Access) (count : Nat) :
    Nat → Split → List Access
  | 0, _ => []
  | fuel + 1, x =>
      if x.preIndex = count then []
      else accesses x ++ splitAccesses round accesses count fuel (round x)

/-- The accesses of `split_frag_buffer_on_fail`. -/
def splitFragBufferOnFailAccesses (s : Worker) (arr : EnqueueArrays) (b0 : BufferId)
    (base fragNextIndex nextDrop : Nat) : List Access :=
  let leaf (preIndex : Nat) (w : Wdata) : Wdata :=
    if preIndex ≠ 0 then updateFragWdata w (s.wdata b0) else w
  .write base ::
    splitOnFailAccesses (splitRound s.record leaf base fragNextIndex nextDrop)
      (roundAccesses s.record base) arrayLength ⟨s.wdata, arr.setBuffer base b0, 0, 1⟩

/-- The accesses of `split_frag_buffer`. -/
def splitFragBufferAccesses (s : Worker) (arr : EnqueueArrays) (b0 : BufferId) : List Access :=
  let w0 := s.wdata b0
  let leaf (_ : Nat) (w : Wdata) : Wdata :=
    { updateFragWdata w w0 with argToNext := w0.argToNext }
  .write 0 ::
    splitAccesses (splitRound s.record leaf 0 (forwardFragNextIndex w0) forwardNextPktDrop)
      (roundAccesses s.record 0) ((s.record b0).followedNodesCnt + 1) arrayLength
      ⟨s.wdata, arr.setBuffer 0 b0, 0, 0⟩

/-- Every entry that is read has been written, `written` being those from before. -/
def WrittenFirst : List Nat → List Access → Prop
  | _, [] => True
  | written, .read i :: rest => i ∈ written ∧ WrittenFirst written rest
  | written, .write i :: rest => WrittenFirst (i :: written) rest

/-- The result of flattening: the loop has ended, the entries from `base` on are as many as are
returned, each buffer is in one of them, and no entry is read before it is written. -/
structure Flattened (entries : List (BufferId × Nat)) (base count : Nat) (x : Split)
    (accesses : List Access) : Prop where
  ended : x.preIndex = count
  returned : count = entries.length
  filled : x.arr.slice base count = entries
  once : ((x.arr.slice base count).map Prod.fst).Nodup
  writtenFirst : WrittenFirst [] accesses

/-! ## No entry is read before it is written -/

theorem writtenFirst_writes {written : List Nat} {is : List Nat} {rest : List Access}
    (h : WrittenFirst (is.reverse ++ written) rest) :
    WrittenFirst written (is.map .write ++ rest) := by
  induction is generalizing written with
  | nil => exact h
  | cons i is ih =>
    rw [List.map_cons, List.cons_append, WrittenFirst]
    apply ih
    simpa using h

section Round

variable {record : BufferId → IpReassRecord} {wdata : BufferId → Wdata} {start : EnqueueArrays}
  {base limit fragNextIndex nextDrop : Nat} {leaf : Nat → Wdata → Wdata}
  {b : BufferId} {kids rest : Forest BufferId} {fs : List (Forest BufferId)}
  {written : List (BufferId × Nat)} {x : Split} {indices : List Nat}

/-- The places of the children and of the brother of the visited buffer are written. -/
theorem SplitInv.mem_roundWrites
    (h : SplitInv record wdata start base limit x (.cons b kids rest :: fs) written) :
    (kids ≠ .nil → base + x.preIndex + 1 ∈ roundWrites record base x) ∧
      (rest ≠ .nil → base + x.preIndex + 1 + kids.size ∈ roundWrites record base x) := by
  obtain ⟨p, -, hfollowed, hreass, hkids, hrest⟩ := h.rep _ (List.mem_cons_self ..)
  have hb : x.arr.buffers (base + x.preIndex) = b := h.placed.1
  rw [roundWrites, hb]
  constructor
  · intro hne
    have hinner : kids.isNil = false := by
      cases kids with
      | nil => exact absurd rfl hne
      | cons k kkids krest => rfl
    have hchild : (record b).childFrag.isSome := by
      rw [(hkids hinner).eq_head]
      cases kids with
      | nil => exact absurd rfl hne
      | cons k kkids krest => rfl
    have hflag : (x.wdata b).isReass := (isReass_congr (h.unused8 b)).mpr (hreass.mpr hinner)
    have hwrite : (if (x.wdata b).isReass ∧ (record b).childFrag.isSome then
        [base + x.preIndex + 1] else []) = [base + x.preIndex + 1] := if_pos ⟨hflag, hchild⟩
    rw [hwrite]
    exact List.mem_append_right _ (List.mem_singleton_self _)
  · intro hne
    have hbrother : (record b).nextFrag.isSome := by
      rw [hrest.eq_head]
      cases rest with
      | nil => exact absurd rfl hne
      | cons r rkids rrest => rfl
    have hplace : base + x.preIndex + kids.size + 1 = base + x.preIndex + 1 + kids.size := by omega
    rw [if_pos hbrother, hfollowed, hplace]
    exact List.mem_append_left _ (List.mem_singleton_self _)

/-- The first entries of the forests stay written. -/
theorem SplitInv.starts_written
    (h : SplitInv record wdata start base limit x (.cons b kids rest :: fs) written)
    (hstarts : ∀ i ∈ Forest.starts (base + x.preIndex) (.cons b kids rest :: fs), i ∈ indices) :
    ∀ i ∈ Forest.starts (base + x.preIndex + 1) (Forest.pending kids ++ Forest.pending rest ++ fs),
      i ∈ (roundWrites record base x).reverse ++ indices := by
  obtain ⟨hkids, hrest⟩ := h.mem_roundWrites
  intro i hi
  rcases Forest.mem_starts_visit hi with ⟨rfl, hne⟩ | ⟨rfl, hne⟩ | hmem
  · exact List.mem_append_left _ (List.mem_reverse.mpr (hkids hne))
  · exact List.mem_append_left _ (List.mem_reverse.mpr (hrest hne))
  · exact List.mem_append_right _ (hstarts i (List.mem_cons_of_mem _ hmem))

/-- The loop that counts the buffers while it finds them. -/
theorem SplitInv.onFail_writtenFirst (hleaf : ∀ i w, (leaf i w).unused8 = w.unused8) (fuel : Nat)
    (h : SplitInv record wdata start base limit x fs written)
    (hcount : x.count = x.preIndex + fs.length)
    (hstarts : ∀ i ∈ Forest.starts (base + x.preIndex) fs, i ∈ indices) :
    WrittenFirst indices (splitOnFailAccesses
      (splitRound record leaf base fragNextIndex nextDrop) (roundAccesses record base) fuel x) := by
  induction fuel generalizing x fs written indices with
  | zero => trivial
  | succ fuel ih =>
    rw [splitOnFailAccesses]
    cases fs with
    | nil =>
      rw [if_pos (by simpa using hcount.symm)]
      trivial
    | cons f fs =>
      rw [List.length_cons] at hcount
      rw [if_neg (by omega)]
      cases f with
      | nil => exact h.placed.elim
      | cons b kids rest =>
        obtain ⟨hinv, hpre, hcnt⟩ := h.round hleaf rfl
        refine ⟨hstarts _ (List.mem_cons_self ..), writtenFirst_writes (ih hinv ?_ ?_)⟩
        · rw [hcnt, hpre, List.length_append, List.length_append]
          omega
        · rw [hpre, ← Nat.add_assoc]
          exact h.starts_written hstarts

/-- The loop that knows the number of buffers. -/
theorem SplitInv.forward_writtenFirst (hleaf : ∀ i w, (leaf i w).unused8 = w.unused8)
    {count : Nat} (fuel : Nat) (h : SplitInv record wdata start base limit x fs written)
    (hcount : count = x.preIndex + (fs.map Forest.size).sum)
    (hstarts : ∀ i ∈ Forest.starts (base + x.preIndex) fs, i ∈ indices) :
    WrittenFirst indices (splitAccesses (splitRound record leaf base fragNextIndex nextDrop)
      (roundAccesses record base) count fuel x) := by
  induction fuel generalizing x fs written indices with
  | zero => trivial
  | succ fuel ih =>
    rw [splitAccesses]
    cases fs with
    | nil =>
      rw [if_pos (by simpa using hcount.symm)]
      trivial
    | cons f fs =>
      cases f with
      | nil => exact h.placed.elim
      | cons b kids rest =>
        obtain ⟨hinv, hpre, -⟩ := h.round hleaf rfl
        have hfull := Forest.sum_size_cons b kids rest fs
        rw [if_neg (by omega)]
        refine ⟨hstarts _ (List.mem_cons_self ..), writtenFirst_writes (ih hinv ?_ ?_)⟩
        · rw [Forest.sum_size_pending]
          omega
        · rw [hpre, ← Nat.add_assoc]
          exact h.starts_written hstarts

end Round

section

variable {s : Worker} {b0 : BufferId}

/-- Both functions write the first entry before their loop reads it. -/
theorem starts_singleton (base : Nat) (f : Forest BufferId) :
    ∀ i ∈ Forest.starts (base + 0) [f], i ∈ [base] :=
  fun _ hi => hi

theorem splitFragBufferOnFail_flattened {f : Forest BufferId}
    (hrep : Rep s.record s.wdata (some b0) f) (hsize : f.size ≤ 255) (hnodup : f.labels.Nodup)
    (arr : EnqueueArrays) (base fragNextIndex nextDrop : Nat) :
    Flattened (f.preorder fragNextIndex nextDrop) base
      (splitFragBufferOnFail s arr b0 base fragNextIndex nextDrop).count
      (splitFragBufferOnFail s arr b0 base fragNextIndex nextDrop)
      (splitFragBufferOnFailAccesses s arr b0 base fragNextIndex nextDrop) := by
  have hfuel : f.size ≤ arrayLength := Nat.le_trans hsize (by decide)
  obtain ⟨limit, hlimit, htop⟩ : ∃ limit, base + f.size ≤ limit ∧ arr.top ≤ limit :=
    ⟨_, Nat.le_max_left .., Nat.le_max_right ..⟩
  obtain ⟨hdone, hcount, hpre⟩ :=
    @splitFragBufferOnFail_entries s arr b0 base limit f fragNextIndex nextDrop hrep hfuel hlimit
      htop _ rfl
  have hslice := hdone.slice
  rw [Forest.preorder_length, ← hcount] at hslice
  refine ⟨hpre.trans hcount.symm, ?_, hslice, ?_, ?_⟩
  · rw [Forest.preorder_length, hcount]
  · rw [hslice, Forest.preorder_map_fst]
    exact hnodup
  · apply (SplitInv.start base hrep hlimit htop 1).onFail_writtenFirst
    · intro i w
      split <;> rfl
    · rfl
    · exact starts_singleton base f

theorem splitFragBuffer_flattened {kids : Forest BufferId}
    (hrep : Rep s.record s.wdata (some b0) (.tree b0 kids))
    (hsize : (Forest.tree b0 kids).size ≤ 255)
    (hnodup : (Forest.tree b0 kids).labels.Nodup) (arr : EnqueueArrays) :
    Flattened (forwardEntries b0 (s.record b0).ipReassOutput
      (forwardFragNextIndex (s.wdata b0)) kids)
      0 (splitFragBuffer s arr b0).1 (splitFragBuffer s arr b0).2
      (splitFragBufferAccesses s arr b0) := by
  have htree : (Forest.tree b0 kids).size = 1 + kids.size := rfl
  have hfuel : 1 + kids.size ≤ arrayLength := Nat.le_trans hsize (by decide)
  obtain ⟨limit, hlimit, htop⟩ : ∃ limit, 1 + kids.size ≤ limit ∧ arr.top ≤ limit :=
    ⟨_, Nat.le_max_left .., Nat.le_max_right ..⟩
  have hresult : splitFragBuffer s arr b0 =
      ((splitFragBuffer s arr b0).1, (splitFragBuffer s arr b0).2) := rfl
  obtain ⟨hdone, hcount, hpre⟩ := splitFragBuffer_entries hrep hfuel hlimit htop hresult
  have hlength : (forwardEntries b0 (s.record b0).ipReassOutput
      (forwardFragNextIndex (s.wdata b0)) kids).length = 1 + kids.size := by
    rw [forwardEntries, List.length_cons, Forest.preorder_length, Nat.add_comm]
  have hslice := hdone.slice
  rw [hlength, ← hcount] at hslice
  refine ⟨hpre, hcount.trans hlength.symm, hslice, ?_, ?_⟩
  · rw [hslice, forwardEntries, List.map_cons, Forest.preorder_map_fst]
    simpa [Forest.tree, Forest.labels] using hnodup
  · have hfollowed : (s.record b0).followedNodesCnt = kids.size := hrep.2.1
    apply (SplitInv.start 0 hrep (by omega) htop 0).forward_writtenFirst
    · simp [htree, hfollowed, Nat.add_comm]
    · exact starts_singleton 0 _
    · exact fun _ _ => rfl

/-- Both functions flatten a forest of at most 255 buffers: `split_frag_buffer_on_fail` from its
first tree on, and `split_frag_buffer` a tree by itself. -/
theorem flattened_in_preorder {f : Forest BufferId} (hrep : Rep s.record s.wdata (some b0) f)
    (hsize : f.size ≤ 255) (hnodup : f.labels.Nodup) (arr : EnqueueArrays) :
    (∀ base fragNextIndex nextDrop,
      Flattened (f.preorder fragNextIndex nextDrop) base
        (splitFragBufferOnFail s arr b0 base fragNextIndex nextDrop).count
        (splitFragBufferOnFail s arr b0 base fragNextIndex nextDrop)
        (splitFragBufferOnFailAccesses s arr b0 base fragNextIndex nextDrop)) ∧
    ∀ kids, f = .tree b0 kids →
      Flattened (forwardEntries b0 (s.record b0).ipReassOutput
          (forwardFragNextIndex (s.wdata b0)) kids) 0
        (splitFragBuffer s arr b0).1 (splitFragBuffer s arr b0).2
        (splitFragBufferAccesses s arr b0) := by
  constructor
  · intro base fragNextIndex nextDrop
    exact splitFragBufferOnFail_flattened hrep hsize hnodup arr base fragNextIndex nextDrop
  · rintro kids rfl
    exact splitFragBuffer_flattened hrep hsize hnodup arr

end

/-- A packet of three fragments, the second of which was reassembled from two. -/
def nestedForest :
    Forest BufferId := .tree 0 (.cons 1 .nil (.cons 2 (.leaves [3, 4]) (.leaves [5])))

/-- The records of its buffers. -/
def nestedRecord (b : BufferId) : IpReassRecord where
  childFrag := if b = 0 then some 1 else if b = 2 then some 3 else none
  nextFrag := if b = 1 then some 2 else if b = 2 then some 5 else if b = 3 then some 4 else none
  fragOffset := 0
  fragSize := 8
  ipHdrLen := 20
  interfaceId := 1
  ipReassOutput := 0
  followedNodesCnt := if b = 0 then 5 else if b = 2 then 2 else 0

def nestedWorker : Worker :=
  { sampleWorker with
    record := nestedRecord
    wdata := fun b =>
      { sampleWdata b 8 with
        unused8 := if b = 0 ∨ b = 2 then 15 else 0
        argToNext := 1 } }

theorem nestedForest_rep : Rep nestedWorker.record nestedWorker.wdata (some 0) nestedForest := by
  have hleaf : ∀ b rest, b ≠ 0 → b ≠ 2 →
      Rep nestedRecord nestedWorker.wdata (nestedRecord b).nextFrag rest →
      Rep nestedRecord nestedWorker.wdata (some b) (.cons b .nil rest) := by
    intro b rest h0 h2 hrest
    refine ⟨rfl, ?_, ?_, nofun, hrest⟩
    · simp [nestedRecord, h0, h2, Forest.size]
    · simp [nestedWorker, Wdata.isReass, h0, h2, Forest.isNil]
  refine ⟨rfl, rfl, by decide, fun _ => ?_, rfl⟩
  refine hleaf 1 _ (by decide) (by decide) ⟨rfl, rfl, by decide, fun _ => ?_, ?_⟩
  · exact hleaf 3 _ (by decide) (by decide) (hleaf 4 _ (by decide) (by decide) rfl)
  · exact hleaf 5 _ (by decide) (by decide) rfl

theorem flattened_in_preorder_nested :
    Flattened [(0, 1), (1, 0), (2, 1), (3, 0), (4, 0), (5, 0)] 0 6
      (splitFragBuffer nestedWorker sampleArrays 0).2
      (splitFragBufferAccesses nestedWorker sampleArrays 0) :=
  (flattened_in_preorder nestedForest_rep (by decide) (by decide) sampleArrays).2 _ rfl

end Tapplet.Reass
