import Tapplet.Pool.System

/-!
# What the pool functions do

One specification lemma for each function of the allocator: what a pop and a push do to
the linked segment, and what a refill takes from the free list or out of new memory.
The later modules only use these lemmas and do not look inside the functions.
-/

namespace Tapplet.SfPool

open Linked

/-! ## Stack arrays -/

@[simp] theorem stackNodes_zero (l : LocalPool) : stackNodes l 0 = [] := rfl

@[simp] theorem stackNodes_length (l : LocalPool) (n : Nat) : (stackNodes l n).length = n := by
  simp [stackNodes]

theorem stackNodes_succ (l : LocalPool) (n : Nat) :
    stackNodes l (n + 1) = stackNodes l n ++ [l.localPoolStack n] := by
  simp [stackNodes, List.range_succ]

theorem stackNodes_congr {l l' : LocalPool} {n : Nat}
    (same : ∀ i < n, l'.localPoolStack i = l.localPoolStack i) :
    stackNodes l' n = stackNodes l n :=
  List.map_congr_left fun i hi => same i (List.mem_range.mp hi)

/-- The upper part of a stack with one more node on top. -/
theorem upper_of_len_succ {l : LocalPool} {n : Nat} (hlen : l.currentStackLen = n + 1) :
    upper l = if l.stackMaxLen ≤ n
      then upper { l with currentStackLen := n } ++ [l.localPoolStack n] else [] := by
  have hcopy : stackNodes { l with currentStackLen := n } n = stackNodes l n := rfl
  simp only [upper, hlen, stackNodes_succ, hcopy]
  split
  · exact List.drop_append_of_le_length (by simpa using ‹_›)
  · exact List.drop_eq_nil_of_le (by simp; omega)

theorem upper_eq_nil {l : LocalPool} (h : l.currentStackLen ≤ l.stackMaxLen) : upper l = [] :=
  List.drop_eq_nil_of_le (by simpa using h)

theorem upper_length (l : LocalPool) : (upper l).length = l.currentStackLen - l.stackMaxLen := by
  simp [upper]

/-- An upper part that is not empty ends with the top of the stack. -/
theorem upper_getLast {l : LocalPool} {n : Nat} (hlen : l.currentStackLen = n + 1)
    (h : l.stackMaxLen ≤ n) : ∃ init, upper l = init ++ [l.localPoolStack n] :=
  ⟨_, by rw [upper_of_len_succ hlen, if_pos h]⟩

/-! ## Pop and push -/

/-- `SegmentInv` from the value of the upper part. -/
theorem SegmentInv.of_upper {l : LocalPool} {next : Node → Option Node} {xs : List Node}
    (hup : upper l = xs) (linked : Seg next l.localFreeList xs.reverse none)
    (last : l.localLastNode = xs.head?) (length : l.freeListLen = xs.length) :
    SegmentInv l next := by
  subst hup
  exact ⟨linked, last, length⟩

/-- Without nodes above `stack_max_len`, only the three list fields matter. -/
theorem SegmentInv.of_nil {l l' : LocalPool} {next next' : Node → Option Node}
    (h : SegmentInv l next) (hl : upper l = []) (hl' : upper l' = [])
    (freeList : l'.localFreeList = l.localFreeList) (lastNode : l'.localLastNode = l.localLastNode)
    (listLen : l'.freeListLen = l.freeListLen) : SegmentInv l' next' := by
  obtain ⟨linked, last, length⟩ := h
  rw [hl] at linked last length
  exact .of_upper hl' (freeList.trans linked) (lastNode.trans last) (listLen.trans length)

/-- A pop takes the top of the stack and leaves the segment linked. -/
theorem popNode_spec {l : LocalPool} {next : Node → Option Node} {n : Nat}
    (h : SegmentInv l next) (hlen : l.currentStackLen = n + 1) :
    (popNode l).1 = l.localPoolStack n ∧ (popNode l).2.currentStackLen = n ∧
      (popNode l).2.stackMaxLen = l.stackMaxLen ∧
      (popNode l).2.freeListMaxLen = l.freeListMaxLen ∧
      (popNode l).2.localPoolStack = l.localPoolStack ∧ SegmentInv (popNode l).2 next := by
  have hpred : l.currentStackLen - 1 = n := by omega
  obtain ⟨linked, last, length⟩ := h
  have hup := upper_of_len_succ hlen
  simp only [popNode, hpred]
  by_cases hgt : n > l.stackMaxLen
  · -- the node below the top is still in the segment
    rw [if_pos hgt]
    rw [if_pos (Nat.le_of_lt hgt)] at hup
    rw [hup] at linked last length
    obtain ⟨m, rfl⟩ : ∃ m, n = m + 1 := ⟨n - 1, by omega⟩
    obtain ⟨init, hinit⟩ := upper_getLast (l := { l with currentStackLen := m + 1 }) rfl
      (Nat.le_of_lt_succ hgt)
    rw [hinit] at linked last length
    refine ⟨rfl, rfl, rfl, rfl, rfl, .of_upper hinit ?_ ?_ ?_⟩
    · simp only [List.reverse_append, List.reverse_singleton, List.singleton_append,
        seg_cons] at linked
      simpa using linked.2.2
    · refine last.trans ?_
      cases init <;> rfl
    · simp only [List.length_append, List.length_singleton] at length ⊢
      omega
  · rw [if_neg hgt]
    by_cases heq : n = l.stackMaxLen
    · -- the top was the only node of the segment
      have hone : (upper l).length = 1 := by rw [upper_length]; omega
      rw [if_pos heq]
      refine ⟨rfl, rfl, rfl, rfl, rfl, .of_upper (upper_eq_nil (Nat.le_of_eq heq)) rfl rfl ?_⟩
      change l.freeListLen - 1 = 0
      omega
    · rw [if_neg heq]
      rw [if_neg (by omega)] at hup
      rw [hup] at linked last length
      exact ⟨rfl, rfl, rfl, rfl, rfl,
        .of_upper (upper_eq_nil (Nat.le_of_not_gt hgt)) linked last length⟩

section Push

variable (l : LocalPool) (next : Node → Option Node) (data : Node)

@[simp] theorem pushNode_currentStackLen :
    (pushNode l next data).1.currentStackLen = l.currentStackLen + 1 := by
  simp only [pushNode]
  split <;> rfl

@[simp] theorem pushNode_stackMaxLen :
    (pushNode l next data).1.stackMaxLen = l.stackMaxLen := by
  simp only [pushNode]
  split <;> rfl

@[simp] theorem pushNode_freeListMaxLen :
    (pushNode l next data).1.freeListMaxLen = l.freeListMaxLen := by
  simp only [pushNode]
  split <;> rfl

@[simp] theorem pushNode_localPoolStack : (pushNode l next data).1.localPoolStack =
    Function.update l.localPoolStack l.currentStackLen data := by
  simp only [pushNode]
  split <;> rfl

/-- The stack after a push, as a list. -/
theorem stackNodes_pushNode : stackNodes (pushNode l next data).1 (l.currentStackLen + 1) =
    stackNodes l l.currentStackLen ++ [data] := by
  have hbelow : stackNodes (pushNode l next data).1 l.currentStackLen =
      stackNodes l l.currentStackLen := stackNodes_congr fun i hi => by
    rw [pushNode_localPoolStack]
    exact Function.update_of_ne (Nat.ne_of_lt hi) _ _
  rw [stackNodes_succ, hbelow, pushNode_localPoolStack, Function.update_self]

/-- The upper part of the stack after a push. -/
theorem upper_pushNode : upper (pushNode l next data).1 =
    if l.stackMaxLen ≤ l.currentStackLen then upper l ++ [data] else [] := by
  rw [upper, pushNode_currentStackLen, pushNode_stackMaxLen, stackNodes_pushNode]
  split
  · exact List.drop_append_of_le_length (by simpa using ‹_›)
  · exact List.drop_eq_nil_of_le (by simp; omega)

end Push

/-- The only link that a push writes is that of the node itself. -/
theorem pushNode_next {l : LocalPool} {next : Node → Option Node} {data x : Node}
    (hx : x ≠ data) : (pushNode l next data).2 x = next x := by
  simp only [pushNode]
  split
  · exact Function.update_of_ne hx _ _
  · rfl

/-- A push leaves the segment linked. -/
theorem segmentInv_pushNode {l : LocalPool} {next : Node → Option Node} {data : Node}
    (h : SegmentInv l next) (hdata : data ∉ stackNodes l l.currentStackLen) :
    SegmentInv (pushNode l next data).1 (pushNode l next data).2 := by
  obtain ⟨linked, last, length⟩ := h
  have hup := upper_pushNode l next data
  by_cases hgt : l.currentStackLen + 1 > l.stackMaxLen
  · have hle : l.stackMaxLen ≤ l.currentStackLen := by omega
    have hnotin : data ∉ (upper l).reverse := fun hmem =>
      hdata (List.mem_of_mem_drop (List.mem_reverse.mp hmem))
    rw [if_pos hle] at hup
    refine .of_upper hup ?_ ?_ ?_ <;> simp only [pushNode, if_pos hgt]
    · rw [List.reverse_append]
      exact linked.push hnotin
    · cases hl : upper l with
      | nil => simp [last, hl]
      | cons y ys => simp [last, hl]
    · simp [length]
  · have hnil : upper l = [] := upper_eq_nil (by omega)
    rw [hnil] at linked last length
    rw [if_neg (by omega)] at hup
    refine .of_upper hup ?_ ?_ ?_ <;> simp only [pushNode, if_neg hgt]
    · exact linked
    · exact last
    · exact length

/-! ## Refill -/

/-- The refill loop takes the first nodes of the free list, in order. -/
theorem takeFree_spec {next : Node → Option Node} {p : Option Node} {free : List Node}
    (h : Seg next p free none) (needed : Nat) :
    (takeFree next needed p).1 = free.take needed ∧
      Seg next (takeFree next needed p).2 (free.drop needed) none := by
  induction needed generalizing p free with
  | zero => exact ⟨by simp [takeFree], by simpa [takeFree] using h⟩
  | succ needed ih =>
      cases free with
      | nil =>
          rw [seg_nil] at h
          subst h
          simp [takeFree]
      | cons x free =>
          obtain ⟨rfl, hrest⟩ := h
          obtain ⟨htake, hdrop⟩ := ih hrest
          exact ⟨by simp [takeFree, htake], by simpa [takeFree] using hdrop⟩

/-- What a refill does: the nodes it stores and the nodes left on the free list are
those that were on the free list together with the new ones. -/
structure Refilled (h h' : PoolHead) (next : Node → Option Node) (free free' new : List Node)
    (stored : List Node) (needed : Nat) : Prop where
  freelist : Seg next h'.freelist free' none
  freeCnt : h'.freeCnt = free'.length
  totalCnt : h'.totalCnt = h.totalCnt + new.length
  moved : (free ++ new).Perm (free' ++ stored)
  length : stored.length ≤ needed
  fillFreeSize : h'.fillFreeSize = h.fillFreeSize
  localCacheSize : h'.localCacheSize = h.localCacheSize
  dataAlignLen : h'.dataAlignLen = h.dataAlignLen

/-- The nodes of a fresh memory block: pairwise distinct and new. -/
theorem block_nodup {align : Nat} (mem cnt : Nat) (halign : 0 < align) :
    ((List.range cnt).map fun i => mem + align * i).Nodup := by
  refine List.nodup_range.map_on ?_
  intro i _ j _ hij
  exact Nat.eq_of_mul_eq_mul_left halign (by omega)

theorem block_fresh {s : Pool} {cnt mem : Nat} (hpos : 0 < s.head.dataAlignLen)
    (fresh : FreshMem s cnt (some mem)) {i : Nat} (hi : i < cnt) :
    mem + s.head.dataAlignLen * i ∉ s.created := by
  intro hmem
  have hstep : s.head.dataAlignLen * i + s.head.dataAlignLen ≤ s.head.dataAlignLen * cnt := by
    rw [← Nat.mul_succ]
    exact Nat.mul_le_mul_left _ hi
  have hapart : mem + s.head.dataAlignLen * i + s.head.dataAlignLen ≤ mem ∨
      mem + s.head.dataAlignLen * cnt ≤ mem + s.head.dataAlignLen * i := fresh _ hmem
  omega

/-- The specification of `sf_pool_fill_cache`. -/
theorem sfPoolFillCache_spec {s : Pool} {free : List Node} (targetArray : Nat → Node)
    (isRuntime : Bool) (newMem : Option Node) (halign : 0 < s.head.dataAlignLen)
    (hseg : Seg s.next s.head.freelist free none) (hcnt : s.head.freeCnt = free.length)
    (fresh : FreshMem s (if isRuntime then s.head.fillFreeSize else s.head.localCacheSize)
      newMem) :
    let r := sfPoolFillCache s.head s.next targetArray isRuntime newMem
    let new := (List.range (r.1.totalCnt - s.head.totalCnt)).map r.2.1
    ∃ free', Refilled s.head r.1 s.next free free' new ((List.range r.2.2).map r.2.1)
        (if isRuntime then s.head.fillFreeSize else s.head.localCacheSize) ∧
      new.Nodup ∧ ∀ x ∈ new, x ∉ s.created := by
  by_cases hzero : s.head.freeCnt = 0
  · have hfree : free = [] := List.eq_nil_of_length_eq_zero (by omega)
    subst hfree
    have unchanged : ∀ h : PoolHead, h = s.head → Refilled s.head h s.next [] [] [] []
        (if isRuntime then s.head.fillFreeSize else s.head.localCacheSize) := by
      rintro h rfl
      exact ⟨hseg, hcnt, rfl, .refl _, Nat.zero_le _, rfl, rfl, rfl⟩
    simp only [sfPoolFillCache, if_pos hzero, sfPoolIncreaseNodes]
    split
    · cases newMem with
      | none => exact ⟨[], by simpa using unchanged s.head rfl, by simp⟩
      | some mem =>
          generalize hneeded :
            (if isRuntime then s.head.fillFreeSize else s.head.localCacheSize) = needed at *
          have hnodes : ((List.range needed).map fun i =>
                if i < needed then mem + s.head.dataAlignLen * i else targetArray i) =
              (List.range needed).map fun i => mem + s.head.dataAlignLen * i :=
            List.map_congr_left fun i hi => if_pos (List.mem_range.mp hi)
          simp only [Nat.add_sub_cancel_left, hnodes]
          refine ⟨[], ⟨hseg, hzero, by simp, by simp, by simp, rfl, rfl, rfl⟩,
            block_nodup _ _ halign, ?_⟩
          intro x hx
          obtain ⟨i, hi, rfl⟩ := List.mem_map.mp hx
          exact block_fresh halign fresh (List.mem_range.mp hi)
    · exact ⟨[], by simpa using unchanged s.head rfl, by simp⟩
  · obtain ⟨htake, hdrop⟩ := takeFree_spec hseg
      (if isRuntime then s.head.fillFreeSize else s.head.localCacheSize)
    simp only [sfPoolFillCache, if_neg hzero, Nat.sub_self, List.range_zero, List.map_nil]
    generalize (if isRuntime then s.head.fillFreeSize else s.head.localCacheSize) = needed at *
    have hstored : ((List.range (takeFree s.next needed s.head.freelist).1.length).map fun i =>
        (takeFree s.next needed s.head.freelist).1.getD i (targetArray i)) =
        free.take needed := by
      rw [htake]
      refine List.ext_getElem (by simp) fun i h₁ h₂ => ?_
      simp only [List.length_take] at h₂
      simp [List.getD_eq_getElem?_getD, h₂]
    refine ⟨free.drop needed, ⟨hdrop, ?_, rfl, ?_, ?_, rfl, rfl, rfl⟩, by simp, by simp⟩
    · rw [htake]
      simp only [List.length_take, List.length_drop]
      omega
    · rw [hstored, List.append_nil]
      calc free = free.take needed ++ free.drop needed := (List.take_append_drop _ _).symm
        _ |>.Perm (free.drop needed ++ free.take needed) := List.perm_append_comm
    · rw [hstored]
      simp only [List.length_take]
      omega

end Tapplet.SfPool
