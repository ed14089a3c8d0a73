import Tapplet.Lib.Linked

/-!
# The generic hash table

A table of doubly linked bucket lists. The nodes belong to the callers, who embed the
two links in their own records, so the table is given with the link fields of the whole
node memory. `HashInv` says which nodes each bucket holds, and each operation is
described by what it does to these lists.
-/

namespace Tapplet.GenericHash

open Linked

variable {α : Type*}

/-- `generic_buck_t`. -/
structure Buck (α : Type*) where
  ncount : Nat
  head : Option α

/-- `generic_hash_t`, with the link fields of the nodes. -/
structure Table (α : Type*) where
  hashsize : Nat
  bcount : Nat
  ncount : Nat
  lmax : Nat
  nmax : Nat
  bmax : Nat
  weight : Nat
  buckets : Nat → Buck α
  prev : α → Option α
  next : α → Option α

/-- `hash & (h->hashsize-1)`. -/
def Table.bucketIndex (h : Table α) (hash : Nat) : Nat := hash &&& (h.hashsize - 1)

/-- `hashFindNode_memcmp`: `data` gives the bytes at `node_data`. -/
def hashFindNodeMemcmp (h : Table α) (data : α → List UInt8) (hash : Nat) (key : List UInt8) :
    Option α :=
  let buck := h.buckets (h.bucketIndex hash)
  search h.next (fun node => (data node).take key.length = key) buck.ncount buck.head

section Writes

variable [DecidableEq α]

/-- `hashInsertNode`. The counters follow the source; it always returns 0. -/
def hashInsertNode (h : Table α) (hash : Nat) (node : α) : Table α :=
  let i := h.bucketIndex hash
  let buck := h.buckets i
  let ncount := h.ncount + 1
  let bcount := if buck.ncount + 1 = 1 then h.bcount + 1 else h.bcount
  { h with
    next := Function.update h.next node buck.head
    prev :=
      match buck.head with
      | none => Function.update h.prev node none
      | some first => Function.update (Function.update h.prev node none) first (some node)
    buckets := Function.update h.buckets i ⟨buck.ncount + 1, some node⟩
    ncount := ncount
    weight := h.weight + (buck.ncount + 1)
    bcount := bcount
    bmax := if buck.ncount + 1 = 1 ∧ h.bmax < bcount then bcount else h.bmax
    nmax := if h.nmax < ncount then ncount else h.nmax
    lmax := if h.lmax < buck.ncount + 1 then buck.ncount + 1 else h.lmax }

/-- `hashFreeNode`. -/
def hashFreeNode (h : Table α) (node : α) (hash : Nat) : Table α :=
  let i := h.bucketIndex hash
  let buck := h.buckets i
  if h.prev node = none ∧ buck.head = none then h
  else
    let isHead := some node = buck.head
    { h with
      next :=
        if isHead then h.next
        else
          match h.prev node with
          | none => h.next -- only the first node of a bucket has no predecessor
          | some before => Function.update h.next before (h.next node)
      prev :=
        match h.next node with
        | none => h.prev
        | some behind => Function.update h.prev behind (if isHead then none else h.prev node)
      buckets :=
        Function.update h.buckets i ⟨buck.ncount - 1, if isHead then h.next node else buck.head⟩
      weight := h.weight - (buck.ncount - 1 + 1)
      ncount := h.ncount - 1
      bcount := if buck.ncount - 1 = 0 then h.bcount - 1 else h.bcount }

end Writes

/-- The bucket `i` is the doubly linked list of the nodes `cells i`, and no node is in two
buckets. -/
structure HashInv (h : Table α) (cells : Nat → List α) : Prop where
  linked : ∀ i, DSeg h.prev h.next none (h.buckets i).head (cells i)
  count : ∀ i, (h.buckets i).ncount = (cells i).length
  nodup : ∀ i, (cells i).Nodup
  unique : ∀ i j x, x ∈ cells i → x ∈ cells j → i = j

/-! ## Lookup -/

/-- The lookup ends and answers with the first node of the bucket that has the key. -/
theorem HashInv.find {h : Table α} {cells : Nat → List α} (hinv : HashInv h cells)
    (data : α → List UInt8) (hash : Nat) (key : List UInt8) :
    hashFindNodeMemcmp h data hash key =
      (cells (h.bucketIndex hash)).find? fun node => (data node).take key.length = key :=
  search_of_seg (hinv.linked _).seg (Nat.le_of_eq (hinv.count _).symm)

/-! ## Insertion and removal -/

section Writes

variable [DecidableEq α] {h : Table α} {cells : Nat → List α}

@[simp] theorem hashInsertNode_bucketIndex (hash k : Nat) (node : α) :
    (hashInsertNode h hash node).bucketIndex k = h.bucketIndex k := rfl

@[simp] theorem hashFreeNode_bucketIndex (hash k : Nat) (node : α) :
    (hashFreeNode h node hash).bucketIndex k = h.bucketIndex k := by
  unfold hashFreeNode
  dsimp only
  split <;> rfl

@[simp] theorem hashFreeNode_hashsize (hash : Nat) (node : α) :
    (hashFreeNode h node hash).hashsize = h.hashsize := by
  unfold hashFreeNode
  dsimp only
  split <;> rfl

theorem hashInsertNode_prev (h : Table α) (hash : Nat) (node : α) :
    (hashInsertNode h hash node).prev =
      match (h.buckets (h.bucketIndex hash)).head with
      | none => Function.update h.prev node none
      | some first => Function.update (Function.update h.prev node none) first (some node) := rfl

theorem hashInsertNode_next (h : Table α) (hash : Nat) (node : α) :
    (hashInsertNode h hash node).next =
      Function.update h.next node (h.buckets (h.bucketIndex hash)).head := rfl

theorem hashInsertNode_buckets (h : Table α) (hash : Nat) (node : α) :
    (hashInsertNode h hash node).buckets =
      Function.update h.buckets (h.bucketIndex hash)
        ⟨(h.buckets (h.bucketIndex hash)).ncount + 1, some node⟩ := rfl

/-- An insertion puts the node in front of its bucket. -/
theorem HashInv.insert (hinv : HashInv h cells) (hash : Nat) {node : α}
    (fresh : ∀ i, node ∉ cells i) :
    HashInv (hashInsertNode h hash node)
      (Function.update cells (h.bucketIndex hash) (node :: cells (h.bucketIndex hash))) := by
  obtain ⟨i, hi⟩ : ∃ i, i = h.bucketIndex hash := ⟨_, rfl⟩
  have hprev : ∀ x, x ≠ node → (h.buckets i).head ≠ some x →
      (hashInsertNode h hash node).prev x = h.prev x := by
    intro x hx hhead
    rw [hashInsertNode_prev, ← hi]
    split
    · exact Function.update_of_ne hx ..
    · rename_i first hfirst
      rw [Function.update_of_ne, Function.update_of_ne hx]
      rintro rfl
      exact hhead hfirst
  have hnext : ∀ x, x ≠ node → (hashInsertNode h hash node).next x = h.next x := fun x hx =>
    Function.update_of_ne hx ..
  have hhead : ∀ x, (h.buckets i).head = some x → x ∈ cells i := by
    intro x hx
    have hcell := (hinv.linked i).seg.head?_eq
    rw [hx] at hcell
    exact List.mem_of_head? hcell.symm
  rw [← hi]
  refine ⟨?_, ?_, ?_, ?_⟩
  · intro j
    by_cases hj : j = i
    · subst hj
      rw [Function.update_self]
      have hbucket : ((hashInsertNode h hash node).buckets j).head = some node := by
        rw [hashInsertNode_buckets, ← hi, Function.update_self]
      rw [hbucket]
      refine (hinv.linked j).push (hinv.nodup j) ?_ ?_ ?_ ?_ ?_
      · rw [hashInsertNode_prev, ← hi]
        split
        · exact Function.update_self ..
        · rename_i first hfirst
          rw [Function.update_of_ne, Function.update_self]
          rintro rfl
          exact fresh j (hhead _ hfirst)
      · rw [hashInsertNode_next, ← hi]
        exact Function.update_self ..
      · intro x hx
        rw [hashInsertNode_prev, ← hi]
        simp only [hx]
        exact Function.update_self ..
      · exact fun x hx hne => hprev x (ne_of_mem_of_not_mem hx (fresh j)) hne
      · exact fun x hx => hnext x (ne_of_mem_of_not_mem hx (fresh j))
    · rw [Function.update_of_ne hj]
      have hbucket : (hashInsertNode h hash node).buckets j = h.buckets j := by
        rw [hashInsertNode_buckets, ← hi]
        exact Function.update_of_ne hj ..
      rw [hbucket]
      refine (hinv.linked j).congr (fun x hx => hprev x (ne_of_mem_of_not_mem hx (fresh j)) ?_)
        fun x hx => hnext x (ne_of_mem_of_not_mem hx (fresh j))
      exact fun hx' => hj (hinv.unique j i x hx (hhead x hx'))
  · intro j
    rw [hashInsertNode_buckets, ← hi]
    by_cases hj : j = i
    · subst hj
      simp [hinv.count]
    · simp [Function.update_of_ne hj, hinv.count]
  · intro j
    by_cases hj : j = i
    · subst hj
      rw [Function.update_self]
      exact List.nodup_cons.mpr ⟨fresh j, hinv.nodup j⟩
    · rw [Function.update_of_ne hj]
      exact hinv.nodup j
  · have hmem : ∀ j x, x ∈ Function.update cells i (node :: cells i) j →
        x = node ∧ j = i ∨ x ∈ cells j := by
      intro j x hx
      by_cases hj : j = i
      · subst hj
        rw [Function.update_self] at hx
        rcases List.mem_cons.mp hx with rfl | hx
        · exact .inl ⟨rfl, rfl⟩
        · exact .inr hx
      · rw [Function.update_of_ne hj] at hx
        exact .inr hx
    intro j k x hxj hxk
    rcases hmem j x hxj with ⟨hx, hj⟩ | hxj
    · rcases hmem k x hxk with ⟨-, hk⟩ | hxk
      · rw [hj, hk]
      · exact (fresh k (hx ▸ hxk)).elim
    · rcases hmem k x hxk with ⟨hx, -⟩ | hxk
      · exact (fresh j (hx ▸ hxj)).elim
      · exact hinv.unique j k x hxj hxk

section FreeReads

variable {hash : Nat} {node : α}
  (present : ¬(h.prev node = none ∧ (h.buckets (h.bucketIndex hash)).head = none))

include present

theorem hashFreeNode_prev :
    (hashFreeNode h node hash).prev =
      match h.next node with
      | none => h.prev
      | some behind =>
          Function.update h.prev behind
            (if some node = (h.buckets (h.bucketIndex hash)).head then none
              else h.prev node) := by
  rw [hashFreeNode, if_neg present]

theorem hashFreeNode_next :
    (hashFreeNode h node hash).next =
      if some node = (h.buckets (h.bucketIndex hash)).head then h.next
      else
        match h.prev node with
        | none => h.next
        | some before => Function.update h.next before (h.next node) := by
  rw [hashFreeNode, if_neg present]

theorem hashFreeNode_buckets :
    (hashFreeNode h node hash).buckets =
      Function.update h.buckets (h.bucketIndex hash)
        ⟨(h.buckets (h.bucketIndex hash)).ncount - 1,
          if some node = (h.buckets (h.bucketIndex hash)).head then h.next node
          else (h.buckets (h.bucketIndex hash)).head⟩ := by
  rw [hashFreeNode, if_neg present]

end FreeReads

omit [DecidableEq α] in
/-- A node that is in its bucket is not mistaken for one of an empty table. -/
theorem HashInv.not_skipped (hinv : HashInv h cells) {i : Nat} {node : α}
    (hnode : node ∈ cells i) : ¬(h.prev node = none ∧ (h.buckets i).head = none) := by
  rintro ⟨-, hnone⟩
  have hempty := (hinv.linked i).seg.eq_none_iff.mp hnone
  simp [hempty] at hnode

/-- The removal of a node that is in its bucket. -/
theorem HashInv.free (hinv : HashInv h cells) (hash : Nat) {node : α}
    (hnode : node ∈ cells (h.bucketIndex hash)) :
    HashInv (hashFreeNode h node hash)
      (Function.update cells (h.bucketIndex hash)
        ((cells (h.bucketIndex hash)).erase node)) := by
  obtain ⟨i, hi⟩ : ∃ i, i = h.bucketIndex hash := ⟨_, rfl⟩
  rw [← hi] at hnode ⊢
  obtain ⟨xs, ys, hsplit⟩ := List.append_of_mem hnode
  have hlist := hinv.linked i
  have hnodup := hinv.nodup i
  rw [hsplit] at hlist hnodup
  have hprevNode := hlist.prev_mid
  have hnextNode := hlist.next_mid
  rw [Option.or_none] at hprevNode
  have hheadNode : (h.buckets i).head = (xs ++ node :: ys).head? := hlist.seg.head?_eq
  have hxs : node ∉ xs := fun hmem =>
    (List.nodup_append.mp hnodup).2.2 node hmem node (by simp) rfl
  have hisHead : some node = (h.buckets i).head ↔ xs = [] := by
    rw [hheadNode]
    cases xs with
    | nil => simp
    | cons x xs =>
        have hne : node ≠ x := by
          rintro rfl
          exact hxs (by simp)
        simp [hne]
  have hpresent := hinv.not_skipped hnode
  rw [hi] at hpresent
  have herase : (cells i).erase node = xs ++ ys := by
    rw [hsplit, List.erase_append_right _ hxs, List.erase_cons_head]
  have hmem : ∀ x, x ∈ xs ++ ys → x ∈ cells i := by
    intro x hx
    rw [hsplit]
    rcases List.mem_append.mp hx with hx | hx
    · exact List.mem_append_left _ hx
    · exact List.mem_append_right _ (List.mem_cons_of_mem _ hx)
  have hprev : ∀ x, (hashFreeNode h node hash).prev x =
      if h.next node = some x then h.prev node else h.prev x := by
    intro x
    rw [hashFreeNode_prev hpresent, ← hi]
    cases hbehind : h.next node with
    | none => simp
    | some behind =>
        by_cases hx : x = behind
        · subst hx
          rw [if_pos rfl]
          refine (Function.update_self ..).trans ?_
          by_cases hhead : some node = (h.buckets i).head
          · rw [if_pos hhead, hprevNode, hisHead.mp hhead]
            rfl
          · rw [if_neg hhead]
        · have hne : ¬some behind = some x := by simpa using Ne.symm hx
          rw [if_neg hne]
          exact Function.update_of_ne hx ..
  have hnext : ∀ x, (hashFreeNode h node hash).next x =
      if h.prev node = some x then h.next node else h.next x := by
    intro x
    rw [hashFreeNode_next hpresent, ← hi]
    by_cases hhead : some node = (h.buckets i).head
    · rw [if_pos hhead, hprevNode, hisHead.mp hhead]
      simp
    · rw [if_neg hhead]
      cases hbefore : h.prev node with
      | none => simp
      | some before =>
          by_cases hx : x = before
          · subst hx
            rw [if_pos rfl]
            exact Function.update_self ..
          · have hne : ¬some before = some x := by simpa using Ne.symm hx
            rw [if_neg hne]
            exact Function.update_of_ne hx ..
  have hbucket : ∀ j, (hashFreeNode h node hash).buckets j =
      if j = i then ⟨(h.buckets i).ncount - 1, if xs = [] then h.next node
        else (h.buckets i).head⟩ else h.buckets j := by
    intro j
    rw [hashFreeNode_buckets hpresent, ← hi]
    by_cases hj : j = i
    · subst hj
      simp [hisHead]
    · simp [hj]
  have hupdate : ∀ j, Function.update cells i (xs ++ ys) j =
      if j = i then xs ++ ys else cells j := by
    intro j
    by_cases hj : j = i
    · subst hj
      simp
    · simp [hj]
  have hsub : ∀ j x, x ∈ Function.update cells i (xs ++ ys) j → x ∈ cells j := by
    intro j x hx
    rw [hupdate] at hx
    split at hx
    · rename_i hj
      exact hj ▸ hmem x hx
    · exact hx
  rw [herase]
  refine ⟨?_, ?_, ?_, fun j k x hxj hxk => hinv.unique j k x (hsub j x hxj) (hsub k x hxk)⟩
  · intro j
    rw [hupdate, hbucket]
    by_cases hj : j = i
    · rw [if_pos hj, if_pos hj]
      refine hlist.unlink hnodup (by simp) (fun x _ => hprev x) fun x _ => hnext x
    · rw [if_neg hj, if_neg hj]
      refine (hinv.linked j).congr (fun x hx => ?_) fun x hx => ?_
      · rw [hprev, if_neg]
        intro heq
        refine hj (hinv.unique j i x hx ?_)
        rw [hnextNode] at heq
        exact hmem x (List.mem_append_right _ (List.mem_of_head? heq))
      · rw [hnext, if_neg]
        intro heq
        refine hj (hinv.unique j i x hx ?_)
        rw [hprevNode] at heq
        exact hmem x (List.mem_append_left _ (List.mem_of_getLast? heq))
  · intro j
    rw [hupdate, hbucket]
    by_cases hj : j = i
    · rw [if_pos hj, if_pos hj, hinv.count, hsplit]
      simp
    · rw [if_neg hj, if_neg hj, hinv.count]
  · intro j
    rw [hupdate]
    split
    · exact hnodup.sublist (by simp)
    · exact hinv.nodup j

/-- Taking a node out right after it was put in. -/
theorem HashInv.insert_free (hinv : HashInv h cells) {hash : Nat} {node : α}
    (fresh : ∀ i, node ∉ cells i) :
    HashInv (hashFreeNode (hashInsertNode h hash node) node hash) cells := by
  have hins := hinv.insert hash fresh
  have hfree := hins.free hash (by simp : node ∈ _)
  simpa using hfree

end Writes

end Tapplet.GenericHash
