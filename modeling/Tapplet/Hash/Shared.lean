import Tapplet.Lib.Access
import Tapplet.Lib.Linked

/-!
# The code of the hash table, access by access

Several threads use one table. The links, the first node and the number of nodes of a bucket are
only touched under the lock of the bucket, but the numbers of the whole table are not under any
lock; the source calls them "not accurate". Here the functions of the table are code that reads
and writes one field at a time. `Bucket` says what the memory of a bucket is when no function is
at work on it, and each function is described by what it makes of that, whatever is read in the
numbers of the table.
-/

namespace Tapplet.GenericHash.Shared

open Access Linked
open Access.Code (load store)

/-- The numbers of 32 bits in `generic_hash_t`. -/
inductive Stat where
  | bcount
  | ncount
  | lmax
  | nmax
  | bmax
deriving DecidableEq

/-- The fields of the table, of its buckets and of the nodes. `nodeData` are the bytes at
`node_data`. -/
inductive Loc (α : Type) where
  | stat (s : Stat)
  | weight
  | ncount (i : Nat)
  | head (i : Nat)
  | prev (node : α)
  | next (node : α)
  | nodeData (node : α)
deriving DecidableEq

/-- What a field holds. -/
abbrev Loc.Val {α : Type} : Loc α → Type
  | .stat _ => UInt32
  | .weight => UInt64
  | .ncount _ => UInt32
  | .head _ => Option α
  | .prev _ => Option α
  | .next _ => Option α
  | .nodeData _ => List UInt8

/-- The loop of `hashFindNode_memcmp`, at its condition. -/
structure Loop (α : Type) where
  key : List UInt8
  node : Option α

variable {α : Type}

/-- The memory of the table. -/
abbrev Memory (α : Type) : Type := ∀ l : Loc α, l.Val

/-- Code of the table. A function that has no node to answer with answers `none`. -/
abbrev Routine (α R : Type) : Type := Code (Loc.Val (α := α)) (Loop α) R

/-- One round of the loop. -/
def body : Loop α → Routine α (Option α)
  | ⟨_, none⟩ => .ret none
  | ⟨key, some node⟩ => .read (.nodeData node) fun data : List UInt8 =>
      if data.take key.length = key then .ret (some node)
      else .read (.next node) fun next => .goto ⟨key, next⟩

/-- `hashFindNode_memcmp` in bucket `i`. -/
def hashFindNodeMemcmp (i : Nat) (key : List UInt8) : Routine α (Option α) :=
  .read (.head i) fun head => .goto ⟨key, head⟩

/-- A write to what a pointer points to. -/
def through (pointer : Option α) (write : α → Routine α Unit) : Routine α Unit :=
  match pointer with
  | none => .fault
  | some node => write node

/-- `if(x > h->max) h->max = x`, where the code reads `x` each time. -/
def raise (read : Routine α UInt32) (max : Stat) : Routine α Unit := do
  let x ← read
  let top : UInt32 ← load (Loc.stat max)
  if top < x then
    let x ← read
    store (.stat max) x
  else pure ()

/-- The links of `hashInsertNode`. -/
def linkFirst (i : Nat) (node : α) : Routine α Unit := do
  store (.next node) none
  store (.prev node) none
  let head : Option α ← load (Loc.head i)
  if head.isSome then
    let head : Option α ← load (Loc.head i)
    store (.next node) head
    let head : Option α ← load (Loc.head i)
    through head fun head => store (.prev head) (some node)
  else pure ()

/-- `h->bcount += 1`, when the node is the first one of its bucket. -/
def countBucket (i : Nat) : Routine α Unit := do
  let n : UInt32 ← load (Loc.ncount i)
  if n = 1 then
    let bcount : UInt32 ← load (Loc.stat Stat.bcount)
    store (.stat .bcount) (bcount + 1)
    raise (load (Loc.stat Stat.bcount)) .bmax
  else pure ()

/-- `hashInsertNode` in bucket `i`. -/
def hashInsertNode (i : Nat) (node : α) : Routine α (Option α) := do
  linkFirst i node
  store (.head i) (some node)
  let n : UInt32 ← load (Loc.ncount i)
  store (.ncount i) (n + 1)
  let ncount : UInt32 ← load (Loc.stat Stat.ncount)
  store (.stat .ncount) (ncount + 1)
  let weight : UInt64 ← load Loc.weight
  let n : UInt32 ← load (Loc.ncount i)
  store .weight (weight + n.toUInt64)
  countBucket i
  raise (load (Loc.stat Stat.ncount)) .nmax
  raise (load (Loc.ncount i)) .lmax
  return none

/-- `(node->next)->prev = ..`, when there is a node behind; `before` reads what is written. -/
def relinkNext (node : α) (before : Routine α (Option α)) : Routine α Unit := do
  let next : Option α ← load (Loc.next node)
  if next.isSome then
    let next : Option α ← load (Loc.next node)
    let before ← before
    through next fun next => store (.prev next) before
  else pure ()

/-- The links of `hashFreeNode`. -/
def unlinkNode [DecidableEq α] (i : Nat) (node : α) : Routine α Unit := do
  let head : Option α ← load (Loc.head i)
  if some node = head then
    let next : Option α ← load (Loc.next node)
    store (.head i) next
    relinkNext node (pure none)
  else
    let before : Option α ← load (Loc.prev node)
    let next : Option α ← load (Loc.next node)
    through before fun before => store (.next before) next
    relinkNext node (load (Loc.prev node))

/-- The numbers of `hashFreeNode`. -/
def countFree (i : Nat) : Routine α (Option α) := do
  let n : UInt32 ← load (Loc.ncount i)
  store (.ncount i) (n - 1)
  let weight : UInt64 ← load Loc.weight
  let n : UInt32 ← load (Loc.ncount i)
  store .weight (weight - (n + 1).toUInt64)
  let ncount : UInt32 ← load (Loc.stat Stat.ncount)
  store (.stat .ncount) (ncount - 1)
  let n : UInt32 ← load (Loc.ncount i)
  if n = 0 then
    let bcount : UInt32 ← load (Loc.stat Stat.bcount)
    store (.stat .bcount) (bcount - 1)
    return none
  else return none

/-- `hashFreeNode` in bucket `i`. -/
def hashFreeNode [DecidableEq α] (i : Nat) (node : α) : Routine α (Option α) := do
  let prev : Option α ← load (Loc.prev node)
  if prev = none then
    let head : Option α ← load (Loc.head i)
    if head = none then return none
    else
      unlinkNode i node
      countFree i
  else
    unlinkNode i node
    countFree i

/-! ## Buckets -/

/-- The memory of bucket `i`, when it holds these nodes and no function is at work on it. -/
structure Bucket (m : Memory α) (data : α → List UInt8) (i : Nat) (cells : List α) : Prop where
  linked : DSeg (fun x => m (.prev x)) (fun x => m (.next x)) none (m (.head i)) cells
  ncount : m (.ncount i) = UInt32.ofNat cells.length
  nodup : cells.Nodup
  nodeData : ∀ x ∈ cells, m (.nodeData x) = data x

/-- The fields of bucket `i` and of these nodes. -/
def owned (i : Nat) (nodes : List α) : Set (Loc α)
  | .stat _ => False
  | .weight => False
  | .ncount j => j = i
  | .head j => j = i
  | .prev x => x ∈ nodes
  | .next x => x ∈ nodes
  | .nodeData x => x ∈ nodes

/-- The numbers of the whole table. -/
def racy : Set (Loc α)
  | .stat _ => True
  | .weight => True
  | _ => False

section Fields

variable {i : Nat} {nodes : List α} {x : α}

theorem stat_racy (s : Stat) : (.stat s : Loc α) ∈ racy := trivial

theorem weight_racy : (.weight : Loc α) ∈ racy := trivial

theorem ncount_owned : .ncount i ∈ owned i nodes := rfl

theorem head_owned : .head i ∈ owned i nodes := rfl

theorem prev_owned (h : x ∈ nodes) : .prev x ∈ owned i nodes := h

theorem next_owned (h : x ∈ nodes) : .next x ∈ owned i nodes := h

theorem nodeData_owned (h : x ∈ nodes) : .nodeData x ∈ owned i nodes := h

end Fields

theorem racy_apart {i : Nat} {nodes : List α} : ∀ l ∈ racy, l ∉ owned i nodes := by
  intro l hracy howned
  cases l with
  | stat _ | weight => exact howned
  | ncount _ | head _ | prev _ | next _ | nodeData _ => exact hracy

/-- Buckets without a common node have no field in common. -/
theorem owned_apart {i j : Nat} {nodes nodes' : List α} (hij : i ≠ j)
    (hnodes : ∀ x ∈ nodes, x ∉ nodes') : ∀ l ∈ owned i nodes, l ∉ owned j nodes' := by
  intro l hl hl'
  cases l with
  | stat _ | weight => exact hl
  | ncount k | head k => exact hij (hl.symm.trans hl')
  | prev x | next x | nodeData x => exact hnodes x hl hl'

namespace Bucket

variable {m m' : Memory α} {data : α → List UInt8} {i : Nat} {cells nodes : List α}

theorem congr (h : Bucket m data i cells) (hsub : ∀ x ∈ cells, x ∈ nodes)
    (same : Agree (owned i nodes) m m') : Bucket m' data i cells where
  linked := by
    have hhead : m' (.head i) = m (.head i) := same (.head i) rfl
    rw [hhead]
    exact h.linked.congr (fun x hx => same (.prev x) (hsub x hx))
      fun x hx => same (.next x) (hsub x hx)
  ncount := (same (.ncount i) rfl).trans h.ncount
  nodup := h.nodup
  nodeData x hx := (same (.nodeData x) (hsub x hx)).trans (h.nodeData x hx)

end Bucket

/-- A function has answered, and left a bucket of these nodes. -/
structure Leaves (data : α → List UInt8) (i : Nat) (nodes cells : List α) (answer r : Option α)
    (m : Memory α) : Prop where
  answer : r = answer
  bucket : Bucket m data i cells
  nodeData : ∀ x ∈ nodes, m (.nodeData x) = data x

/-- This is about the fields of the bucket and of the nodes. -/
theorem leaves_local {data : α → List UInt8} {i : Nat} {nodes cells : List α} {answer : Option α}
    (hsub : ∀ x ∈ cells, x ∈ nodes) : Local (owned i nodes) (Leaves data i nodes cells answer) := by
  intro r m m' same h
  exact ⟨h.answer, h.bucket.congr hsub same, fun x hx =>
    (same (.nodeData x) hx).trans (h.nodeData x hx)⟩

/-! ## What the functions do -/

section Functions

variable [DecidableEq α] {m : Memory α} {data : α → List UInt8} {i : Nat} {cells nodes : List α}

/-- The loop, with these nodes ahead. -/
theorem loop_does {key : List UInt8} {node : Option α} {ahead : List α}
    (hseg : Seg (fun x => m (.next x)) node ahead none) (hsub : ∀ x ∈ ahead, x ∈ nodes)
    (hdata : ∀ x ∈ ahead, m (.nodeData x) = data x) :
    Does body (owned i nodes) racy
      (fun r m' => r = (ahead.find? fun x => (data x).take key.length = key) ∧ m' = m)
      (.goto ⟨key, node⟩) m := by
  induction ahead generalizing node with
  | nil =>
      obtain rfl : node = none := hseg
      exact .goto (.ret ⟨rfl, rfl⟩)
  | cons x ahead ih =>
      obtain ⟨rfl, hseg⟩ := hseg
      apply Does.goto
      apply Does.read (nodeData_owned (hsub x (List.mem_cons_self ..)))
      rw [hdata x (List.mem_cons_self ..), List.find?_cons]
      by_cases hkey : (data x).take key.length = key
      · rw [if_pos hkey, decide_eq_true hkey]
        exact .ret ⟨rfl, rfl⟩
      · rw [if_neg hkey, decide_eq_false hkey]
        apply Does.read (next_owned (hsub x (List.mem_cons_self ..)))
        exact ih hseg (fun y hy => hsub y (List.mem_cons_of_mem _ hy))
          fun y hy => hdata y (List.mem_cons_of_mem _ hy)

/-- The lookup answers with the first node of the bucket that has the key. -/
theorem find_does (h : Bucket m data i cells) (key : List UInt8) :
    Does body (owned i cells) racy
      (Leaves data i cells cells (cells.find? fun x => (data x).take key.length = key))
      (hashFindNodeMemcmp i key) m := by
  apply Does.read head_owned
  apply (loop_does h.linked.seg (fun _ hx => hx) h.nodeData).mono
  rintro r m' ⟨hr, rfl⟩
  exact ⟨hr, h, h.nodeData⟩

/-- Code that leaves everything but the numbers of the table as it is. -/
abbrev Counts {R : Type} (i : Nat) (nodes : List α) (c : Routine α R) (m : Memory α) : Prop :=
  Does (fun _ => .fault) (owned i nodes) racy (fun _ m' => m' = m) c m

theorem load_stat_counts (s : Stat) : Counts i nodes (load (Loc.stat s)) m :=
  .guess (stat_racy s) fun _ => .ret rfl

theorem load_ncount_counts : Counts i nodes (load (Loc.ncount i)) m :=
  .read ncount_owned (.ret rfl)

theorem raise_counts {read : Routine α UInt32} (h : Counts i nodes read m) (max : Stat) :
    Counts i nodes (raise read max) m := by
  unfold raise
  apply h.bind
  rintro x _ rfl
  rw [Code.load_bind]
  apply Does.guess (stat_racy max)
  intro top
  split
  · apply h.bind
    rintro x _ rfl
    exact .scribble (stat_racy max) (.ret rfl)
  · exact .ret rfl

theorem countBucket_counts : Counts i nodes (countBucket i) m := by
  simp only [countBucket, Code.load_bind, Code.store_bind]
  apply Does.read ncount_owned
  split
  · apply Does.guess (stat_racy .bcount)
    intro bcount
    exact .scribble (stat_racy .bcount) (raise_counts (load_stat_counts .bcount) .bmax)
  · exact .ret rfl

/-- What the links of an insertion make of the memory. -/
structure LinkedFirst (m m' : Memory α) (i : Nat) (node : α) : Prop where
  head : m' (.head i) = m (.head i)
  ncount : m' (.ncount i) = m (.ncount i)
  nodeData : ∀ x, m' (.nodeData x) = m (.nodeData x)
  prevNode : m' (.prev node) = none
  nextNode : m' (.next node) = m (.head i)
  prevHead : ∀ x : α, m (.head i) = some x → m' (.prev x) = some node
  prev : ∀ x : α, x ≠ node → m (.head i) ≠ some x → m' (.prev x) = m (.prev x)
  next : ∀ x, x ≠ node → m' (.next x) = m (.next x)

theorem linkFirst_does {node : α} (hnode : node ∈ nodes)
    (hhead : ∀ x : α, m (.head i) = some x → x ∈ nodes ∧ x ≠ node) :
    Does (fun _ => .fault) (owned i nodes) racy (fun _ m' => LinkedFirst m m' i node)
      (linkFirst i node) m := by
  simp only [linkFirst, Code.load_bind, Code.store_bind]
  apply Does.write (next_owned hnode)
  apply Does.write (prev_owned hnode)
  apply Does.read head_owned
  obtain ⟨head, hm⟩ : ∃ head : Option α, m (.head i) = head := ⟨_, rfl⟩
  cases head with
  | none =>
      simp only [ne_eq, reduceCtorEq, not_false_eq_true, Function.update_of_ne, hm]
      apply Does.ret
      exact {
        head := by simp
        ncount := by simp
        nodeData := by simp
        prevNode := by simp
        nextNode := by simp [hm]
        prevHead := by simp [hm]
        prev := fun x hx _ => by simp [hx]
        next := fun x hx => by simp [hx] }
  | some first =>
      obtain ⟨hfirst, hne⟩ := hhead first hm
      simp only [ne_eq, reduceCtorEq, not_false_eq_true, Function.update_of_ne, hm]
      apply Does.read head_owned
      apply Does.write (next_owned hnode)
      apply Does.read head_owned
      simp only [ne_eq, reduceCtorEq, not_false_eq_true, Function.update_of_ne, hm]
      apply Does.write (prev_owned hfirst)
      apply Does.ret
      exact {
        head := by simp
        ncount := by simp
        nodeData := by simp
        prevNode := by simp [Ne.symm hne]
        nextNode := by simp [hm]
        prevHead := by simp [hm]
        prev := fun x hx hfirst => by
          have hxfirst : x ≠ first := fun heq => hfirst (heq ▸ hm)
          simp [hx, hxfirst]
        next := fun x hx => by simp [hx] }

/-- With the first node and the number written, the bucket has the node in front. -/
theorem LinkedFirst.leaves {m₁ m₂ : Memory α} {node : α} (hlinked : LinkedFirst m m₁ i node)
    (h : Bucket m data i cells) (hnew : node ∉ cells) (hdata : m (.nodeData node) = data node)
    (hm₂ : m₂ = Function.update (Function.update m₁ (.head i) (some node)) (.ncount i)
      (m₁ (.ncount i) + 1)) : Leaves data i (node :: cells) (node :: cells) none none m₂ := by
  have hprev : ∀ x, m₂ (.prev x) = m₁ (.prev x) := fun x => by simp [hm₂]
  have hnext : ∀ x, m₂ (.next x) = m₁ (.next x) := fun x => by simp [hm₂]
  have hbytes : ∀ x, m₂ (.nodeData x) = m (.nodeData x) := fun x => by
    simp [hm₂, hlinked.nodeData]
  have hne : ∀ x ∈ cells, x ≠ node := fun x hx => ne_of_mem_of_not_mem hx hnew
  have hdata₂ : ∀ x ∈ node :: cells, m₂ (.nodeData x) = data x := by
    intro x hx
    rw [hbytes]
    obtain rfl | hx := List.mem_cons.mp hx
    · exact hdata
    · exact h.nodeData x hx
  refine ⟨rfl, ⟨?_, ?_, List.nodup_cons.mpr ⟨hnew, h.nodup⟩, hdata₂⟩, hdata₂⟩
  · have hhead : m₂ (.head i) = some node := by simp [hm₂]
    rw [hhead]
    refine h.linked.push h.nodup ?_ ?_ ?_ ?_ ?_
    · exact (hprev node).trans hlinked.prevNode
    · exact (hnext node).trans hlinked.nextNode
    · exact fun x hx => (hprev x).trans (hlinked.prevHead x hx)
    · exact fun x hx hfirst => (hprev x).trans (hlinked.prev x (hne x hx) hfirst)
    · exact fun x hx => (hnext x).trans (hlinked.next x (hne x hx))
  · have hcount : m₂ (.ncount i) = m₁ (.ncount i) + 1 := by simp [hm₂]
    rw [hcount, hlinked.ncount, h.ncount, List.length_cons, UInt32.ofNat_add]
    rfl

/-- An insertion puts the node in front of its bucket. -/
theorem insert_does (h : Bucket m data i cells) {node : α} (hnew : node ∉ cells)
    (hdata : m (.nodeData node) = data node) :
    Does body (owned i (node :: cells)) racy
      (Leaves data i (node :: cells) (node :: cells) none) (hashInsertNode i node) m := by
  have hnode : node ∈ node :: cells := List.mem_cons_self ..
  have hhead : ∀ x : α, m (.head i) = some x → x ∈ node :: cells ∧ x ≠ node := by
    intro x hx
    have hcell : x ∈ cells := List.mem_of_head? (h.linked.seg.head?_eq.symm.trans hx)
    exact ⟨List.mem_cons_of_mem _ hcell, ne_of_mem_of_not_mem hcell hnew⟩
  simp only [hashInsertNode, Code.load_bind, Code.store_bind]
  apply (linkFirst_does hnode hhead).bind
  rintro _ m₁ hlinked
  apply Does.write head_owned
  apply Does.read ncount_owned
  apply Does.write ncount_owned
  obtain ⟨m₂, hm₂⟩ : ∃ m₂ : Memory α,
    m₂ = Function.update (Function.update m₁ (.head i) (some node))
      (.ncount i) (m₁ (.ncount i) + 1) := ⟨_, rfl⟩
  have hleaves := hlinked.leaves h hnew hdata hm₂
  simp only [ne_eq, reduceCtorEq, not_false_eq_true, Function.update_of_ne]
  rw [← hm₂]
  apply Does.guess (stat_racy .ncount)
  intro ncount
  apply Does.scribble (stat_racy .ncount)
  apply Does.guess weight_racy
  intro weight
  apply Does.read ncount_owned
  apply Does.scribble weight_racy
  apply countBucket_counts.bind
  rintro _ _ rfl
  apply (raise_counts (load_stat_counts .ncount) .nmax).bind
  rintro _ _ rfl
  apply (raise_counts load_ncount_counts .lmax).bind
  rintro _ _ rfl
  exact .ret hleaves

/-- The memory after `relinkNext` has written `before`. -/
def relinked (m : Memory α) (node : α) (before : Option α) : Memory α :=
  match (m (.next node) : Option α) with
  | none => m
  | some next => Function.update m (.prev next) before

theorem relinkNext_does {node : α} {read : Routine α (Option α)} (before : Option α)
    (hnode : node ∈ nodes) (hnext : ∀ x : α, m (.next node) = some x → x ∈ nodes)
    (hread : Does (fun _ => .fault) (owned i nodes) racy (fun r m' => r = before ∧ m' = m) read m) :
    Does (fun _ => .fault) (owned i nodes) racy (fun _ m' => m' = relinked m node before)
      (relinkNext node read) m := by
  simp only [relinkNext, Code.load_bind]
  apply Does.read (next_owned hnode)
  obtain ⟨next, hm⟩ : ∃ next : Option α, m (.next node) = next := ⟨_, rfl⟩
  cases next with
  | none =>
      rw [hm]
      apply Does.ret
      rw [relinked, hm]
  | some next =>
      rw [hm]
      apply Does.read (next_owned hnode)
      apply hread.bind
      rintro r _ ⟨rfl, rfl⟩
      rw [hm]
      apply Does.write (prev_owned (hnext next hm))
      apply Does.ret
      rw [relinked, hm]

/-- What the links of a removal make of the memory. -/
structure Unlinked (m m' : Memory α) (i : Nat) (node : α) : Prop where
  head : m' (.head i) = if some node = m (.head i) then m (.next node) else m (.head i)
  ncount : m' (.ncount i) = m (.ncount i)
  nodeData : ∀ x, m' (.nodeData x) = m (.nodeData x)
  prev : ∀ x, m' (.prev x) = if m (.next node) = some x then m (.prev node) else m (.prev x)
  next : ∀ x, x ≠ node →
    m' (.next x) = if m (.prev node) = some x then m (.next node) else m (.next x)

theorem relinked_of_ne {node : α} {before : Option α} {l : Loc α} (hl : ∀ x, l ≠ .prev x) :
    relinked m node before l = m l := by
  obtain ⟨next, hm⟩ : ∃ next : Option α, m (.next node) = next := ⟨_, rfl⟩
  rw [relinked, hm]
  cases next with
  | none => rfl
  | some next => exact Function.update_of_ne (hl next) ..

theorem relinked_prev {node : α} {before : Option α} (x : α) :
    relinked m node before (.prev x) = if m (.next node) = some x then before else m (.prev x) := by
  obtain ⟨next, hm⟩ : ∃ next : Option α, m (.next node) = next := ⟨_, rfl⟩
  rw [relinked, hm]
  cases next with
  | none => rw [if_neg nofun]
  | some next =>
      by_cases hx : next = x
      · subst hx
        rw [if_pos rfl]
        exact Function.update_self ..
      · rw [if_neg fun heq => hx (Option.some.inj heq)]
        exact Function.update_of_ne (fun heq => hx (Loc.prev.inj heq).symm) ..

theorem unlinkNode_does {node : α} (hnode : node ∈ nodes)
    (hnext : ∀ x : α, m (.next node) = some x → x ∈ nodes)
    (hprev : ∀ x : α, m (.prev node) = some x → x ∈ nodes ∧ x ≠ node)
    (hfirst : some node = m (.head i) ↔ m (.prev node) = none) :
    Does (fun _ => .fault) (owned i nodes) racy (fun _ m' => Unlinked m m' i node)
      (unlinkNode i node) m := by
  simp only [unlinkNode, Code.load_bind, Code.store_bind]
  apply Does.read head_owned
  split
  next hhead =>
    have hnone := hfirst.mp hhead
    apply Does.read (next_owned hnode)
    apply Does.write head_owned
    refine (relinkNext_does none hnode ?_ (.ret ⟨rfl, rfl⟩)).mono ?_
    · simpa using hnext
    · rintro _ _ rfl
      exact {
        head := by simp [relinked_of_ne, hhead]
        ncount := by simp [relinked_of_ne]
        nodeData := fun x => by simp [relinked_of_ne]
        prev := fun x => by simp [relinked_prev, hnone]
        next := fun x _ => by simp [relinked_of_ne, hnone] }
  next hhead =>
    apply Does.read (prev_owned hnode)
    apply Does.read (next_owned hnode)
    obtain ⟨before, hm⟩ : ∃ before : Option α, m (.prev node) = before := ⟨_, rfl⟩
    cases before with
    | none => exact absurd (hfirst.mpr hm) hhead
    | some before =>
        obtain ⟨hbefore, hne⟩ := hprev before hm
        rw [hm]
        apply Does.write (next_owned hbefore)
        refine (relinkNext_does (some before) hnode ?_ ?_).mono ?_
        · simpa [Ne.symm hne] using hnext
        · apply Does.read (prev_owned hnode)
          apply Does.ret
          simp [hm]
        · rintro _ _ rfl
          exact {
            head := by simp [relinked_of_ne, hhead]
            ncount := by simp [relinked_of_ne]
            nodeData := fun x => by simp [relinked_of_ne]
            prev := fun x => by simp [relinked_prev, hm, Ne.symm hne]
            next := fun x _ => by
              by_cases hx : before = x
              · subst hx
                simp [relinked_of_ne, hm]
              · have hx' : x ≠ before := Ne.symm hx
                simp [relinked_of_ne, hm, hx, hx'] }

omit [DecidableEq α] in
/-- The links of a node in a bucket. -/
theorem Bucket.around (h : Bucket m data i cells) {node : α} (hnode : node ∈ cells) :
    ∃ xs ys, cells = xs ++ node :: ys ∧ node ∉ xs ++ ys ∧ m (.prev node) = xs.getLast? ∧
      m (.next node) = ys.head? ∧ (some node = m (.head i) ↔ xs = []) := by
  obtain ⟨xs, ys, rfl⟩ := List.append_of_mem hnode
  have hmid : node ∉ xs ++ ys := (List.nodup_middle.mp h.nodup).notMem
  have hprev := h.linked.prev_mid
  rw [Option.or_none] at hprev
  refine ⟨xs, ys, rfl, hmid, hprev, h.linked.next_mid, ?_⟩
  have hhead : m (.head i) = (xs ++ node :: ys).head? := h.linked.seg.head?_eq
  rw [hhead]
  cases xs with
  | nil => exact iff_of_true rfl rfl
  | cons x xs =>
      refine iff_of_false (fun heq => hmid ?_) (by simp)
      obtain rfl : node = x := Option.some.inj heq
      exact List.mem_append_left _ (List.mem_cons_self ..)

/-- With the number written, the bucket is without the node. -/
theorem Unlinked.leaves {m₁ m₂ : Memory α} {node : α} (hunlinked : Unlinked m m₁ i node)
    (h : Bucket m data i cells) (hnode : node ∈ cells)
    (hm₂ : m₂ = Function.update m₁ (.ncount i) (m₁ (.ncount i) - 1)) :
    Leaves data i cells (cells.erase node) none none m₂ := by
  obtain ⟨xs, ys, rfl, hmid, -, -, hfirst⟩ := h.around hnode
  have hxs : node ∉ xs := fun hx => hmid (List.mem_append_left _ hx)
  have hsub : ∀ x ∈ xs ++ ys, x ∈ xs ++ node :: ys := fun x hx => by
    simpa using (List.mem_append.mp hx).imp_right .inr
  have hne : ∀ x ∈ xs ++ ys, x ≠ node := fun x hx => ne_of_mem_of_not_mem hx hmid
  have hprev : ∀ x, m₂ (.prev x) = m₁ (.prev x) := fun x => by simp [hm₂]
  have hnext : ∀ x, m₂ (.next x) = m₁ (.next x) := fun x => by simp [hm₂]
  have hbytes : ∀ x, m₂ (.nodeData x) = m (.nodeData x) := fun x => by
    simp [hm₂, hunlinked.nodeData]
  have hdata : ∀ x ∈ xs ++ node :: ys, m₂ (.nodeData x) = data x := fun x hx =>
    (hbytes x).trans (h.nodeData x hx)
  rw [List.erase_append_right _ hxs, List.erase_cons_head]
  refine ⟨rfl, ⟨?_, ?_, (List.nodup_cons.mp (List.nodup_middle.mp h.nodup)).2,
    fun x hx => hdata x (hsub x hx)⟩, hdata⟩
  · have hhead : m₂ (.head i) = if xs = [] then m (.next node) else m (.head i) := by
      simp only [hm₂, hunlinked.head, hfirst, ne_eq, reduceCtorEq, not_false_eq_true,
        Function.update_of_ne]
    rw [hhead]
    refine h.linked.unlink h.nodup (by simp) ?_ ?_
    · exact fun x _ => (hprev x).trans (hunlinked.prev x)
    · exact fun x hx => (hnext x).trans (hunlinked.next x (hne x hx))
  · have hcount : m₂ (.ncount i) = m₁ (.ncount i) - 1 := by simp [hm₂]
    have hlen : (xs ++ node :: ys).length = (xs ++ ys).length + 1 := by simp [Nat.add_assoc]
    rw [hcount, hunlinked.ncount, h.ncount, hlen, UInt32.ofNat_add]
    exact UInt32.add_sub_cancel ..

/-- A removal of a node of the bucket. -/
theorem free_does (h : Bucket m data i cells) {node : α} (hnode : node ∈ cells) :
    Does body (owned i cells) racy (Leaves data i cells (cells.erase node) none)
      (hashFreeNode i node) m := by
  have hwork : Does body (owned i cells) racy (Leaves data i cells (cells.erase node) none)
      (unlinkNode i node >>= fun _ => countFree i) m := by
    obtain ⟨xs, ys, hcells, hmid, hprev, hnext, hfirst⟩ := h.around hnode
    apply (unlinkNode_does hnode ?_ ?_ ?_).bind
    · rintro _ m₁ hunlinked
      simp only [countFree, Code.load_bind, Code.store_bind]
      apply Does.read ncount_owned
      apply Does.write ncount_owned
      obtain ⟨m₂, hm₂⟩ : ∃ m₂ : Memory α, m₂ = Function.update m₁ (.ncount i)
        (m₁ (.ncount i) - 1) := ⟨_, rfl⟩
      have hleaves := hunlinked.leaves h hnode hm₂
      rw [← hm₂]
      apply Does.guess weight_racy
      intro weight
      apply Does.read ncount_owned
      apply Does.scribble weight_racy
      apply Does.guess (stat_racy .ncount)
      intro ncount
      apply Does.scribble (stat_racy .ncount)
      apply Does.read ncount_owned
      split
      · apply Does.guess (stat_racy .bcount)
        intro bcount
        exact .scribble (stat_racy .bcount) (.ret hleaves)
      · exact .ret hleaves
    · intro x hx
      rw [hnext] at hx
      rw [hcells]
      exact List.mem_append_right _ (List.mem_cons_of_mem _ (List.mem_of_head? hx))
    · intro x hx
      rw [hprev] at hx
      have hxs : x ∈ xs := List.mem_of_getLast? hx
      rw [hcells]
      exact ⟨List.mem_append_left _ hxs, ne_of_mem_of_not_mem (List.mem_append_left ys hxs) hmid⟩
    · rw [hfirst, hprev, List.getLast?_eq_none_iff]
  simp only [hashFreeNode, Code.load_bind]
  apply Does.read (prev_owned hnode)
  split
  · apply Does.read head_owned
    split
    next hempty =>
      have hnil := h.linked.seg.eq_none_iff.mp hempty
      rw [hnil] at hnode
      cases hnode
    next => exact hwork
  · exact hwork

end Functions

end Tapplet.GenericHash.Shared
