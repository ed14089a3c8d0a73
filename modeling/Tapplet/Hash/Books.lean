import Mathlib.Algebra.BigOperators.Group.Finset.Piecewise
import Mathlib.Algebra.BigOperators.Ring.Finset
import Mathlib.Data.Finset.Card
import Mathlib.Data.Nat.Log
import Tapplet.Lib.Counter
import Tapplet.Lib.Run
import Tapplet.Hash.Generic

/-!
# The books of the generic hash table

`hashInit` makes an empty table of a power of two many buckets. From then on nodes are put
in and taken out in any order. `Represents` says what the table is for: each bucket is the
list of the nodes that are present and fall into it, and the counters tell their numbers.

The counters of `Table` are natural numbers. `Words` has the machine integers that the
source keeps them in; `WordStep` runs both, and they agree as long as fewer than 2 ^ 32 nodes
are in the table.
-/

namespace Tapplet.GenericHash

open Transition Linked

variable {α : Type*}

/-! ## The size of the table -/

def GENERIC_MAX_HASH_SIZE : BitVec 32 := 0x2000000

/-- The loop of `hashInit` that adjusts the size, for at most `fuel` rounds. -/
def hashsizeAdmit : Nat → BitVec 32 → BitVec 32 → Option (BitVec 32)
  | 0, _, _ => none
  | fuel + 1, temp1, admitted =>
      if temp1 &&& 0x80000000 = 0 then hashsizeAdmit fuel (temp1 <<< 1) (admitted >>> 1)
      else some admitted

/-- The requested size, as it is capped. -/
def cappedSize (hashsize : BitVec 32) : BitVec 32 :=
  if GENERIC_MAX_HASH_SIZE < hashsize then GENERIC_MAX_HASH_SIZE else hashsize

/-- The table with empty buckets and all counters zero. -/
def Table.empty (hashsize : Nat) (prev next : α → Option α) : Table α where
  hashsize := hashsize
  bcount := 0
  ncount := 0
  lmax := 0
  nmax := 0
  bmax := 0
  weight := 0
  buckets _ := ⟨0, none⟩
  prev := prev
  next := next

/-- `hashInit`: the table and its `hashmax`, which no operation reads; the inner `none` stands
for the answer -1. `allocated` tells whether there is memory for the buckets, and `prev` and
`next` are the link fields of the node memory, which it leaves alone. -/
def hashInit (fuel : Nat) (allocated : Bool) (prev next : α → Option α)
    (hashsize hashmax : BitVec 32) : Option (Option (Table α × BitVec 32)) :=
  if hashsize = 0 ∨ hashmax = 0 then some none
  else
    (hashsizeAdmit fuel (cappedSize hashsize) 0x80000000).map fun admitted =>
      if allocated then some (.empty admitted.toNat prev next, hashmax) else none

theorem and_msb_eq_zero {x : BitVec 32} : x &&& 0x80000000 = 0 ↔ x.toNat < 2 ^ 31 := by
  have hmask : (0x80000000 : BitVec 32) = BitVec.twoPow 32 31 := rfl
  have hmsb := BitVec.msb_eq_false_iff_two_mul_lt (x := x)
  rw [hmask, BitVec.and_twoPow]
  have hbit : x.getLsbD 31 = x.msb := rfl
  rw [hbit]
  constructor
  · intro hzero
    cases hx : x.msb with
    | false =>
        have hlt := hmsb.mp hx
        omega
    | true =>
        rw [hx, if_pos rfl] at hzero
        exact absurd hzero (by decide)
  · intro hlt
    rw [hmsb.mpr (by omega)]
    rfl

/-- The loop shifts the mark down as often as it has to shift the size up. -/
theorem hashsizeAdmit_eq {fuel j : Nat} {temp1 admitted : BitVec 32} (hj : j < 32)
    (hfuel : j < fuel)
    (hlow : 2 ^ 31 ≤ temp1.toNat * 2 ^ j) (hhigh : temp1.toNat * 2 ^ j < 2 ^ 32) :
    hashsizeAdmit fuel temp1 admitted = some (admitted >>> j) := by
  induction j generalizing fuel temp1 admitted with
  | zero =>
      obtain ⟨fuel, rfl⟩ := Nat.exists_eq_succ_of_ne_zero (Nat.pos_iff_ne_zero.mp hfuel)
      have hset : ¬temp1 &&& 0x80000000 = 0 := by
        rw [and_msb_eq_zero]
        omega
      rw [hashsizeAdmit, if_neg hset, BitVec.ushiftRight_zero]
  | succ j ih =>
      obtain ⟨fuel, rfl⟩ := Nat.exists_eq_succ_of_ne_zero (Nat.ne_zero_of_lt hfuel)
      have hdouble : temp1.toNat * 2 ^ (j + 1) = 2 * temp1.toNat * 2 ^ j := by
        rw [Nat.pow_succ', ← Nat.mul_assoc, Nat.mul_comm temp1.toNat]
      rw [hdouble] at hlow hhigh
      have hpos := Nat.two_pow_pos j
      have hsmall : 2 * temp1.toNat < 2 ^ 32 :=
        Nat.lt_of_le_of_lt (Nat.le_mul_of_pos_right _ hpos) hhigh
      have hshift : (temp1 <<< 1).toNat = 2 * temp1.toNat := by
        rw [BitVec.toNat_shiftLeft, Nat.shiftLeft_eq, Nat.mod_eq_of_lt (by omega)]
        omega
      have hclear : temp1 &&& 0x80000000 = 0 := and_msb_eq_zero.mpr (by omega)
      rw [hashsizeAdmit, if_pos hclear,
        ih (by omega) (by omega) (by rwa [hshift]) (by rwa [hshift]), ← BitVec.shiftRight_add,
        Nat.add_comm]

/-- The adjusted size is the largest power of two that is not above the given one. -/
theorem hashsizeAdmit_pow {size : BitVec 32} (hsize : size ≠ 0) :
    ∃ admitted k, (∀ fuel, 32 ≤ fuel → hashsizeAdmit fuel size 0x80000000 = some admitted) ∧
      admitted.toNat = 2 ^ k ∧ 2 ^ k ≤ size.toNat ∧ size.toNat < 2 ^ (k + 1) := by
  have hpos : size.toNat ≠ 0 := fun hzero => hsize (BitVec.eq_of_toNat_eq (by simpa using hzero))
  obtain ⟨k, hk⟩ : ∃ k, k = Nat.log 2 size.toNat := ⟨_, rfl⟩
  have hle : 2 ^ k ≤ size.toNat := hk ▸ Nat.pow_log_le_self 2 hpos
  have hlt : size.toNat < 2 ^ (k + 1) := hk ▸ Nat.lt_pow_succ_log_self Nat.one_lt_two _
  have hk31 : k < 32 := (Nat.pow_lt_pow_iff_right Nat.one_lt_two).mp (by omega)
  have hup : 2 ^ k * 2 ^ (31 - k) = 2 ^ 31 := by
    rw [← pow_add]
    congr 1
    omega
  have hupper : 2 ^ (k + 1) * 2 ^ (31 - k) = 2 ^ 32 := by
    rw [← pow_add]
    congr 1
    omega
  refine ⟨(0x80000000 : BitVec 32) >>> (31 - k), k, fun fuel hfuel => ?_, ?_, hle, hlt⟩
  · apply hashsizeAdmit_eq (by omega) (by omega)
    · rw [← hup]
      exact Nat.mul_le_mul_right _ hle
    · rw [← hupper]
      exact Nat.mul_lt_mul_of_pos_right hlt (Nat.two_pow_pos _)
  · have hmark : (0x80000000 : BitVec 32).toNat = 2 ^ 31 := rfl
    rw [BitVec.toNat_ushiftRight, hmark, Nat.shiftRight_eq_div_pow, ← hup]
    exact Nat.mul_div_cancel _ (Nat.two_pow_pos _)

theorem cappedSize_toNat (hashsize : BitVec 32) :
    (cappedSize hashsize).toNat = min hashsize.toNat (2 ^ 25) := by
  have hmax : GENERIC_MAX_HASH_SIZE.toNat = 2 ^ 25 := rfl
  unfold cappedSize
  split
  next hlt =>
    have hlt := BitVec.lt_def.mp hlt
    omega
  next hle =>
    have hle := mt BitVec.lt_def.mpr hle
    omega

/-! ## Runs -/

/-- The table, the nodes that are in it and the hash that each was put in under. -/
structure State (α : Type*) where
  table : Table α
  nodes : Finset α
  hashOf : α → Nat

inductive Op (α : Type*) where
  | insert (node : α) (hash : Nat)
  | free (node : α)

section Runs

variable [DecidableEq α]

/-- One operation: a node that is not in the table is put in, or one that is in it is taken
out under the hash that it was put in under. -/
inductive Step : State α → Op α → State α → Prop where
  | insert {s node hash} : node ∉ s.nodes →
      Step s (.insert node hash)
        { table := hashInsertNode s.table hash node
          nodes := insert node s.nodes
          hashOf := Function.update s.hashOf node hash }
  | free {s node} : node ∈ s.nodes →
      Step s (.free node)
        { s with
          table := hashFreeNode s.table node (s.hashOf node)
          nodes := s.nodes.erase node }

end Runs

/-- `hashFindNode`. -/
def hashFindNode (h : Table α) (hash : Nat) (key : List UInt8) (cmp : List UInt8 → α → Int) :
    Option α :=
  let buck := h.buckets (h.bucketIndex hash)
  search h.next (fun node => cmp key node = 0) buck.ncount buck.head

/-- Bucket `i` is the list `cells i` of the nodes that are present and fall into it, and the
counters of the table tell the nodes, the buckets in use and the total weight. -/
structure Represents (s : State α) (cells : Nat → List α) : Prop where
  hash : HashInv s.table cells
  mem : ∀ i x, x ∈ cells i ↔ x ∈ s.nodes ∧ s.table.bucketIndex (s.hashOf x) = i
  ncount : s.table.ncount = s.nodes.card
  bcount : s.table.bcount = ((Finset.range s.table.hashsize).filter fun i => cells i ≠ []).card
  weight : s.table.weight =
    ∑ i ∈ Finset.range s.table.hashsize, (cells i).length * ((cells i).length + 1) / 2

/-- `answer` is a node that is present in the bucket of `hash` and `found`, if there is one. -/
def Answers (s : State α) (hash : Nat) (found : α → Prop) (answer : Option α) : Prop :=
  (answer.isSome ↔ ∃ x ∈ s.nodes,
    s.table.bucketIndex (s.hashOf x) = s.table.bucketIndex hash ∧ found x) ∧
  ∀ x ∈ answer, x ∈ s.nodes ∧
    s.table.bucketIndex (s.hashOf x) = s.table.bucketIndex hash ∧ found x

namespace Represents

variable {s t : State α} {cells : Nat → List α}

theorem search (ok : Represents s cells) (hash : Nat) (found : α → Prop) [DecidablePred found] :
    Answers s hash found
      (Linked.search s.table.next (fun x => decide (found x))
        (s.table.buckets (s.table.bucketIndex hash)).ncount
        (s.table.buckets (s.table.bucketIndex hash)).head) := by
  rw [search_of_seg (ok.hash.linked _).seg (Nat.le_of_eq (ok.hash.count _).symm)]
  constructor
  · rw [List.find?_isSome]
    simp only [ok.mem, and_assoc, decide_eq_true_eq]
  · intro x hx
    have hin := (ok.mem _ x).mp (List.mem_of_find?_eq_some hx)
    have hfound := List.find?_some hx
    exact ⟨hin.1, hin.2, of_decide_eq_true hfound⟩

theorem empty (hashsize : Nat) (prev next : α → Option α) (hashOf : α → Nat) :
    Represents ⟨.empty hashsize prev next, ∅, hashOf⟩ fun _ => [] where
  hash := ⟨fun _ => rfl, fun _ => rfl, fun _ => .nil, by simp⟩
  mem := by simp
  ncount := rfl
  bcount := by simp [Table.empty]
  weight := by simp [Table.empty]

theorem bucketIndex_lt {h : Table α} (hpos : 0 < h.hashsize) (hash : Nat) :
    h.bucketIndex hash < h.hashsize :=
  Nat.lt_of_le_of_lt Nat.and_le_right (Nat.sub_lt hpos Nat.one_pos)

theorem length_pos_iff {cells : List α} : (if cells ≠ [] then 1 else 0) = min cells.length 1 := by
  cases cells <;> simp

section Writes

variable [DecidableEq α]

/-- A node that is not in the table is put in. -/
theorem insert (ok : Represents s cells) (hpos : 0 < s.table.hashsize) {node : α} {hash : Nat}
    (hnew : node ∉ s.nodes) :
    Represents
      { table := hashInsertNode s.table hash node
        nodes := Insert.insert node s.nodes
        hashOf := Function.update s.hashOf node hash }
      (Function.update cells (s.table.bucketIndex hash)
        (node :: cells (s.table.bucketIndex hash))) := by
  obtain ⟨i, hi⟩ : ∃ i, i = s.table.bucketIndex hash := ⟨_, rfl⟩
  have hrange : i ∈ Finset.range s.table.hashsize :=
    Finset.mem_range.mpr (hi ▸ bucketIndex_lt hpos hash)
  have hcount := ok.hash.count i
  have hfresh : ∀ j, node ∉ cells j := fun j hmem => hnew ((ok.mem j node).mp hmem).1
  have hinserted := ok.hash.insert hash hfresh
  rw [← hi] at hinserted ⊢
  refine ⟨hinserted, fun j x => ?_, ?_, ?_, ?_⟩
  · rw [Finset.mem_insert]
    by_cases hx : x = node
    · subst hx
      simp only [Function.update_self, hashInsertNode_bucketIndex, ← hi, true_or, true_and]
      by_cases hj : j = i
      · simp [hj]
      · rw [Function.update_of_ne hj]
        exact iff_of_false (hfresh j) (Ne.symm hj)
    · simp only [hx, false_or, Function.update_of_ne hx, hashInsertNode_bucketIndex]
      rw [← ok.mem j x]
      by_cases hj : j = i
      · simp [hj, hx]
      · rw [Function.update_of_ne hj]
  · have hsum := congrArg (· + 1) ok.ncount
    rw [Finset.card_insert_of_notMem hnew]
    exact hsum
  · have hsum := Counter.sum_update (fun l => min l.length 1) cells hrange (node :: cells i)
    have hbcount := ok.bcount
    simp only [Finset.card_filter, length_pos_iff] at hbcount ⊢
    simp only [hashInsertNode, ← hi, hcount]
    simp only [List.length_cons] at hsum
    split <;> omega
  · have hsum := Counter.sum_update (fun l => l.length * (l.length + 1) / 2) cells hrange
      (node :: cells i)
    have hweight := ok.weight
    have htriangle := Counter.triangle_succ (cells i).length
    simp only [hashInsertNode, ← hi, hcount]
    simp only [List.length_cons] at hsum
    omega

/-- A node that is in the table is taken out. -/
theorem free (ok : Represents s cells) (hpos : 0 < s.table.hashsize) {node : α}
    (hin : node ∈ s.nodes) :
    Represents
      { s with
        table := hashFreeNode s.table node (s.hashOf node)
        nodes := s.nodes.erase node }
      (Function.update cells (s.table.bucketIndex (s.hashOf node))
        ((cells (s.table.bucketIndex (s.hashOf node))).erase node)) := by
  obtain ⟨i, hi⟩ : ∃ i, i = s.table.bucketIndex (s.hashOf node) := ⟨_, rfl⟩
  have hrange : i ∈ Finset.range s.table.hashsize :=
    Finset.mem_range.mpr (hi ▸ bucketIndex_lt hpos _)
  have hcount := ok.hash.count i
  have hmem : node ∈ cells i := (ok.mem i node).mpr ⟨hin, hi.symm⟩
  have hfreed := ok.hash.free (s.hashOf node) (hi ▸ hmem)
  obtain ⟨n, hn⟩ : ∃ n, (cells i).length = n + 1 :=
    Nat.exists_eq_add_one.mpr (List.length_pos_of_mem hmem)
  have hlen : ((cells i).erase node).length = n := by rw [List.length_erase_of_mem hmem, hn]; rfl
  have hpresent := ok.hash.not_skipped hmem
  rw [← hi] at hfreed ⊢
  refine ⟨hfreed, fun j x => ?_, ?_, ?_, ?_⟩
  · rw [Finset.mem_erase, hashFreeNode_bucketIndex, and_assoc, ← ok.mem j x]
    by_cases hj : j = i
    · subst hj
      rw [Function.update_self, (ok.hash.nodup j).mem_erase_iff]
    · rw [Function.update_of_ne hj]
      refine (and_iff_right_of_imp ?_).symm
      rintro hx rfl
      exact hj (((ok.mem j x).mp hx).2.symm.trans hi.symm)
  · simp only [hashFreeNode, ← hi, if_neg hpresent]
    rw [Finset.card_erase_of_mem hin, ok.ncount]
  · have hsum := Counter.sum_update (fun l => min l.length 1) cells hrange ((cells i).erase node)
    have hbcount := ok.bcount
    simp only [hashFreeNode_hashsize, Finset.card_filter, length_pos_iff] at hbcount ⊢
    simp only [hashFreeNode, ← hi, if_neg hpresent, hcount, hn]
    simp only [hlen, hn] at hsum
    split <;> omega
  · have hsum := Counter.sum_update (fun l => l.length * (l.length + 1) / 2) cells hrange
      ((cells i).erase node)
    have hweight := ok.weight
    have htriangle := Counter.triangle_succ n
    simp only [hashFreeNode_hashsize]
    simp only [hashFreeNode, ← hi, if_neg hpresent, hcount, hn]
    simp only [hlen, hn] at hsum
    omega

theorem step {e : Op α} (ok : Represents s cells) (hpos : 0 < s.table.hashsize)
    (hstep : Step s e t) : t.table.hashsize = s.table.hashsize ∧ ∃ cells, Represents t cells := by
  cases hstep with
  | insert hnew => exact ⟨rfl, _, ok.insert hpos hnew⟩
  | free hin => exact ⟨hashFreeNode_hashsize _ _, _, ok.free hpos hin⟩

end Writes

end Represents

/-! ## Machine words -/

/-- The counters as the source keeps them. -/
structure Words where
  nodeCnt : Nat → UInt32
  ncount : UInt32
  bcount : UInt32
  weight : UInt64

def Table.words (h : Table α) : Words where
  nodeCnt i := .ofNat (h.buckets i).ncount
  ncount := .ofNat h.ncount
  bcount := .ofNat h.bcount
  weight := .ofNat h.weight

namespace Words

/-- What `hashInsertNode` does to the counters, in bucket `i`. -/
def insert (w : Words) (i : Nat) : Words :=
  let n := w.nodeCnt i + 1
  { nodeCnt := Function.update w.nodeCnt i n
    ncount := w.ncount + 1
    weight := w.weight + n.toUInt64
    bcount := if n = 1 then w.bcount + 1 else w.bcount }

/-- What `hashFreeNode` does to the counters, in bucket `i`. -/
def free (w : Words) (i : Nat) : Words :=
  let n := w.nodeCnt i - 1
  { nodeCnt := Function.update w.nodeCnt i n
    weight := w.weight - (n + 1).toUInt64
    ncount := w.ncount - 1
    bcount := if n = 0 then w.bcount - 1 else w.bcount }

/-- What `hashInit` leaves in the counters. -/
def zero : Words := ⟨fun _ => 0, 0, 0, 0⟩

/-- What an operation in state `s` does to the counters. -/
def after (w : Words) (s : State α) : Op α → Words
  | .insert _ hash => w.insert (s.table.bucketIndex hash)
  | .free node => w.free (s.table.bucketIndex (s.hashOf node))

/-- The machine counters are read as the counters of the table. -/
structure Reads (w : Words) (h : Table α) : Prop where
  nodeCnt : ∀ i, (w.nodeCnt i).toNat = (h.buckets i).ncount
  ncount : w.ncount.toNat = h.ncount
  bcount : w.bcount.toNat = h.bcount
  weight : w.weight.toNat = h.weight

end Words

/-- One operation on the table and on the machine counters, with fewer than 2 ^ 32 nodes in the
table afterwards. -/
structure WordStep [DecidableEq α] (s : State α × Words) (e : Op α) (t : State α × Words) :
    Prop where
  step : Step s.1 e t.1
  words : t.2 = s.2.after s.1 e
  few : t.1.nodes.card < 2 ^ 32

theorem toUInt64_ofNat {n : Nat} (few : n < 2 ^ 32) :
    (UInt32.ofNat n).toUInt64 = UInt64.ofNat n := by
  have hfew : n < UInt64.size := Nat.lt_trans few (by decide)
  apply UInt64.toNat_inj.mp
  rw [UInt32.toNat_toUInt64, UInt32.toNat_ofNat_of_lt' few, UInt64.toNat_ofNat_of_lt' hfew]

theorem uint32_ofNat_succ (n : Nat) : UInt32.ofNat (n + 1) = UInt32.ofNat n + 1 :=
  UInt32.ofNat_add n 1

theorem ofNat_eq_ofNat {m n : Nat} (hm : m < 2 ^ 32) (hn : n < 2 ^ 32) :
    UInt32.ofNat m = UInt32.ofNat n ↔ m = n := by
  rw [← UInt32.toNat_inj, UInt32.toNat_ofNat_of_lt' hm, UInt32.toNat_ofNat_of_lt' hn]

namespace Represents

variable [DecidableEq α] {s : State α} {cells : Nat → List α}

/-- The nodes of all buckets are the nodes of the table. -/
theorem sum_length (ok : Represents s cells) (hpos : 0 < s.table.hashsize) :
    ∑ i ∈ Finset.range s.table.hashsize, (cells i).length = s.nodes.card := by
  have hmaps : Set.MapsTo (fun x => s.table.bucketIndex (s.hashOf x)) s.nodes
      (Finset.range s.table.hashsize) :=
    fun x _ => Finset.mem_coe.mpr (Finset.mem_range.mpr (bucketIndex_lt hpos _))
  rw [Finset.card_eq_sum_card_fiberwise hmaps]
  apply Finset.sum_congr rfl
  intro i _
  rw [← List.toFinset_card_of_nodup (ok.hash.nodup i)]
  congr 1
  ext x
  rw [List.mem_toFinset, Finset.mem_filter, ok.mem]

theorem length_le (ok : Represents s cells) (i : Nat) : (cells i).length ≤ s.nodes.card := by
  rw [← List.toFinset_card_of_nodup (ok.hash.nodup i)]
  apply Finset.card_le_card
  intro x hx
  exact ((ok.mem i x).mp (List.mem_toFinset.mp hx)).1

/-- As long as fewer than 2 ^ 32 nodes are present, the machine counters are read as the
counters. -/
theorem words_exact (ok : Represents s cells) (hpos : 0 < s.table.hashsize)
    (few : s.nodes.card < 2 ^ 32) :
    s.table.words.Reads s.table := by
  have hsum := ok.sum_length hpos
  refine ⟨fun i => ?_, ?_, ?_, ?_⟩
  · have hle := ok.length_le i
    apply UInt32.toNat_ofNat_of_lt'
    rw [ok.hash.count]
    exact Nat.lt_of_le_of_lt hle few
  · apply UInt32.toNat_ofNat_of_lt'
    rw [ok.ncount]
    exact few
  · apply UInt32.toNat_ofNat_of_lt'
    refine Nat.lt_of_le_of_lt ?_ few
    rw [ok.bcount, ← hsum, Finset.card_filter]
    apply Finset.sum_le_sum
    intro i _
    rw [length_pos_iff]
    exact Nat.min_le_left ..
  · apply UInt64.toNat_ofNat_of_lt'
    have hbound : s.table.weight ≤ s.nodes.card * 2 ^ 31 := by
      rw [ok.weight, ← hsum, Finset.sum_mul]
      apply Finset.sum_le_sum
      intro i _
      have hle : (cells i).length + 1 ≤ 2 ^ 31 * 2 := by
        have hlen := ok.length_le i
        omega
      apply Nat.div_le_of_le_mul
      calc (cells i).length * ((cells i).length + 1)
          ≤ (cells i).length * (2 ^ 31 * 2) := Nat.mul_le_mul_left _ hle
        _ = 2 * ((cells i).length * 2 ^ 31) := by rw [← Nat.mul_assoc, Nat.mul_comm]
    have hlt : s.nodes.card * 2 ^ 31 < 2 ^ 32 * 2 ^ 31 :=
      Nat.mul_lt_mul_of_pos_right few (Nat.two_pow_pos _)
    exact Nat.lt_of_le_of_lt hbound (Nat.lt_of_lt_of_le hlt (by decide))

omit [DecidableEq α] in
theorem words_update {buckets : Nat → Buck α} (i : Nat) (buck : Buck α) :
    (fun j => UInt32.ofNat (Function.update buckets i buck j).ncount) =
      Function.update (fun j => UInt32.ofNat (buckets j).ncount) i (.ofNat buck.ncount) := by
  funext j
  by_cases hj : j = i
  · subst hj
    rw [Function.update_self, Function.update_self]
  · rw [Function.update_of_ne hj, Function.update_of_ne hj]

/-- A node is put in: the machine counters do what the counters do. -/
theorem words_insert (ok : Represents s cells) (hash : Nat) (node : α)
    (few : s.nodes.card + 1 < 2 ^ 32) :
    (hashInsertNode s.table hash node).words =
      s.table.words.insert (s.table.bucketIndex hash) := by
  obtain ⟨n, hn⟩ : ∃ n, (s.table.buckets (s.table.bucketIndex hash)).ncount = n := ⟨_, rfl⟩
  have hle := ok.length_le (s.table.bucketIndex hash)
  rw [← ok.hash.count, hn] at hle
  have hfew : n + 1 < 2 ^ 32 := by omega
  have hone : UInt32.ofNat n + 1 = 1 ↔ n + 1 = 1 := by
    rw [← uint32_ofNat_succ]
    exact ofNat_eq_ofNat hfew (by decide)
  have hword : (UInt32.ofNat n + 1).toUInt64 = UInt64.ofNat (n + 1) := by
    rw [← uint32_ofNat_succ]
    exact toUInt64_ofNat hfew
  simp only [Table.words, Words.insert, hashInsertNode, Words.mk.injEq, words_update, hn, hone,
    hword, uint32_ofNat_succ, UInt64.ofNat_add, true_and, and_true]
  split
  · exact uint32_ofNat_succ _
  · rfl

/-- A node is taken out: the machine counters do what the counters do. -/
theorem words_free (ok : Represents s cells) {node : α} (hin : node ∈ s.nodes)
    (hpos : 0 < s.table.hashsize) (few : s.nodes.card < 2 ^ 32) :
    (hashFreeNode s.table node (s.hashOf node)).words =
      s.table.words.free (s.table.bucketIndex (s.hashOf node)) := by
  obtain ⟨i, hi⟩ : ∃ i, i = s.table.bucketIndex (s.hashOf node) := ⟨_, rfl⟩
  have hmem : node ∈ cells i := (ok.mem i node).mpr ⟨hin, hi.symm⟩
  have hpresent := ok.hash.not_skipped hmem
  have hrange : i ∈ Finset.range s.table.hashsize :=
    Finset.mem_range.mpr (hi ▸ bucketIndex_lt hpos _)
  obtain ⟨n, hn⟩ : ∃ n, (s.table.buckets i).ncount = n + 1 := by
    rw [ok.hash.count]
    exact Nat.exists_eq_add_one.mpr (List.length_pos_of_mem hmem)
  have hlen := (ok.hash.count i).symm.trans hn
  have hle := ok.length_le i
  have hncount : 1 ≤ s.table.ncount := by
    have hcount := ok.ncount
    omega
  have hbcount : 1 ≤ s.table.bcount := by
    rw [ok.bcount]
    exact Finset.card_pos.mpr ⟨i, Finset.mem_filter.mpr ⟨hrange, List.ne_nil_of_mem hmem⟩⟩
  have hweight : n + 1 ≤ s.table.weight := by
    have hterm := Finset.single_le_sum (f := fun i => (cells i).length * ((cells i).length + 1) / 2)
      (fun _ _ => Nat.zero_le _) hrange
    have htriangle := Counter.triangle_succ n
    rw [ok.weight]
    simp only [hlen] at hterm
    omega
  have hpred : ∀ {m}, 1 ≤ m → UInt32.ofNat (m - 1) = UInt32.ofNat m - 1 := UInt32.ofNat_sub
  have hzero : UInt32.ofNat n = 0 ↔ n = 0 := ofNat_eq_ofNat (n := 0) (by omega) (by decide)
  have hnode : UInt32.ofNat (n + 1) - 1 = UInt32.ofNat n := (hpred (Nat.le_add_left 1 n)).symm
  have hword : (UInt32.ofNat n + 1).toUInt64 = UInt64.ofNat (n + 1) := by
    rw [← uint32_ofNat_succ]
    exact toUInt64_ofNat (by omega)
  simp only [Table.words, Words.free, hashFreeNode, ← hi, if_neg hpresent, Words.mk.injEq,
    words_update, hn, Nat.add_sub_cancel, hnode, hzero, hword, hpred hncount,
    UInt64.ofNat_sub hweight, true_and, and_true]
  split
  · exact hpred hbcount
  · rfl

theorem words_step {e : Op α} {s t : State α × Words} (ok : Represents s.1 cells)
    (hpos : 0 < s.1.table.hashsize) (few : s.1.nodes.card < 2 ^ 32)
    (hwords : s.2 = s.1.table.words) (hstep : WordStep s e t) : t.2 = t.1.table.words := by
  obtain ⟨s, w⟩ := s
  obtain ⟨t, w'⟩ := t
  obtain ⟨hstep, hafter, few'⟩ := hstep
  simp only at hstep hafter few' hwords few hpos ok ⊢
  rw [hafter, hwords]
  cases hstep with
  | insert hnew =>
      rw [Finset.card_insert_of_notMem hnew] at few'
      exact (ok.words_insert _ _ few').symm
  | free hin => exact (ok.words_free hin hpos few).symm

end Represents

/-- The table that `hashInit` makes has the largest power of two many buckets that is not above
the requested size, as it is capped. In every run from there on it represents the nodes that are
present, and both searches find a node in its bucket exactly when there is one; the machine
counters are read as these numbers while fewer than 2 ^ 32 nodes are present. -/
theorem table_represents [DecidableEq α] (prev next : α → Option α) {hashsize hashmax : BitVec 32}
    (hsize : hashsize ≠ 0) (hmax : hashmax ≠ 0) :
    ∃ h k, (∀ fuel, 32 ≤ fuel →
        hashInit fuel true prev next hashsize hashmax = some (some (h, hashmax))) ∧
      h.hashsize = 2 ^ k ∧ 2 ^ k ≤ min hashsize.toNat (2 ^ 25) ∧
      min hashsize.toNat (2 ^ 25) < 2 ^ (k + 1) ∧
      (∀ hashOf es s, Run Step ⟨h, ∅, hashOf⟩ es s → s.table.hashsize = h.hashsize ∧
        (∃ cells, Represents s cells) ∧ ∀ hash key,
          (∀ cmp, Answers s hash (fun x => cmp key x = 0) (hashFindNode s.table hash key cmp)) ∧
          ∀ data, Answers s hash (fun x => (data x).take key.length = key)
            (hashFindNodeMemcmp s.table data hash key)) ∧
      ∀ hashOf es s, Run WordStep (⟨h, ∅, hashOf⟩, .zero) es s → s.2.Reads s.1.table := by
  have hcapped : cappedSize hashsize ≠ 0 := by
    intro hzero
    have hcap := cappedSize_toNat hashsize
    have hnone : (0 : BitVec 32).toNat = 0 := rfl
    rw [hzero, hnone] at hcap
    apply hsize
    apply BitVec.eq_of_toNat_eq
    omega
  obtain ⟨admitted, k, hadmit, hpow, hle, hlt⟩ := hashsizeAdmit_pow hcapped
  rw [cappedSize_toNat] at hle hlt
  refine ⟨.empty admitted.toNat prev next, k, fun fuel hfuel => ?_, hpow, hle, hlt,
    fun hashOf es s hrun => ?_, fun hashOf es s hrun => ?_⟩
  · rw [hashInit, if_neg (not_or.mpr ⟨hsize, hmax⟩), hadmit fuel hfuel]
    rfl
  · have hpos : 0 < admitted.toNat := hpow ▸ Nat.two_pow_pos k
    have hinv := hrun.invariant
      (I := fun s => s.table.hashsize = admitted.toNat ∧ ∃ cells, Represents s cells)
      ⟨rfl, _, .empty admitted.toNat prev next hashOf⟩
      fun s e t ⟨hs, cells, ok⟩ hstep =>
        have ⟨ht, hcells⟩ := ok.step (hs ▸ hpos) hstep
        ⟨ht.trans hs, hcells⟩
    obtain ⟨hs, cells, ok⟩ := hinv
    refine ⟨hs, ⟨cells, ok⟩, fun hash key => ⟨fun cmp => ?_, fun data => ?_⟩⟩
    · exact ok.search hash _
    · exact ok.search hash _
  · have hpos : 0 < admitted.toNat := hpow ▸ Nat.two_pow_pos k
    have hinv := hrun.invariant
      (I := fun s => s.1.table.hashsize = admitted.toNat ∧ (∃ cells, Represents s.1 cells) ∧
        s.2 = s.1.table.words ∧ s.1.nodes.card < 2 ^ 32)
      ⟨rfl, ⟨_, .empty admitted.toNat prev next hashOf⟩, rfl, by simp⟩ <| by
        rintro s e t ⟨hs, ⟨cells, ok⟩, hwords, few⟩ hstep
        obtain ⟨ht, hcells⟩ := ok.step (hs ▸ hpos) hstep.step
        exact ⟨ht.trans hs, hcells, ok.words_step (hs ▸ hpos) few hwords hstep, hstep.few⟩
    obtain ⟨hs, ⟨cells, ok⟩, hwords, few⟩ := hinv
    rw [hwords]
    exact ok.words_exact (hs ▸ hpos) few

/-- A table for three, and two nodes that share a bucket. -/
theorem table_represents_three : ∃ h : Table Nat, ∃ s cells,
    hashInit 32 true (fun _ => none) (fun _ => none) 3 1 = some (some (h, 1)) ∧
      Run Step ⟨h, ∅, fun _ => 0⟩ [.insert 1 4, .insert 2 6, .free 1] s ∧ Represents s cells := by
  obtain ⟨h, -, hinit, -, -, -, hruns, -⟩ := table_represents (fun _ : Nat => none) (fun _ => none)
    (by decide : (3 : BitVec 32) ≠ 0) (by decide : (1 : BitVec 32) ≠ 0)
  have hrun := Run.cons (@Step.insert _ _ ⟨h, ∅, fun _ => 0⟩ 1 4 (by simp))
    (.cons (@Step.insert _ _ _ 2 6 (by simp)) (.cons (@Step.free _ _ _ 1 (by simp)) (.refl _)))
  obtain ⟨-, ⟨cells, ok⟩, -⟩ := hruns _ _ _ hrun
  exact ⟨h, _, cells, hinit 32 (Nat.le_refl 32), hrun, ok⟩

end Tapplet.GenericHash
