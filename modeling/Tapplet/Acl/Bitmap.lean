import Tapplet.Acl.Basic
import Mathlib.Data.Nat.Count

/-!
# The allocation bitmap as a set of ids

`TupleTable.used` reads one bit. The other lemmas state what the loops and masks of the
source do in terms of it: the count is the number of used ids, the search finds an
unused one, and setting or clearing a flag changes one id.
-/

namespace Tapplet.Acl

/-- The bit of an inner id. -/
def TupleTable.used (t : TupleTable) (id : Nat) : Bool :=
  (t.bitmap (bitmapGetIndex (id - 1))).getLsbD ((id - 1) % 64)

theorem and_one_eq_zero (w : BitVec 64) : w &&& 1 = 0 ↔ w.getLsbD 0 = false := by
  have h : w &&& 1 = (BitVec.ofBool (w.getLsbD 0)).setWidth 64 :=
    BitVec.and_one_eq_setWidth_ofBool_getLsbD
  rw [h]
  cases w.getLsbD 0 <;> decide

/-! ## Setting and clearing -/

theorem bitmapGetMask_getLsbD (index j : Nat) (hj : j < 64) :
    (bitmapGetMask index).getLsbD j = decide (j = index % 64) := by
  simp only [bitmapGetMask, BitVec.getLsbD_shiftLeft, hj, decide_true, Bool.true_and]
  by_cases hlt : j < index % 64
  · simp only [hlt, decide_true, Bool.not_true, Bool.false_and]
    exact (decide_eq_false (by omega)).symm
  · have hone : (1 : BitVec 64).getLsbD (j - index % 64) = decide (j - index % 64 = 0) := by
      rw [show (1 : BitVec 64) = 1#64 from rfl, BitVec.getLsbD_one]
      simp
    simp only [hlt, decide_false, Bool.not_false, Bool.true_and, hone]
    exact decide_eq_decide.mpr (by omega)

variable (t : TupleTable)

@[simp] theorem used_setUsedFlag {a b : Nat} (ha : a ≠ 0) (hb : b ≠ 0) :
    (t.setUsedFlag a).used b = (t.used b || decide (b = a)) := by
  simp only [TupleTable.used, TupleTable.setUsedFlag]
  by_cases hword : bitmapGetIndex (b - 1) = bitmapGetIndex (a - 1)
  · rw [hword, Function.update_self, BitVec.getLsbD_or,
      bitmapGetMask_getLsbD _ _ (Nat.mod_lt _ (by decide))]
    congr 1
    refine decide_eq_decide.mpr ?_
    simp only [bitmapGetIndex] at hword
    omega
  · rw [Function.update_of_ne hword]
    have hne : b ≠ a := fun hba => hword (by rw [hba])
    simp [hne]

@[simp] theorem used_unsetUsedFlag {a b : Nat} (ha : a ≠ 0) (hb : b ≠ 0) :
    (t.unsetUsedFlag a).used b = (t.used b && !decide (b = a)) := by
  simp only [TupleTable.used, TupleTable.unsetUsedFlag]
  by_cases hword : bitmapGetIndex (b - 1) = bitmapGetIndex (a - 1)
  · have hbit : (b - 1) % 64 < 64 := Nat.mod_lt _ (by decide)
    rw [hword, Function.update_self, BitVec.getLsbD_and, BitVec.getLsbD_not,
      bitmapGetMask_getLsbD _ _ hbit]
    simp only [hbit, decide_true, Bool.true_and]
    congr 2
    refine decide_eq_decide.mpr ?_
    simp only [bitmapGetIndex] at hword
    omega
  · rw [Function.update_of_ne hword]
    have hne : b ≠ a := fun hba => hword (by rw [hba])
    simp [hne]

/-! ## Counting -/

/-- The counting loop adds the number of set bits among the next `i`. -/
theorem calculateUsedCntLoop_eq (i : Nat) (w : BitVec 64) (cnt : Nat) :
    calculateUsedCntLoop i w cnt = cnt + Nat.count (fun j => w.getLsbD j = true) i := by
  induction i generalizing w cnt with
  | zero => rfl
  | succ i ih =>
      have hshift : ∀ j, (w >>> 1).getLsbD j = w.getLsbD (j + 1) := fun j => by
        rw [BitVec.getLsbD_ushiftRight, Nat.add_comm]
      have hhead : (if w &&& 1 ≠ 0 then cnt + 1 else cnt) =
          cnt + if w.getLsbD 0 = true then 1 else 0 := by
        by_cases h0 : w.getLsbD 0 = true
        · rw [if_pos (by rw [Ne, and_one_eq_zero, h0]; decide), if_pos h0]
        · rw [if_neg (not_not.mpr ((and_one_eq_zero w).mpr (by simpa using h0))), if_neg h0,
            Nat.add_zero]
      rw [Nat.count_succ']
      simp only [calculateUsedCntLoop, hhead, ih, hshift]
      split
      next hzero =>
        -- the early exit: no set bit is left
        have hrest : Nat.count (fun j => w.getLsbD (j + 1) = true) i = 0 := by
          simp only [← hshift, hzero]
          simp [Nat.count_false]
        omega
      next => omega

theorem calculateUsedCnt_eq (w : BitVec 64) :
    calculateUsedCnt w = Nat.count (fun j => w.getLsbD j = true) 64 := by
  simp only [calculateUsedCnt]
  split
  next hzero => subst hzero; decide
  next =>
    split
    next hones => subst hones; decide
    next => rw [calculateUsedCntLoop_eq, Nat.zero_add]

theorem tupleBitmapGetUsedCnt_eq (s : Conf) (groupId : Nat) (isIpv6 : Bool) :
    tupleBitmapGetUsedCnt s groupId isIpv6 =
      Nat.count (fun k => (s.tuple groupId isIpv6).used (k + 1) = true)
        (tupleBitmapGetTotalCnt isIpv6) := by
  have hwords : ∀ n, (List.range n).foldl
      (fun totalCnt i => totalCnt + calculateUsedCnt ((s.tuple groupId isIpv6).bitmap i)) 0 =
      Nat.count (fun k => (s.tuple groupId isIpv6).used (k + 1) = true) (n * 64) := by
    intro n
    induction n with
    | zero => rfl
    | succ n ih =>
        rw [List.range_succ, List.foldl_append, ih, Nat.succ_mul, Nat.count_add]
        simp only [List.foldl_cons, List.foldl_nil, calculateUsedCnt_eq]
        congr 1
        simp only [Nat.count_eq_card_filter_range]
        congr 1
        refine Finset.filter_congr fun j hj => ?_
        rw [Finset.mem_range] at hj
        have hindex : (n * 64 + j) / 64 = n := by omega
        have hbit : (n * 64 + j) % 64 = j := by omega
        simp only [TupleTable.used, bitmapGetIndex, Nat.add_sub_cancel, hindex, hbit]
  rw [tupleBitmapGetUsedCnt, hwords]
  cases isIpv6 <;> rfl

/-! ## Searching -/

theorem firstClear_eq_some {left innerIndex found : Nat} {w : BitVec 64}
    (h : firstClear left innerIndex w = some found) :
    ∃ j < left, found = innerIndex + j ∧ w.getLsbD j = false := by
  induction left generalizing innerIndex w with
  | zero => simp [firstClear] at h
  | succ left ih =>
      simp only [firstClear] at h
      split at h
      next hclear => exact ⟨0, by omega, by simpa using h.symm, (and_one_eq_zero w).mp hclear⟩
      next =>
        obtain ⟨j, hj, hfound, hbit⟩ := ih h
        rw [BitVec.getLsbD_ushiftRight] at hbit
        exact ⟨1 + j, by omega, by omega, hbit⟩

theorem firstClear_eq_none {left innerIndex : Nat} {w : BitVec 64}
    (h : firstClear left innerIndex w = none) : ∀ j < left, w.getLsbD j = true := by
  induction left generalizing innerIndex w with
  | zero => simp
  | succ left ih =>
      simp only [firstClear] at h
      split at h
      next => cases h
      next hset =>
        rw [and_one_eq_zero, Bool.not_eq_false] at hset
        intro j hj
        cases j with
        | zero => exact hset
        | succ j =>
            have hbit := ih h j (Nat.lt_of_succ_lt_succ hj)
            rwa [BitVec.getLsbD_ushiftRight, Nat.add_comm] at hbit

/-- The search only returns an id of the table whose bit is clear. -/
theorem tupleBitmapGetFirstUnused_spec {s : Conf} {groupId : Nat} {isIpv6 : Bool}
    (h : tupleBitmapGetFirstUnused s groupId isIpv6 ≠ 0) :
    tupleBitmapGetFirstUnused s groupId isIpv6 ≤ tupleBitmapGetTotalCnt isIpv6 ∧
      (s.tuple groupId isIpv6).used (tupleBitmapGetFirstUnused s groupId isIpv6) = false := by
  simp only [tupleBitmapGetFirstUnused] at h ⊢
  split at h
  next => exact absurd rfl h
  next word hword =>
    split at h
    next => exact absurd rfl h
    next found hfound =>
      obtain ⟨j, hj, rfl, hbit⟩ := firstClear_eq_some hfound
      have hlt : word < tupleRuleBitmapCnt isIpv6 :=
        List.mem_range.mp (List.mem_of_find?_eq_some hword)
      simp only [Nat.zero_add]
      constructor
      · have htotal : tupleBitmapGetTotalCnt isIpv6 = tupleRuleBitmapCnt isIpv6 * 64 := by
          cases isIpv6 <;> rfl
        omega
      · have hindex : (word * 64 + j) / 64 = word := by omega
        have hrest : (word * 64 + j) % 64 = j := by omega
        simpa only [TupleTable.used, bitmapGetIndex, Nat.add_sub_cancel, hindex, hrest] using hbit

/-- The search answers 0 exactly when every inner id of the table is used. -/
theorem tupleBitmapGetFirstUnused_eq_zero {s : Conf} {groupId : Nat} {isIpv6 : Bool} :
    tupleBitmapGetFirstUnused s groupId isIpv6 = 0 ↔
      ∀ a, a ≠ 0 → a ≤ tupleBitmapGetTotalCnt isIpv6 →
        (s.tuple groupId isIpv6).used a = true := by
  constructor
  · intro h a ha hale
    have htotal : tupleBitmapGetTotalCnt isIpv6 = tupleRuleBitmapCnt isIpv6 * 64 := by
      cases isIpv6 <;> rfl
    simp only [tupleBitmapGetFirstUnused] at h
    split at h
    next hall =>
      have hword := List.find?_eq_none.mp hall (bitmapGetIndex (a - 1))
        (List.mem_range.mpr (by rw [bitmapGetIndex]; omega))
      have hones : (s.tuple groupId isIpv6).bitmap (bitmapGetIndex (a - 1)) = -1 := by
        simpa using hword
      rw [TupleTable.used, hones]
      have hlt : (a - 1) % 64 < 64 := Nat.mod_lt _ (by decide)
      generalize (a - 1) % 64 = j at hlt
      revert j
      decide
    next word hword =>
      have hne := List.find?_some hword
      split at h
      next hnone =>
        refine absurd ?_ (of_decide_eq_true hne)
        apply BitVec.eq_of_getLsbD_eq
        intro j hj
        rw [firstClear_eq_none hnone j hj]
        revert j
        decide
      next => omega
  · intro hall
    by_contra hne
    obtain ⟨hle, hclear⟩ := tupleBitmapGetFirstUnused_spec hne
    rw [hall _ hne hle] at hclear
    cases hclear

end Tapplet.Acl
