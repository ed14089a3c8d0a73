import Mathlib.Algebra.BigOperators.Group.Finset.Basic
import Mathlib.Algebra.Order.BigOperators.Group.Finset
import Mathlib.Data.Nat.ModEq
import Mathlib.Tactic.Common

/-!
# Counters that wrap

A counter of `w` bits that has been raised `n` times holds `n` modulo `2 ^ w`. The
difference of two readings is exact as long as the counter was raised fewer than `2 ^ w`
times in between, and so is the masked difference of a counter of `k` bits that is kept in
a word of `w` bits.

A total over many counters changes with one of them by the change of that one.
-/

namespace Counter

variable {w k m n : Nat}

theorem sub_ofNat (h : m ≤ n) :
    BitVec.ofNat w n - BitVec.ofNat w m = BitVec.ofNat w (n - m) := by
  obtain ⟨d, rfl⟩ := Nat.exists_eq_add_of_le h
  rw [BitVec.ofNat_add, BitVec.add_comm, BitVec.add_sub_cancel, Nat.add_sub_cancel_left]

/-- The difference of two readings is the number of times the counter was raised. -/
theorem sub_toNat (h : m ≤ n) (few : n - m < 2 ^ w) :
    (BitVec.ofNat w n - BitVec.ofNat w m).toNat = n - m := by
  rw [sub_ofNat h, BitVec.toNat_ofNat]
  exact Nat.mod_eq_of_lt few

theorem ofNat_succ (n : Nat) : BitVec.ofNat w n + 1 = BitVec.ofNat w (n + 1) :=
  (BitVec.ofNat_add n 1).symm

/-- The masked difference of two readings, of a counter that wraps at `2 ^ k`. -/
theorem sub_and_mask (hk : k ≤ w) (h : m ≤ n) (few : n - m < 2 ^ k) :
    ((BitVec.ofNat w (n % 2 ^ k) - BitVec.ofNat w (m % 2 ^ k)) &&& BitVec.ofNat w (2 ^ k - 1)) =
      BitVec.ofNat w (n - m) := by
  obtain ⟨d, rfl⟩ := Nat.exists_eq_add_of_le h
  obtain ⟨c, hc⟩ : 2 ^ k ∣ 2 ^ w := Nat.pow_dvd_pow 2 hk
  have hle : 2 ^ k ≤ 2 ^ w := Nat.pow_le_pow_right (by decide) hk
  have hpos := Nat.two_pow_pos k
  have hm := Nat.mod_lt m hpos
  have hd : d < 2 ^ k := by omega
  apply BitVec.eq_of_toNat_eq
  have hmask : (2 ^ k - 1) % 2 ^ w = 2 ^ k - 1 := Nat.mod_eq_of_lt (by omega)
  have hlow : ∀ x, x % 2 ^ k % 2 ^ w = x % 2 ^ k := fun x =>
    Nat.mod_eq_of_lt (Nat.lt_of_lt_of_le (Nat.mod_lt x hpos) hle)
  rw [BitVec.toNat_and, BitVec.toNat_sub, BitVec.toNat_ofNat, BitVec.toNat_ofNat,
    BitVec.toNat_ofNat,
    BitVec.toNat_ofNat, hmask, hlow, hlow, Nat.and_two_pow_sub_one_eq_mod, Nat.add_sub_cancel_left,
    hc, Nat.mod_mul_right_mod, Nat.mod_eq_of_lt (Nat.lt_of_lt_of_le hd (hc ▸ hle))]
  have hcong : 2 ^ k * c - m % 2 ^ k + (m + d) % 2 ^ k ≡ d [MOD 2 ^ k] := by
    apply Nat.ModEq.add_right_cancel' (m % 2 ^ k)
    calc 2 ^ k * c - m % 2 ^ k + (m + d) % 2 ^ k + m % 2 ^ k
        = (m + d) % 2 ^ k + 2 ^ k * c := by omega
      _ ≡ m + d [MOD 2 ^ k] := by simp [Nat.ModEq]
      _ ≡ d + m % 2 ^ k [MOD 2 ^ k] := by simp [Nat.ModEq, Nat.add_comm]
  exact Nat.mod_eq_of_modEq hcong hd

section Total

variable {ι : Type*} {s : Finset ι} {f g : ι → Nat}

/-- Changing one counter changes the total by the difference. -/
theorem sum_exchange {i : ι} (hi : i ∈ s) (same : ∀ j ∈ s, j ≠ i → g j = f j) :
    ∑ j ∈ s, g j + f i = ∑ j ∈ s, f j + g i := by
  classical
  have hrest : ∑ j ∈ s.erase i, g j = ∑ j ∈ s.erase i, f j :=
    Finset.sum_congr rfl fun j hj => same j (Finset.mem_of_mem_erase hj) (Finset.ne_of_mem_erase hj)
  have hg := Finset.add_sum_erase s g hi
  have hf := Finset.add_sum_erase s f hi
  omega

/-- The same for a counter of an entry that is replaced. -/
theorem sum_update [DecidableEq ι] {α : Type*} (F : α → Nat) (a : ι → α) {i : ι} (hi : i ∈ s)
    (x : α) :
    ∑ j ∈ s, F (Function.update a i x j) + F (a i) = ∑ j ∈ s, F (a j) + F x := by
  have hsum := sum_exchange (f := fun j => F (a j)) (g := fun j => F (Function.update a i x j)) hi
    fun j _ hj => congrArg F (Function.update_of_ne hj _ _)
  rwa [Function.update_self] at hsum

end Total

/-- The counts `1`, `2`, … up to `n` add up to the triangle number of `n`. -/
theorem triangle_succ (n : Nat) : (n + 1) * (n + 1 + 1) / 2 = n * (n + 1) / 2 + (n + 1) := by
  have hdouble : (n + 1) * (n + 1 + 1) = n * (n + 1) + (n + 1) * 2 := by
    rw [Nat.mul_comm n, ← Nat.mul_add]
  rw [hdouble, Nat.add_mul_div_right _ _ Nat.two_pos]

end Counter
