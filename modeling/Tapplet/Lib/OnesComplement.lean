import Mathlib.Data.Nat.ModEq
import Mathlib.Algebra.BigOperators.Group.List.Basic
import Mathlib.Tactic.Common

/-!
# One's complement sums

The sum of 16-bit words in which a carry is added back at the low end, as checksums use it. It is
the sum modulo 65535, where 0 stands for no words but zeros, so the order of the words does not
matter, and neither does the order of the two bytes in each of them.
-/

namespace OnesComplement

/-- The sum of two words, with the carry added back. -/
def add (x y : Nat) : Nat := (x + y) % 2 ^ 16 + (x + y) / 2 ^ 16

/-- The sum of some words. -/
def sum (ws : List Nat) : Nat := ws.foldr add 0

/-- A word and the words that it is summed with have the sum of all ones. -/
def Verifies (ws : List Nat) : Prop := sum ws = 65535

/-- The word that stands for a sum: 65535 stands for the multiples of 65535 but 0. -/
def canon (n : Nat) : Nat := if n = 0 then 0 else (n - 1) % 65535 + 1

/-- The two bytes of a word the other way round. -/
def swap (w : Nat) : Nat := w % 256 * 256 + w / 256

variable {ws us : List Nat} {m n w x : Nat}

theorem canon_of_lt (h : n < 2 ^ 16) : canon n = n := by
  unfold canon
  split <;> omega

theorem add_canon (m n : Nat) : add (canon m) (canon n) = canon (m + n) := by
  unfold add canon
  split <;> split <;> split <;> omega

theorem canon_modEq (n : Nat) : canon n ≡ n [MOD 65535] := by
  unfold canon Nat.ModEq
  split <;> omega

theorem canon_eq_ones : canon n = 65535 ↔ n ≠ 0 ∧ n ≡ 0 [MOD 65535] := by
  unfold canon Nat.ModEq
  split <;> omega

theorem canon_le (n : Nat) : canon n ≤ 65535 := by
  unfold canon
  split <;> omega

theorem canon_eq_zero : canon n = 0 ↔ n = 0 := by
  unfold canon
  split <;> omega

/-- The sum of the words, as their sum as numbers determines it. -/
theorem sum_eq (short : ∀ w ∈ ws, w < 2 ^ 16) : sum ws = canon ws.sum := by
  induction ws with
  | nil => rfl
  | cons w ws ih =>
    have hw : canon w = w := canon_of_lt (short w (List.mem_cons_self ..))
    have hws : sum ws = canon ws.sum := ih fun u hu => short u (List.mem_cons_of_mem _ hu)
    calc sum (w :: ws) = add (canon w) (canon ws.sum) := by rw [hw, ← hws]; rfl
      _ = canon (w :: ws).sum := by rw [add_canon, List.sum_cons]

theorem verifies_iff (short : ∀ w ∈ ws, w < 2 ^ 16) :
    Verifies ws ↔ ws.sum ≠ 0 ∧ ws.sum ≡ 0 [MOD 65535] := by
  rw [Verifies, sum_eq short, canon_eq_ones]

/-- Words verify when the complement of the sum of the others is among them. A complement of 0
may also be given as 65535. -/
theorem verifies_of_complement (short : ∀ w ∈ ws, w < 2 ^ 16) (short' : ∀ u ∈ us, u < 2 ^ 16)
    (total : ws.sum = us.sum + x) (complement : x = 65535 - sum us ∨ x = 65535 ∧ sum us = 65535) :
    Verifies ws := by
  have hle := canon_le us.sum
  have hmod : canon us.sum % 65535 = us.sum % 65535 := canon_modEq us.sum
  have hzero : canon us.sum = 0 ↔ us.sum = 0 := canon_eq_zero
  rw [sum_eq short'] at complement
  rw [verifies_iff short, total, Nat.ModEq]
  constructor <;> omega

/-- One word taken out of a sum. -/
theorem sum_take_out (f : Nat → Nat) {k : Nat} (hk : k < n) :
    ((List.range n).map f).sum =
      ((List.range n).map fun j => if j = k then 0 else f j).sum + f k := by
  induction n with
  | zero => omega
  | succ n ih =>
    rw [List.range_succ, List.map_append, List.map_append, List.sum_append, List.sum_append]
    by_cases h : k = n
    · subst h
      have hrest : ((List.range k).map fun j => if j = k then 0 else f j) = (List.range k).map f :=
        List.map_congr_left fun j hj => if_neg (Nat.ne_of_lt (List.mem_range.mp hj))
      rw [hrest]
      simp
    · have hn : n ≠ k := fun e => h e.symm
      rw [ih (by omega)]
      simp [hn]
      omega

/-! ## The order of the bytes -/

theorem swap_lt (h : w < 2 ^ 16) : swap w < 2 ^ 16 := by
  unfold swap
  omega

theorem swap_modEq (w : Nat) : swap w ≡ 256 * w [MOD 65535] := by
  unfold swap Nat.ModEq
  omega

theorem sum_swap_modEq (ws : List Nat) : (ws.map swap).sum ≡ 256 * ws.sum [MOD 65535] := by
  induction ws with
  | nil => rfl
  | cons w ws ih =>
    rw [List.map_cons, List.sum_cons, List.sum_cons, Nat.mul_add]
    exact (swap_modEq w).add ih

theorem sum_swap_ne_zero (h : ws.sum ≠ 0) : (ws.map swap).sum ≠ 0 := by
  induction ws with
  | nil => exact h
  | cons w ws ih =>
    rw [List.map_cons, List.sum_cons]
    by_cases hw : w = 0
    · rw [List.sum_cons, hw, Nat.zero_add] at h
      have := ih h
      omega
    · have hswap : swap w ≠ 0 := by
        unfold swap
        omega
      omega

/-- Words that verify in one byte order verify in the other one. -/
theorem Verifies.swap (h : Verifies ws) (short : ∀ w ∈ ws, w < 2 ^ 16) :
    Verifies (ws.map swap) := by
  obtain ⟨hne, hmod⟩ := (verifies_iff short).mp h
  have hshort : ∀ u ∈ ws.map OnesComplement.swap, u < 2 ^ 16 := by
    intro u hu
    obtain ⟨w, hw, rfl⟩ := List.mem_map.mp hu
    exact swap_lt (short w hw)
  refine (verifies_iff hshort).mpr ⟨sum_swap_ne_zero hne, ?_⟩
  exact (sum_swap_modEq ws).trans (hmod.mul_left 256)

end OnesComplement
