import Mathlib.Algebra.BigOperators.Group.List.Basic
import Mathlib.Algebra.GroupWithZero.Nat
import Mathlib.Tactic.Common

/-!
# Tilings by intervals

Intervals of numbers, each given by its start and its length, and the number of them that
contain a point. They tile a range when each point of it is in exactly one of them and
they reach no other point. Intervals that do not overlap and stay inside the range tile it
as soon as their lengths add up to that of the range.
-/

namespace Tiling

/-- The point `i` lies in the interval. -/
def Covers (iv : Nat × Nat) (i : Nat) : Prop := iv.1 ≤ i ∧ i < iv.1 + iv.2

instance (iv : Nat × Nat) (i : Nat) : Decidable (Covers iv i) :=
  inferInstanceAs (Decidable (_ ∧ _))

/-- The number of intervals that contain `i`. -/
def depth (ivs : List (Nat × Nat)) (i : Nat) : Nat := ivs.countP fun iv => Covers iv i

def Tiles (total : Nat) (ivs : List (Nat × Nat)) : Prop :=
  ∀ i, depth ivs i = if i < total then 1 else 0

/-- No two intervals overlap. -/
def Apart (ivs : List (Nat × Nat)) : Prop := ∀ i, depth ivs i ≤ 1

/-- No interval reaches beyond `total`. -/
def Within (total : Nat) (ivs : List (Nat × Nat)) : Prop := ∀ i, total ≤ i → depth ivs i = 0

variable {ivs : List (Nat × Nat)} {total : Nat}

@[simp] theorem depth_nil (i : Nat) : depth [] i = 0 := rfl

theorem depth_cons (iv : Nat × Nat) (ivs : List (Nat × Nat)) (i : Nat) :
    depth (iv :: ivs) i = depth ivs i + if Covers iv i then 1 else 0 := by
  simp [depth, List.countP_cons]

theorem Within.tail {iv : Nat × Nat} (h : Within total (iv :: ivs)) : Within total ivs := by
  intro i hi
  have hzero := h i hi
  rw [depth_cons] at hzero
  omega

/-- The points of an interval below `n`. -/
theorem sum_covers (iv : Nat × Nat) (n : Nat) :
    ((List.range n).map fun i => if Covers iv i then 1 else 0).sum =
      min n (iv.1 + iv.2) - min n iv.1 := by
  induction n with
  | zero => simp
  | succ n ih =>
      rw [List.range_succ, List.map_append, List.sum_append, ih]
      by_cases h : Covers iv n
      · have hcover : iv.1 ≤ n ∧ n < iv.1 + iv.2 := h
        simp only [List.map_cons, List.map_nil, if_pos h, List.sum_cons, List.sum_nil]
        omega
      · have hcover : ¬(iv.1 ≤ n ∧ n < iv.1 + iv.2) := h
        simp only [List.map_cons, List.map_nil, if_neg h, List.sum_cons, List.sum_nil]
        omega

/-- Counted by points and by intervals, the lengths add up to the same. -/
theorem sum_depth (h : Within total ivs) :
    ((List.range total).map (depth ivs)).sum = (ivs.map Prod.snd).sum := by
  induction ivs with
  | nil =>
      rw [List.map_nil, List.sum_nil]
      refine List.sum_eq_zero fun x hx => ?_
      obtain ⟨i, -, rfl⟩ := List.mem_map.mp hx
      exact depth_nil i
  | cons iv ivs ih =>
      have hsplit : (List.range total).map (depth (iv :: ivs)) =
          (List.range total).map fun i => depth ivs i + if Covers iv i then 1 else 0 :=
        List.map_congr_left fun i _ => depth_cons iv ivs i
      have hinside : iv.2 = 0 ∨ iv.1 + iv.2 ≤ total := by
        by_contra hout
        rw [not_or, Nat.not_le] at hout
        have hlast : Covers iv (iv.1 + iv.2 - 1) := by
          constructor
          · omega
          · omega
        have hzero := h (iv.1 + iv.2 - 1) (by omega)
        rw [depth_cons, if_pos hlast] at hzero
        omega
      rw [hsplit, List.sum_map_add, ih h.tail, sum_covers, List.map_cons, List.sum_cons]
      omega

theorem sum_range_le {f : Nat → Nat} (h : ∀ i, f i ≤ 1) (n : Nat) :
    ((List.range n).map f).sum ≤ n := by
  induction n with
  | zero => simp
  | succ n ih =>
      rw [List.range_succ, List.map_append, List.sum_append]
      have hn := h n
      simp only [List.map_cons, List.map_nil, List.sum_cons, List.sum_nil]
      omega

/-- Terms that are at most 1 and add up to their number are all 1. -/
theorem eq_one_of_sum {f : Nat → Nat} {n : Nat} (h : ∀ i, f i ≤ 1)
    (hsum : ((List.range n).map f).sum = n) : ∀ i < n, f i = 1 := by
  induction n with
  | zero => exact fun i hi => absurd hi (Nat.not_lt_zero i)
  | succ n ih =>
      rw [List.range_succ, List.map_append, List.sum_append] at hsum
      simp only [List.map_cons, List.map_nil, List.sum_cons, List.sum_nil] at hsum
      have hn := h n
      have hlen := sum_range_le h n
      intro i hi
      obtain hi | rfl := Nat.lt_succ_iff_lt_or_eq.mp hi
      · exact ih (by omega) i hi
      · omega

/-- Intervals that do not overlap have room for their lengths. -/
theorem sum_le (apart : Apart ivs)
    (within : Within total ivs) : (ivs.map Prod.snd).sum ≤ total := by
  rw [← sum_depth within]
  exact sum_range_le apart total

theorem tiles_iff (hsum : (ivs.map Prod.snd).sum = total) :
    Tiles total ivs ↔ Apart ivs ∧ Within total ivs := by
  constructor
  · intro h
    constructor
    · intro i
      rw [h i]
      split <;> omega
    · intro i hi
      rw [h i, if_neg (by omega)]
  · rintro ⟨apart, within⟩ i
    split
    next hi => exact eq_one_of_sum apart ((sum_depth within).trans hsum) i hi
    next hi => exact within i (Nat.le_of_not_lt hi)

theorem Tiles.within (h : Tiles total ivs) : Within total ivs := fun i hi => by
  rw [h i, if_neg (by omega)]

theorem Tiles.apart (h : Tiles total ivs) : Apart ivs := fun i => by
  rw [h i]
  split <;> omega

theorem Tiles.perm {ivs' : List (Nat × Nat)} (h : Tiles total ivs) (same : ivs.Perm ivs') :
    Tiles total ivs' := fun i => by
  rw [← h i]
  exact (same.countP_eq _).symm

theorem Tiles.covered {i : Nat} (h : Tiles total ivs) (hi : i < total) :
    ∃ iv ∈ ivs, Covers iv i := by
  have hdepth := h i
  rw [if_pos hi] at hdepth
  have hpos : 0 < depth ivs i := by omega
  simpa using List.countP_pos_iff.mp hpos

/-- Of what is tiled, one element lies over a point. -/
theorem eq_of_apart {α : Type*} {xs : List α} {iv : α → Nat × Nat} {i : Nat}
    (h : Apart (xs.map iv)) {x y : α} (hx : x ∈ xs) (hy : y ∈ xs) (hxi : Covers (iv x) i)
    (hyi : Covers (iv y) i) : x = y := by
  have hle := h i
  rw [depth, List.countP_map, List.countP_eq_length_filter] at hle
  have hmem : ∀ z ∈ xs, Covers (iv z) i →
      z ∈ xs.filter ((fun iv => decide (Covers iv i)) ∘ iv) := fun z hz hzi =>
    List.mem_filter.mpr ⟨hz, by simpa using hzi⟩
  have hx' := hmem x hx hxi
  have hy' := hmem y hy hyi
  cases hfilter : xs.filter ((fun iv => decide (Covers iv i)) ∘ iv) with
  | nil => simp [hfilter] at hx'
  | cons a as =>
      rw [hfilter, List.length_cons] at hle
      obtain rfl : as = [] := List.eq_nil_of_length_eq_zero (by omega)
      rw [hfilter, List.mem_singleton] at hx' hy'
      rw [hx', hy']

end Tiling
