import Mathlib.Data.List.Range
import Mathlib.Data.Nat.Count
import Mathlib.Data.Nat.Find
import Mathlib.Algebra.Order.Group.Nat
import Mathlib.Algebra.BigOperators.Group.List.Basic
import Mathlib.Tactic.Common

/-!
# Searching around a cycle

The places of a cycle are numbered in the order in which a search passes them, and the numbers
go on behind the end of the cycle. A search goes from a place to the next good one. As many
searches as there are good places in a cycle find each of them once, from wherever they start.
-/

namespace Rotor

/-- The good places among the `n` behind `k`. -/
def window (good : Nat → Bool) (k n : Nat) : List Nat := (List.range' (k + 1) n).filter good

/-- The search from `k` stops at `k'`. -/
structure Next (good : Nat → Bool) (k k' : Nat) : Prop where
  lt : k < k'
  stops : good k' = true
  skips : ∀ x, k < x → x < k' → good x = false

/-- The places where searches stop of which each starts where the one before it stopped. -/
inductive Picks (good : Nat → Bool) : Nat → List Nat → Prop where
  | nil (k : Nat) : Picks good k []
  | cons {k k' : Nat} {ks : List Nat} (next : Next good k k') (rest : Picks good k' ks) :
      Picks good k (k' :: ks)

variable {good : Nat → Bool} {k k' n P : Nat} {ks : List Nat}

theorem mem_window {x : Nat} : x ∈ window good k n ↔ (k < x ∧ x ≤ k + n) ∧ good x = true := by
  rw [window, List.mem_filter, List.mem_range'_1]
  constructor
  · rintro ⟨hrange, hgood⟩
    exact ⟨by omega, hgood⟩
  · rintro ⟨hrange, hgood⟩
    exact ⟨by omega, hgood⟩

/-- Nothing is passed before the place where the search stops. -/
theorem Next.window_eq (h : Next good k k') (hle : k' ≤ k + n) :
    window good k n = k' :: window good k' (k + n - k') := by
  have hlt := h.lt
  obtain ⟨d, rfl⟩ : ∃ d, k' = k + 1 + d := ⟨k' - (k + 1), by omega⟩
  obtain ⟨r, rfl⟩ : ∃ r, n = d + (r + 1) := ⟨n - d - 1, by omega⟩
  have hsplit : List.range' (k + 1) (d + (r + 1)) =
      List.range' (k + 1) d ++ (k + 1 + d) :: List.range' (k + 1 + d + 1) r := by
    rw [← List.range'_append_1, List.range'_succ]
  have hnone : (List.range' (k + 1) d).filter good = [] := by
    apply List.filter_eq_nil_iff.mpr
    intro x hx
    have hrange := List.mem_range'_1.mp hx
    rw [h.skips x (by omega) (by omega)]
    exact Bool.false_ne_true
  have hrest : k + (d + (r + 1)) - (k + 1 + d) = r := by omega
  rw [window, hsplit, List.filter_append, hnone, List.nil_append,
    List.filter_cons_of_pos h.stops, hrest, window]

/-- The searches find the good places in their order. -/
theorem Picks.eq_window (h : Picks good k ks) (hlen : ks.length = (window good k n).length) :
    ks = window good k n := by
  induction h generalizing n with
  | nil k => exact (List.length_eq_zero_iff.mp hlen.symm).symm
  | @cons k k' ks next rest ih =>
      have hpos : 0 < (window good k n).length := by
        rw [← hlen]
        exact Nat.succ_pos _
      obtain ⟨x, hx⟩ := List.exists_mem_of_length_pos hpos
      obtain ⟨hrange, hgood⟩ := mem_window.mp hx
      have hle : k' ≤ k + n := by
        by_contra hlt
        rw [next.skips x hrange.1 (by omega)] at hgood
        cases hgood
      have hwindow := next.window_eq hle
      rw [hwindow] at hlen ⊢
      rw [ih (Nat.succ.inj hlen)]

theorem Picks.take (h : Picks good k ks) (n : Nat) : Picks good k (ks.take n) := by
  induction h generalizing n with
  | nil k =>
      rw [List.take_nil]
      exact .nil k
  | cons next rest ih =>
      cases n with
      | zero => exact .nil _
      | succ n => exact .cons next (ih n)

theorem Picks.drop (h : Picks good k ks) (n : Nat) : ∃ k', Picks good k' (ks.drop n) := by
  induction h generalizing n with
  | nil k =>
      rw [List.drop_nil]
      exact ⟨k, .nil k⟩
  | cons next rest ih =>
      cases n with
      | zero => exact ⟨_, .cons next rest⟩
      | succ n => exact ih n

/-! ## Cycles -/

/-- A whole cycle has the same places, wherever it begins. -/
theorem countP_cycle {f : Nat → Bool} (period : ∀ x, f (x + P) = f x) (k : Nat) :
    (List.range' k P).countP f = (List.range P).countP f := by
  induction k with
  | zero => rw [List.range_eq_range']
  | succ k ih =>
      have hfirst : List.range' k (P + 1) = k :: List.range' (k + 1) P := List.range'_succ
      have hlast : List.range' k (P + 1) = List.range' k P ++ [k + P] := by
        rw [← List.range'_append_1]
        rfl
      have hcount := congrArg (List.countP f) (hfirst.symm.trans hlast)
      rw [List.countP_cons, List.countP_append, List.countP_singleton, period k] at hcount
      rw [← ih]
      exact Nat.add_right_cancel hcount

/-- Searches around a whole cycle meet the marked good places as often as there are any. -/
theorem Picks.countP_mark {mark : Nat → Bool} (h : Picks good k ks)
    (period : ∀ x, good (x + P) = good x) (hmark : ∀ x, mark (x + P) = mark x)
    (hlen : ks.length = (List.range P).countP good) :
    ks.countP mark = (List.range P).countP fun x => good x && mark x := by
  have hwindow : (window good k P).length = (List.range P).countP good := by
    rw [window, ← List.countP_eq_length_filter, countP_cycle period]
  have hboth : ∀ x, (good (x + P) && mark (x + P)) = (good x && mark x) := by
    intro x
    rw [period, hmark]
  rw [h.eq_window (hlen.trans hwindow.symm), window, List.countP_filter]
  refine Eq.trans ?_ (countP_cycle hboth (k + 1))
  exact List.countP_congr fun x _ => by rw [Bool.and_comm]

/-- A search stops within a cycle that has a good place. -/
theorem exists_next (period : ∀ x, good (x + P) = good x) {x : Nat} (hx : x < P)
    (hgood : good x = true) (k : Nat) : ∃ k', Next good k k' ∧ k' ≤ k + P := by
  have hcount : 0 < (List.range' (k + 1) P).countP good := by
    rw [countP_cycle period]
    exact List.countP_pos_iff.mpr ⟨x, List.mem_range.mpr hx, hgood⟩
  obtain ⟨y, hy, hstop⟩ := List.countP_pos_iff.mp hcount
  have hrange := List.mem_range'_1.mp hy
  have hfound : ∃ y, k < y ∧ good y = true := ⟨y, by omega, hstop⟩
  refine ⟨Nat.find hfound, ⟨(Nat.find_spec hfound).1, (Nat.find_spec hfound).2, ?_⟩, ?_⟩
  · intro z hz hlt
    have hnot := Nat.find_min hfound hlt
    exact Bool.eq_false_iff.mpr fun h => hnot ⟨hz, h⟩
  · have hle := Nat.find_min' hfound ⟨show k < y by omega, hstop⟩
    omega

/-! ## Between two places -/

/-- How many good places there are strictly between two places. -/
def between (good : Nat → Bool) (x y : Nat) : Nat :=
  Nat.count (fun z => good z = true) y - Nat.count (fun z => good z = true) (x + 1)

/-- Nothing is counted on the way to the next good place. -/
theorem Next.count_eq (h : Next good k k') :
    Nat.count (fun z => good z = true) k' = Nat.count (fun z => good z = true) (k + 1) := by
  obtain ⟨d, rfl⟩ : ∃ d, k' = k + 1 + d := ⟨k' - (k + 1), by have := h.lt; omega⟩
  have hzero : Nat.count (fun z => good (k + 1 + z) = true) d = 0 := by
    apply Nat.count_iff_forall_not.mpr
    intro z hz
    rw [h.skips (k + 1 + z) (by omega) (by omega)]
    exact Bool.false_ne_true
  rw [Nat.count_add, hzero, Nat.add_zero]

theorem Next.between_eq_zero (h : Next good k k') : between good k k' = 0 := by
  rw [between, h.count_eq, Nat.sub_self]

/-- One search passes one good place. -/
theorem Next.between_eq (h : Next good k k') {y : Nat} (hy : k' < y) :
    between good k y = between good k' y + 1 := by
  have hcount := h.count_eq
  have hstep : Nat.count (fun z => good z = true) (k' + 1) =
      Nat.count (fun z => good z = true) k' + 1 :=
    Nat.count_succ_eq_succ_count_iff.mpr h.stops
  have hle : Nat.count (fun z => good z = true) (k' + 1) ≤ Nat.count (fun z => good z = true) y :=
    Nat.count_monotone _ hy
  rw [between, between]
  omega

theorem between_mono {x x' y y' : Nat} (hx : x' ≤ x) (hy : y ≤ y') :
    between good x y ≤ between good x' y' := by
  have hlow : Nat.count (fun z => good z = true) (x' + 1) ≤
      Nat.count (fun z => good z = true) (x + 1) := Nat.count_monotone _ (by omega)
  have hhigh : Nat.count (fun z => good z = true) y ≤ Nat.count (fun z => good z = true) y' :=
    Nat.count_monotone _ hy
  rw [between, between]
  omega

theorem between_le (x y : Nat) : between good x y ≤ y - (x + 1) := by
  obtain hle | hle := Nat.le_total y (x + 1)
  · have hcount : Nat.count (fun z => good z = true) y ≤
        Nat.count (fun z => good z = true) (x + 1) := Nat.count_monotone _ hle
    rw [between]
    omega
  · obtain ⟨d, rfl⟩ := Nat.exists_eq_add_of_le hle
    have hcount : Nat.count (fun z => good (x + 1 + z) = true) d ≤ d := Nat.count_le _
    rw [between, Nat.count_add]
    omega

theorem shift_period (period : ∀ x, good (x + P) = good x) (c x : Nat) :
    good (x + c * P) = good x := by
  induction c with
  | zero => rw [Nat.zero_mul, Nat.add_zero]
  | succ c ih => rw [Nat.succ_mul, ← Nat.add_assoc, period, ih]

theorem between_period (period : ∀ x, good (x + P) = good x) (c x y : Nat) :
    between good (x + c * P) (y + c * P) = between good x y := by
  have hcount (z : Nat) : Nat.count (fun z => good z = true) (z + c * P) =
      Nat.count (fun z => good z = true) z + Nat.count (fun z => good z = true) (c * P) := by
    rw [Nat.count_add']
    simp only [shift_period period]
  rw [between, between, show x + c * P + 1 = x + 1 + c * P by omega, hcount, hcount,
    Nat.add_sub_add_right]

end Rotor
