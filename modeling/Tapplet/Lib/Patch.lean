import Mathlib.Data.List.Induction
import Mathlib.Tactic.Common

/-!
# Overwriting parts of a function

A function on the numbers stands for the contents of a buffer. `patch` overwrites a range of
it, and `lay` overwrites one range after the other. A point that is covered has the value of
a piece that covers it, whatever the order of the pieces and the old contents, as long as the
pieces that cover it agree there.
-/

namespace Patch

variable {α : Type*}

/-- `g` with the `n` values from `k` on replaced by those of `src`. -/
def patch (g : Nat → α) (k n : Nat) (src : Nat → α) : Nat → α := fun i =>
  if k ≤ i ∧ i < k + n then src (i - k) else g i

section

variable {g g' : Nat → α} {k n i : Nat} {src src' : Nat → α}

theorem patch_of_lt (h : i < k) : patch g k n src i = g i := if_neg (by omega)

theorem patch_of_ge (h : k + n ≤ i) : patch g k n src i = g i := if_neg (by omega)

theorem patch_add (h : i < n) : patch g k n src (k + i) = src i := by
  rw [patch, if_pos (by omega), Nat.add_sub_cancel_left]

/-- A patch moved by `c`. -/
theorem patch_shift (c : Nat) :
    patch g (c + k) n src (c + i) = patch (fun j => g (c + j)) k n src i := by
  by_cases h : k ≤ i ∧ i < k + n
  · rw [patch, patch, if_pos (by omega), if_pos h]
    congr 1
    omega
  · rw [patch, patch, if_neg (by omega), if_neg h]

theorem patch_congr (old : g i = g' i) (new : ∀ j, j < n → src j = src' j) :
    patch g k n src i = patch g' k n src' i := by
  unfold patch
  split
  next h => exact new _ (by omega)
  next => exact old

end

/-! ## Pieces -/

/-- `size` values for the points from `offset` on. -/
structure Piece (α : Type*) where
  offset : Nat
  size : Nat
  value : Nat → α

/-- The value of a piece at a point that it covers. -/
def Piece.at (p : Piece α) (i : Nat) : α := p.value (i - p.offset)

def Piece.Covers (p : Piece α) (i : Nat) : Prop := p.offset ≤ i ∧ i < p.offset + p.size

/-- Overwrite one piece after the other, from `base` on. -/
def lay (base : Nat) (g : Nat → α) (ps : List (Piece α)) : Nat → α :=
  ps.foldl (fun g p => patch g (base + p.offset) p.size p.value) g

variable {g : Nat → α} {base i : Nat} {ps : List (Piece α)} {p : Piece α}

@[simp] theorem lay_nil : lay base g [] = g := rfl

theorem lay_concat : lay base g (ps ++ [p]) =
    patch (lay base g ps) (base + p.offset) p.size p.value := by
  rw [lay, List.foldl_append, List.foldl_cons, List.foldl_nil, lay]

/-- What stands before the pieces stays. -/
theorem lay_of_lt (h : i < base) : lay base g ps i = g i := by
  induction ps using List.reverseRecOn with
  | nil => rfl
  | append_singleton ps p ih => rw [lay_concat, patch_of_lt (by omega), ih]

/-- A covered point, when the pieces that cover it agree on its value. -/
theorem lay_of_covered {x : α} (covered : ∃ p ∈ ps, p.Covers i)
    (agree : ∀ p ∈ ps, p.Covers i → p.at i = x) : lay base g ps (base + i) = x := by
  induction ps using List.reverseRecOn with
  | nil =>
      obtain ⟨p, hp, -⟩ := covered
      cases hp
  | append_singleton ps q ih =>
      rw [lay_concat]
      by_cases h : q.Covers i
      · have hvalue := agree q (by simp) h
        rw [patch, if_pos (by unfold Piece.Covers at h; omega), ← hvalue, Piece.at]
        congr 1
        omega
      · rw [patch, if_neg (by unfold Piece.Covers at h; omega)]
        obtain ⟨p, hp, hcover⟩ := covered
        rw [List.mem_append, List.mem_singleton] at hp
        obtain hp | rfl := hp
        · exact ih ⟨p, hp, hcover⟩ fun r hr => agree r (List.mem_append_left _ hr)
        · exact absurd hcover h

end Patch
