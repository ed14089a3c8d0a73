import Mathlib.Algebra.BigOperators.Group.List.Basic
import Mathlib.Algebra.GroupWithZero.Nat
import Mathlib.Data.List.Nodup
import Mathlib.Logic.Function.Basic
import Mathlib.Tactic.Common

/-!
# Scattering and gathering

A sequence is cut into parts, and each part is written to a range of one of several memories.
Reading the ranges in the same order gives the sequence back, if no memory is used twice.
-/

namespace Scatter

/-- A range of the memory `key`. -/
structure Slot (κ : Type) where
  key : κ
  start : Nat
  length : Nat

variable {κ β : Type}

/-- The position lies in the range. -/
def Slot.Covers (p : Slot κ) (key : κ) (i : Nat) : Prop :=
  p.key = key ∧ p.start ≤ i ∧ i < p.start + p.length

/-- The length of what is cut into these parts. -/
def total (parts : List (Slot κ)) : Nat := (parts.map Slot.length).sum

@[simp] theorem total_nil : total ([] : List (Slot κ)) = 0 := rfl

@[simp] theorem total_cons (p : Slot κ) (ps : List (Slot κ)) :
    total (p :: ps) = p.length + total ps := rfl

/-- The range goes to `dst`, from the position `o` on. -/
def paste (mem : κ → Nat → β) (p : Slot κ) (dst : Nat → β) (o : Nat) : Nat → β := fun i =>
  if o ≤ i ∧ i < o + p.length then mem p.key (p.start + (i - o)) else dst i

def gather (mem : κ → Nat → β) : List (Slot κ) → (Nat → β) → Nat → Nat → β
  | [], dst, _ => dst
  | p :: ps, dst, o => gather mem ps (paste mem p dst o) (o + p.length)

/-- What is in front of the position stays. -/
theorem gather_of_lt {mem : κ → Nat → β} {parts : List (Slot κ)} {dst : Nat → β} {o i : Nat}
    (h : i < o) : gather mem parts dst o i = dst i := by
  induction parts generalizing dst o with
  | nil => rfl
  | cons p ps ih =>
      rw [gather, ih (Nat.lt_of_lt_of_le h (Nat.le_add_right _ _)), paste,
        if_neg fun hrange => absurd hrange.1 (Nat.not_le_of_lt h)]

variable [DecidableEq κ]

/-- The first values of `src` go to the range. -/
def write (mem : κ → Nat → β) (p : Slot κ) (src : Nat → β) : κ → Nat → β :=
  Function.update mem p.key fun i =>
    if p.start ≤ i ∧ i < p.start + p.length then src (i - p.start) else mem p.key i

def scatter (mem : κ → Nat → β) : List (Slot κ) → (Nat → β) → κ → Nat → β
  | [], _ => mem
  | p :: ps, src => scatter (write mem p src) ps fun i => src (p.length + i)

theorem write_of_not_covers {mem : κ → Nat → β} {p : Slot κ} {src : Nat → β} {key : κ} {i : Nat}
    (h : ¬ p.Covers key i) : write mem p src key i = mem key i := by
  rw [write]
  by_cases hkey : p.key = key
  · subst hkey
    rw [Function.update_self, if_neg fun hrange => h ⟨rfl, hrange⟩]
  · rw [Function.update_of_ne (Ne.symm hkey)]

theorem write_of_lt {mem : κ → Nat → β} {p : Slot κ} {src : Nat → β} {i : Nat}
    (h : i < p.length) : write mem p src p.key (p.start + i) = src i := by
  rw [write, Function.update_self, if_pos ⟨Nat.le_add_right _ _, Nat.add_lt_add_left h _⟩,
    Nat.add_sub_cancel_left]

/-- Nothing is written outside the ranges. -/
theorem scatter_of_not_covers {mem : κ → Nat → β} {parts : List (Slot κ)} {src : Nat → β}
    {key : κ} {i : Nat} (h : ∀ p ∈ parts, ¬ p.Covers key i) :
    scatter mem parts src key i = mem key i := by
  induction parts generalizing mem src with
  | nil => rfl
  | cons p ps ih =>
      obtain ⟨hp, hps⟩ := List.forall_mem_cons.mp h
      rw [scatter, ih hps, write_of_not_covers hp]

/-- Gathering what has been scattered over different memories. -/
theorem gather_scatter {mem : κ → Nat → β} {parts : List (Slot κ)} {src dst : Nat → β} {o i : Nat}
    (hkeys : (parts.map Slot.key).Nodup) (hi : i < total parts) :
    gather (scatter mem parts src) parts dst o (o + i) = src i := by
  induction parts generalizing mem src dst o i with
  | nil => exact absurd hi (Nat.not_lt_zero _)
  | cons p ps ih =>
      rw [List.map_cons, List.nodup_cons] at hkeys
      rw [scatter, gather]
      by_cases hfirst : i < p.length
      · have hother : ∀ q ∈ ps, ¬ q.Covers p.key (p.start + i) := by
          intro q hq hcovers
          exact hkeys.1 (hcovers.1 ▸ List.mem_map_of_mem hq)
        rw [gather_of_lt (Nat.add_lt_add_left hfirst o), paste,
          if_pos ⟨Nat.le_add_right _ _, Nat.add_lt_add_left hfirst o⟩, Nat.add_sub_cancel_left,
          scatter_of_not_covers hother, write_of_lt hfirst]
      · obtain ⟨j, rfl⟩ := Nat.exists_eq_add_of_le (Nat.le_of_not_lt hfirst)
        rw [total_cons] at hi
        rw [← Nat.add_assoc, ih hkeys.2 (Nat.lt_of_add_lt_add_left hi)]

end Scatter
