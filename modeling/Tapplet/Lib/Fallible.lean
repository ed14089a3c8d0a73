import Mathlib.Data.List.Forall2
import Mathlib.Tactic.Common

/-!
# Computations that may fail

Steps of which each gives a value or ends the whole computation. A sequence of steps succeeds
exactly when each of them does, and a step that is mapped over a list succeeds exactly when it
succeeds on every element.
-/

namespace Fallible

universe u v

variable {ε : Type u} {α β : Type v}

/-- What came before the end. -/
theorem bind_ok {x : Except ε α} {k : α → Except ε β} {b : β} (h : x >>= k = .ok b) :
    ∃ a, x = .ok a ∧ k a = .ok b := by
  cases x with
  | error e => cases h
  | ok a => exact ⟨a, rfl, h⟩

theorem bind_of_ok {x : Except ε α} {a : α} (h : x = .ok a) (k : α → Except ε β) :
    x >>= k = k a := by
  rw [h]
  rfl

/-- What a step gives is what it gives under another name for its failures. -/
theorem mapError_ok {ε' : Type u} {x : Except ε α} {f : ε → ε'} {a : α} :
    x.mapError f = .ok a ↔ x = .ok a := by
  cases x with
  | error e => exact ⟨nofun, nofun⟩
  | ok b =>
      show Except.ok b = .ok a ↔ _
      exact ⟨fun h => congrArg _ (Except.ok.inj h), fun h => congrArg _ (Except.ok.inj h)⟩

theorem mapM_cons_ok {f : α → Except ε β} {x : α} {xs : List α} {zs : List β} :
    (x :: xs).mapM f = .ok zs ↔ ∃ y ys, f x = .ok y ∧ xs.mapM f = .ok ys ∧ zs = y :: ys := by
  rw [List.mapM_cons]
  constructor
  · intro h
    obtain ⟨y, hy, h⟩ := bind_ok h
    obtain ⟨ys, hys, h⟩ := bind_ok h
    exact ⟨y, ys, hy, hys, (Except.ok.inj h).symm⟩
  · rintro ⟨y, ys, hy, hys, rfl⟩
    exact (bind_of_ok hy _).trans (bind_of_ok hys _)

/-- A step succeeds on a list when it does on each element. -/
theorem mapM_ok {f : α → Except ε β} {xs : List α} {ys : List β} :
    xs.mapM f = .ok ys ↔ List.Forall₂ (fun x y => f x = .ok y) xs ys := by
  induction xs generalizing ys with
  | nil =>
      rw [List.mapM_nil, List.forall₂_nil_left_iff]
      exact ⟨fun h => (Except.ok.inj h).symm, fun h => congrArg _ h.symm⟩
  | cons x xs ih =>
      rw [mapM_cons_ok, List.forall₂_cons_left_iff]
      constructor
      · rintro ⟨y, ys, hy, hys, rfl⟩
        exact ⟨y, ys, hy, ih.mp hys, rfl⟩
      · rintro ⟨y, ys, hy, hys, rfl⟩
        exact ⟨y, ys, hy, ih.mpr hys, rfl⟩

/-- Each result of a step that was mapped is the one of an element. -/
theorem mem_of_mapM_ok {f : α → Except ε β} {xs : List α} {ys : List β} {y : β}
    (h : xs.mapM f = .ok ys) (hy : y ∈ ys) : ∃ x ∈ xs, f x = .ok y := by
  induction xs generalizing ys with
  | nil =>
      obtain rfl : [] = ys := Except.ok.inj h
      cases hy
  | cons x xs ih =>
      obtain ⟨z, zs, hz, hzs, rfl⟩ := mapM_cons_ok.mp h
      obtain rfl | hy := List.mem_cons.mp hy
      · exact ⟨x, List.mem_cons_self, hz⟩
      · obtain ⟨x', hx', hread⟩ := ih hzs hy
        exact ⟨x', List.mem_cons_of_mem _ hx', hread⟩

/-- A step that gives every element its image. -/
theorem mapM_map_ok {γ : Type v} {f : β → Except ε γ} {g : α → β} {h : α → γ} {xs : List α}
    (hstep : ∀ x ∈ xs, f (g x) = .ok (h x)) : (xs.map g).mapM f = .ok (xs.map h) := by
  apply mapM_ok.mpr
  rw [List.forall₂_map_left_iff, List.forall₂_map_right_iff, List.forall₂_same]
  exact hstep

end Fallible
