import Mathlib.Data.List.Basic
import Mathlib.Tactic.Common

/-!
# Memory in front of and behind a place

The contents of a memory by the distance from a place in it, which may be negative. `load` reads
a range and `store` writes one.
-/

namespace Memory

variable {α : Type*}

/-- The `n` values from `a` on. -/
def load (m : Int → α) (a : Int) (n : Nat) : List α := (List.range n).map fun (i : Nat) => m (a + i)

/-- The memory with `xs` from `a` on. -/
def store (m : Int → α) (a : Int) (xs : List α) : Int → α := fun i =>
  if a ≤ i then (xs[(i - a).toNat]?).getD (m i) else m i

variable {m m' : Int → α} {a b i : Int} {n k : Nat} {xs : List α}

@[simp] theorem length_load : (load m a n).length = n := by
  rw [load, List.length_map, List.length_range]

theorem getElem?_load (h : k < n) : (load m a n)[k]? = some (m (a + k)) := by
  rw [load, List.getElem?_map, List.getElem?_range h]
  rfl

theorem load_congr (h : ∀ i, a ≤ i → i < a + n → m i = m' i) : load m a n = load m' a n := by
  apply List.map_congr_left
  intro j hj
  have hj := List.mem_range.mp hj
  exact h _ (by omega) (by omega)

/-- A range is what its two parts are. -/
theorem load_add : load m a (k + n) = load m a k ++ load m (a + k) n := by
  rw [load, load, load, List.range_add, List.map_append, List.map_map]
  congr 1
  apply List.map_congr_left
  intro j _
  show m (a + ((k + j : Nat) : Int)) = m (a + k + j)
  congr 1
  omega

theorem store_of_lt (h : i < a) : store m a xs i = m i := if_neg (by omega)

theorem store_of_ge (h : a + xs.length ≤ i) : store m a xs i = m i := by
  rw [store, if_pos (by omega), List.getElem?_eq_none (by omega), Option.getD_none]

theorem store_add (h : k < xs.length) : store m a xs (a + k) = xs[k] := by
  have hk : (a + k - a).toNat = k := by omega
  rw [store, if_pos (by omega), hk, List.getElem?_eq_getElem h, Option.getD_some]

theorem store_self {x : α} : store m a (x :: xs) a = x := by
  rw [store, if_pos (Int.le_refl a), Int.sub_self]
  rfl

/-- What was written is read. -/
theorem load_store : load (store m a xs) a xs.length = xs := by
  apply List.ext_getElem?
  intro k
  by_cases h : k < xs.length
  · rw [getElem?_load h, store_add h, List.getElem?_eq_getElem h]
  · rw [List.getElem?_eq_none (by rw [length_load]; omega), List.getElem?_eq_none (by omega)]

/-- What lies beside a written range is read as before. -/
theorem load_store_of_disjoint (h : a + n ≤ b ∨ b + xs.length ≤ a) :
    load (store m b xs) a n = load m a n := by
  apply load_congr
  intro i hi hin
  obtain h | h := h
  · exact store_of_lt (by omega)
  · exact store_of_ge (by omega)

/-- A range with something written in front of it. -/
theorem load_store_append (h : b + xs.length = a) :
    load (store m b xs) b (xs.length + n) = xs ++ load m a n := by
  rw [load_add, load_store, h, load_store_of_disjoint (.inr (by omega))]

end Memory
