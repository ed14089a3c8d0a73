import Mathlib.Data.List.Nodup
import Mathlib.Data.List.Pairwise
import Mathlib.Data.List.Perm.Basic
import Mathlib.Data.List.Count
import Mathlib.Tactic.Common

/-!
# Counting which place an item is in

Items live in an indexed family of places, each a list of items. A conservation law
says that the places together hold exactly the items there are, as multisets. Such a
law is kept by moving items between places, and `count_flatMap_exchange` is the
accounting rule for a change of one place. `Nodup` of the whole says that no item is
in two places, and the disjointness lemmas read that off.
-/

namespace Ledger

variable {ι α : Type*}

/-- Changing the place `i` only changes the total by the difference at `i`. -/
theorem count_flatMap_exchange [DecidableEq ι] [DecidableEq α] {f g : ι → List α} {is : List ι}
    {i : ι} (hnodup : is.Nodup) (hi : i ∈ is) (same : ∀ j ∈ is, j ≠ i → g j = f j) (x : α) :
    (is.flatMap g).count x + (f i).count x = (is.flatMap f).count x + (g i).count x := by
  induction is with
  | nil => simp at hi
  | cons j is ih =>
      obtain ⟨hj, hnodup⟩ := List.nodup_cons.mp hnodup
      simp only [List.flatMap_cons, List.count_append]
      rcases List.mem_cons.mp hi with rfl | hi
      · have hrest : is.flatMap g = is.flatMap f := by
          refine List.flatMap_congr fun j hj' => same j (by simp [hj']) ?_
          rintro rfl
          exact hj hj'
        rw [hrest]
        omega
      · have hne : j ≠ i := by
          rintro rfl
          exact hj hi
        have hrest := ih hnodup hi fun k hk => same k (by simp [hk])
        rw [same j (by simp) hne]
        omega

/-- The total over the places does not change when no place does. -/
theorem flatMap_congr_of {f g : ι → List α} {is : List ι} (same : ∀ j ∈ is, g j = f j) :
    is.flatMap g = is.flatMap f :=
  List.flatMap_congr same

/-- In a family without repetition, an item is in one place only. -/
theorem place_unique {f : ι → List α} {is : List ι} (h : (is.flatMap f).Nodup) {i j : ι}
    (hi : i ∈ is) (hj : j ∈ is) {x : α} (hxi : x ∈ f i) (hxj : x ∈ f j) : i = j := by
  have hsymm : Std.Symm fun a b => List.Disjoint (f a) (f b) := ⟨fun _ _ hd x hb ha => hd ha hb⟩
  by_contra hne
  exact (List.nodup_flatMap.mp h).2.forall hi hj hne hxi hxj

theorem place_nodup {f : ι → List α} {is : List ι} (h : (is.flatMap f).Nodup) {i : ι}
    (hi : i ∈ is) : (f i).Nodup :=
  (List.nodup_flatMap.mp h).1 i hi

end Ledger
