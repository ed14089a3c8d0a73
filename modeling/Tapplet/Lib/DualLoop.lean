import Mathlib.Tactic.Common

/-!
# Loops that take two items at a time

A loop over a sequence of items is often written twice, once for two items in a round and once
for one. Which of the two bodies takes an item depends on how much room there is. Where the body
for two items does what the body for one does to each of them, the results do not depend on it.
-/

namespace DualLoop

variable {σ α β : Type*}

/-- The body for one item, taken for every item. -/
def singles (one : σ → α → σ × β) (s : σ) : List α → σ × List β
  | [] => (s, [])
  | a :: as =>
      let r := one s a
      let rest := singles one r.1 as
      (rest.1, r.2 :: rest.2)

/-- Both bodies, in any order. The body for two items is taken only while `more` items are left
behind them. -/
inductive Loops (one : σ → α → σ × β) (two : σ → α → α → σ × β × β) (more : Nat) :
    σ → List α → σ → List β → Prop where
  | done (s) : Loops one two more s [] s []
  | one {s a as t bs} : Loops one two more (one s a).1 as t bs →
      Loops one two more s (a :: as) t ((one s a).2 :: bs)
  | two {s a b as t bs} : more ≤ as.length → Loops one two more (two s a b).1 as t bs →
      Loops one two more s (a :: b :: as) t ((two s a b).2.1 :: (two s a b).2.2 :: bs)

variable {one : σ → α → σ × β} {two : σ → α → α → σ × β × β} {more : Nat}

/-- The body for two items does what the body for one does to each of them. -/
def Unrolled (one : σ → α → σ × β) (two : σ → α → α → σ × β × β) : Prop :=
  ∀ s a b, two s a b = ((one (one s a).1 b).1, (one s a).2, (one (one s a).1 b).2)

theorem Loops.of_singles (s : σ) (as : List α) :
    Loops one two more s as (singles one s as).1 (singles one s as).2 := by
  induction as generalizing s with
  | nil => exact .done s
  | cons a as ih => exact .one (ih _)

theorem Loops.singles (unrolled : Unrolled one two) {s t : σ} {as : List α} {bs : List β}
    (h : Loops one two more s as t bs) : singles one s as = (t, bs) := by
  induction h with
  | done => rfl
  | one _ ih => rw [DualLoop.singles, ih]
  | two _ _ ih =>
      rw [unrolled] at ih
      rw [DualLoop.singles, DualLoop.singles, ih, unrolled]

/-- The results are those of the body for one item. -/
theorem loops_iff (unrolled : Unrolled one two) {s t : σ} {as : List α} {bs : List β} :
    Loops one two more s as t bs ↔ singles one s as = (t, bs) := by
  constructor
  · exact Loops.singles unrolled
  · intro h
    have hloops : Loops one two more s as _ _ := .of_singles s as
    rwa [h] at hloops

/-- Every result is that of one item in some state. -/
theorem singles_getElem? {s : σ} {as : List α} {k : Nat} {b : β}
    (h : (singles one s as).2[k]? = some b) : ∃ u a, as[k]? = some a ∧ b = (one u a).2 := by
  induction as generalizing s k with
  | nil => cases h
  | cons a as ih =>
      cases k with
      | zero => exact ⟨s, a, rfl, (Option.some.inj h).symm⟩
      | succ k => exact ih h

/-- A body without a state maps the items. -/
theorem singles_map (f : α → β) (as : List α) :
    singles (fun _ a => ((), f a)) () as = ((), as.map f) := by
  induction as with
  | nil => rfl
  | cons a as ih => rw [singles, ih, List.map_cons]

/-- A body that folds its state and maps the items. -/
theorem singles_foldl (g : σ → α → σ) (f : α → β) (s : σ) (as : List α) :
    singles (fun s a => (g s a, f a)) s as = (as.foldl g s, as.map f) := by
  induction as generalizing s with
  | nil => rfl
  | cons a as ih => rw [singles, ih, List.map_cons, List.foldl_cons]

/-- A body that counts the items is one over the items with their numbers. -/
theorem singles_zipIdx (step : σ → α × Nat → σ × β) (s : σ) (i : Nat) (as : List α) :
    singles (fun s a => (((step s.1 (a, s.2)).1, s.2 + 1), (step s.1 (a, s.2)).2)) (s, i) as =
      (((singles step s (as.zipIdx i)).1, i + as.length), (singles step s (as.zipIdx i)).2) := by
  induction as generalizing s i with
  | nil => rfl
  | cons a as ih =>
      rw [singles, ih, List.zipIdx_cons, singles, List.length_cons, Nat.add_assoc, Nat.add_comm 1]

theorem Loops.getElem? (unrolled : Unrolled one two) {s t : σ} {as : List α} {bs : List β} {k : Nat}
    {a : α} {b : β} (h : Loops one two more s as t bs) (ha : as[k]? = some a)
    (hb : bs[k]? = some b) : ∃ u, b = (one u a).2 := by
  have hsingles : bs = (DualLoop.singles one s as).2 := by rw [h.singles unrolled]
  rw [hsingles] at hb
  obtain ⟨u, a', ha', rfl⟩ := singles_getElem? hb
  obtain rfl := Option.some.inj (ha.symm.trans ha')
  exact ⟨u, rfl⟩

end DualLoop
