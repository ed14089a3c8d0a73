import Mathlib.Data.List.Basic
import Mathlib.Tactic.Common
import Mathlib.Algebra.GroupWithZero.Nat

/-!
# Ordered forests

A forest by its first tree: the label of the root, the forest of its children and the
forest of the siblings behind it, which is how linked structures store trees. `preorder`
lists the labels of a forest, each root before its children and its siblings, with a mark
that tells the inner nodes from the leaves.
-/

inductive Forest (α : Type*) where
  | nil
  | cons (label : α) (kids rest : Forest α)

namespace Forest

variable {α β : Type*}

def size : Forest α → Nat
  | nil => 0
  | cons _ kids rest => 1 + size kids + size rest

def isNil : Forest α → Bool
  | nil => true
  | cons .. => false

/-- Each label with `inner` or `leaf`, in preorder. -/
def preorder (leaf inner : β) : Forest α → List (α × β)
  | nil => []
  | cons label kids rest =>
      (label, if kids.isNil then leaf else inner) ::
        (preorder leaf inner kids ++ preorder leaf inner rest)

/-- The labels in preorder. -/
def labels : Forest α → List α
  | nil => []
  | cons label kids rest => label :: (labels kids ++ labels rest)

@[simp] theorem preorder_length (leaf inner : β) (f : Forest α) :
    (preorder leaf inner f).length = f.size := by
  induction f with
  | nil => rfl
  | cons label kids rest ihk ihr =>
      simp only [preorder, size, List.length_cons, List.length_append, ihk, ihr]
      omega

@[simp] theorem preorder_map_fst (leaf inner : β) (f : Forest α) :
    (preorder leaf inner f).map Prod.fst = f.labels := by
  induction f with
  | nil => rfl
  | cons label kids rest ihk ihr => simp [preorder, labels, ihk, ihr]

theorem size_pos {f : Forest α} (h : f ≠ nil) : 0 < f.size := by
  cases f with
  | nil => exact (h rfl).elim
  | cons label kids rest =>
      rw [size]
      omega

/-- A row of leaves. -/
def leaves : List α → Forest α
  | [] => nil
  | x :: xs => cons x nil (leaves xs)

@[simp] theorem leaves_size (xs : List α) : (leaves xs).size = xs.length := by
  induction xs with
  | nil => rfl
  | cons x xs ih =>
      simp only [leaves, size, ih, List.length_cons]
      omega

@[simp] theorem leaves_labels (xs : List α) : (leaves xs).labels = xs := by
  induction xs with
  | nil => rfl
  | cons x xs ih => simp [leaves, labels, ih]

/-- One tree with the forest `kids` of children. -/
def tree (label : α) (kids : Forest α) : Forest α := cons label kids nil

/-- The trees of pending forests, each forest from the position behind the previous one:
`pos` is where the first label of the first forest stands. -/
def Placed (read : Nat → α) : Nat → List (Forest α) → Prop
  | _, [] => True
  | _, nil :: _ => False
  | pos, cons label kids rest :: fs =>
      read pos = label ∧ Placed read (pos + size (cons label kids rest)) fs

/-- Placement only depends on the positions from `pos` on. -/
theorem Placed.congr {read read' : Nat → α} {pos : Nat} {fs : List (Forest α)}
    (h : Placed read pos fs) (same : ∀ i, pos ≤ i → read' i = read i) : Placed read' pos fs := by
  induction fs generalizing pos with
  | nil => trivial
  | cons f fs ih =>
      cases f with
      | nil => exact h
      | cons label kids rest =>
          refine ⟨(same pos (Nat.le_refl pos)).trans h.1, ih h.2 fun i hi => same i ?_⟩
          omega

/-! ## Visiting -/

/-- The label of the first tree. -/
def head : Forest α → Option α
  | nil => none
  | cons label _ _ => some label

/-- The forests that still have a tree. -/
def pending (f : Forest α) : List (Forest α) := if f.isNil then [] else [f]

@[simp] theorem pending_nil : pending (nil : Forest α) = [] := rfl

@[simp] theorem pending_cons (label : α) (kids rest : Forest α) :
    pending (cons label kids rest) = [cons label kids rest] := rfl

theorem flatMap_pending (leaf inner : β) (f : Forest α) :
    (pending f).flatMap (preorder leaf inner) = preorder leaf inner f := by
  cases f with
  | nil => rfl
  | cons label kids rest => simp

theorem sum_pending (f : Forest α) : ((pending f).map size).sum = f.size := by
  cases f with
  | nil => rfl
  | cons label kids rest => simp

/-- The size of a row of which the first label is taken. -/
theorem sum_size_cons (label : α) (kids rest : Forest α) (fs : List (Forest α)) :
    ((cons label kids rest :: fs).map size).sum =
      1 + kids.size + rest.size + (fs.map size).sum := by
  simp [size]

theorem sum_size_pending (kids rest : Forest α) (fs : List (Forest α)) :
    ((pending kids ++ pending rest ++ fs).map size).sum =
      kids.size + rest.size + (fs.map size).sum := by
  simp only [List.map_append, List.sum_append, sum_pending]

theorem mem_pending {f g : Forest α} (h : g ∈ pending f) : g = f ∧ f ≠ nil := by
  cases f with
  | nil => exact absurd h (by simp)
  | cons label kids rest =>
      rw [pending_cons, List.mem_singleton] at h
      exact ⟨h, by rintro ⟨⟩⟩

/-- Placed forests are not empty, so only an empty row has no label. -/
theorem Placed.eq_nil {read : Nat → α} {pos : Nat} {fs : List (Forest α)}
    (h : Placed read pos fs) (hsum : (fs.map size).sum = 0) : fs = [] := by
  cases fs with
  | nil => rfl
  | cons f fs =>
      cases f with
      | nil => exact h.elim
      | cons label kids rest =>
          simp only [List.map_cons, List.sum_cons, size] at hsum
          omega

/-- Visiting the first label leaves its children and its siblings, once these have been put
in front of their subtrees. -/
theorem Placed.visit {read read' : Nat → α} {pos : Nat} {label : α} {kids rest : Forest α}
    {fs : List (Forest α)} (h : Placed read pos (cons label kids rest :: fs))
    (hkids : ∀ k ∈ kids.head, read' (pos + 1) = k)
    (hrest : ∀ r ∈ rest.head, read' (pos + 1 + kids.size) = r)
    (same : ∀ i, pos + 1 + kids.size + rest.size ≤ i → read' i = read i) :
    Placed read' (pos + 1) (pending kids ++ pending rest ++ fs) := by
  have htail : Placed read' (pos + 1 + kids.size + rest.size) fs := by
    have h' := h.2
    rw [size, ← Nat.add_assoc, ← Nat.add_assoc] at h'
    exact h'.congr same
  have hboth : Placed read' (pos + 1 + kids.size) (pending rest ++ fs) := by
    cases rest with
    | nil => exact htail
    | cons r rkids rrest => exact ⟨hrest r rfl, htail⟩
  cases kids with
  | nil => exact hboth
  | cons k kkids krest => exact ⟨hkids k rfl, hboth⟩

/-- Where the first labels of placed forests stand. -/
def starts : Nat → List (Forest α) → List Nat
  | _, [] => []
  | pos, f :: fs => pos :: starts (pos + f.size) fs

/-- After a visit the forests start behind the label, behind its subtree, and where they did. -/
theorem mem_starts_visit {pos i : Nat} {kids rest : Forest α} {fs : List (Forest α)}
    (h : i ∈ starts (pos + 1) (pending kids ++ pending rest ++ fs)) :
    i = pos + 1 ∧ kids ≠ nil ∨ i = pos + 1 + kids.size ∧ rest ≠ nil ∨
      i ∈ starts (pos + (1 + kids.size + rest.size)) fs := by
  have hrest : ∀ p, i ∈ starts p (pending rest ++ fs) →
      i = p ∧ rest ≠ nil ∨ i ∈ starts (p + rest.size) fs := by
    intro p hp
    cases rest with
    | nil => exact .inr hp
    | cons r rkids rrest =>
      rcases List.mem_cons.mp hp with hi | hi
      · exact .inl ⟨hi, nofun⟩
      · exact .inr hi
  have hsum : pos + 1 + kids.size + rest.size = pos + (1 + kids.size + rest.size) := by omega
  rw [← hsum]
  cases kids with
  | nil => exact .inr (hrest _ h)
  | cons k kkids krest =>
    rcases List.mem_cons.mp h with hi | hi
    · exact .inl ⟨hi, nofun⟩
    · exact .inr (hrest _ hi)

end Forest
