import Tapplet.Lib.Dict

/-!
# Dictionaries in dictionaries

Values some of which are dictionaries of values again, and their parts, which are named by paths
of keys. Replacing the part at a path makes a value that has the new part there and what it had
before at every path beside it. Two values are the same when they have the same parts, in
whatever order the dictionaries list them.
-/

/-- A type of values with the dictionaries among them. -/
class Nested (κ : outParam Type*) (ν : Type*) where
  entries : ν → Option (Dict κ ν)
  node : Dict κ ν → ν
  entries_node (d : Dict κ ν) : entries (node d) = some d

namespace Nested

variable {κ ν : Type*} [Nested κ ν]

/-- A value in a dictionary for each key of a path. -/
def nest (p : List κ) (y : ν) : ν := p.foldr (fun k x => node [(k, x)]) y

@[simp] theorem nest_nil (y : ν) : nest ([] : List κ) y = y := rfl

@[simp] theorem nest_cons (k : κ) (p : List κ) (y : ν) :
    nest (k :: p) y = node [(k, nest p y)] := rfl

/-- What a value is apart from the entries of a dictionary. -/
def leaf? (x : ν) : Option ν := if (entries x).isSome then none else some x

theorem leaf?_node (d : Dict κ ν) : leaf? (node d) = none := by
  rw [leaf?, entries_node]
  rfl

variable [DecidableEq κ]

/-- The part at a path. -/
def at? : ν → List κ → Option ν
  | x, [] => some x
  | x, k :: p => (entries x).bind fun d => (d.get? k).bind fun y => at? y p

/-- The value with `y` at a path. Dictionaries that are missing on the way are made. -/
def replaceAt : ν → List κ → ν → ν
  | _, [], y => y
  | x, k :: p, y =>
      match entries x with
      | none => nest (k :: p) y
      | some d => node (d.set k (((d.get? k).map fun old => replaceAt old p y).getD (nest p y)))

/-- The values are the same at a path, apart from what is in a dictionary there. -/
def SameAt (a b : ν) (q : List κ) : Prop := (at? a q).map leaf? = (at? b q).map leaf?

/-- The values have the same parts. -/
def Same (a b : ν) : Prop := ∀ q, SameAt a b q

variable {a b c x y old : ν} {d : Dict κ ν} {k : κ} {p q r : List κ}

@[simp] theorem at?_nil : at? x ([] : List κ) = some x := rfl

theorem at?_cons (h : entries x = some d) : at? x (k :: p) = (d.get? k).bind fun y => at? y p := by
  rw [at?, h]
  rfl

theorem at?_cons_leaf (h : entries x = none) : at? x (k :: p) = none := by
  rw [at?, h]
  rfl

@[simp] theorem at?_node : at? (node d) (k :: p) = (d.get? k).bind fun y => at? y p :=
  at?_cons (entries_node d)

/-- The part of a part. -/
theorem at?_append (p q : List κ) : at? x (p ++ q) = (at? x p).bind fun y => at? y q := by
  induction p generalizing x with
  | nil => rfl
  | cons k p ih =>
    rw [List.cons_append]
    cases h : entries x with
    | none => rw [at?_cons_leaf h, at?_cons_leaf h, Option.bind_none]
    | some d =>
      rw [at?_cons h, at?_cons h]
      cases d.get? k with
      | none => rfl
      | some y => exact ih

namespace Same

theorem refl (a : ν) : Same a a := fun _ => rfl

theorem symm (h : Same a b) : Same b a := fun q => (h q).symm

theorem trans (h : Same a b) (h' : Same b c) : Same a c := fun q => (h q).trans (h' q)

end Same

/-! ## Replacing a part -/

theorem replaceAt_cons (h : entries x = some d) : replaceAt x (k :: p) y =
    node (d.set k (((d.get? k).map fun old => replaceAt old p y).getD (nest p y))) := by
  rw [replaceAt, h]

theorem replaceAt_cons_leaf (h : entries x = none) : replaceAt x (k :: p) y = nest (k :: p) y := by
  rw [replaceAt, h]

/-- The new value and its parts. -/
theorem at?_nest (p r : List κ) : at? (nest p y) (p ++ r) = at? y r := by
  induction p with
  | nil => rfl
  | cons k p ih =>
    rw [List.cons_append, nest_cons, at?_node, Dict.get?, if_pos rfl]
    exact ih

theorem at?_replaceAt_append (p r : List κ) : at? (replaceAt x p y) (p ++ r) = at? y r := by
  induction p generalizing x with
  | nil => rfl
  | cons k p ih =>
    cases h : entries x with
    | none => rw [replaceAt_cons_leaf h, at?_nest]
    | some d =>
      rw [List.cons_append, replaceAt_cons h, at?_node, Dict.get?_set_self, Option.bind_some]
      cases d.get? k with
      | none => exact at?_nest p r
      | some old => exact ih

/-- Above the replaced part there are dictionaries. -/
theorem at?_nest_above (hqp : q <+: p) (hne : q ≠ p) : ∃ d, at? (nest p y) q = some (node d) := by
  induction p generalizing q with
  | nil => exact absurd (List.prefix_nil.mp hqp) hne
  | cons k p ih =>
    cases q with
    | nil => exact ⟨_, rfl⟩
    | cons j q =>
      obtain ⟨rfl, hrest⟩ := List.cons_prefix_cons.mp hqp
      rw [nest_cons, at?_node, Dict.get?, if_pos rfl]
      exact ih hrest fun h => hne (congrArg _ h)

theorem at?_replaceAt_above (hqp : q <+: p) (hne : q ≠ p) :
    ∃ d, at? (replaceAt x p y) q = some (node d) := by
  induction p generalizing x q with
  | nil => exact absurd (List.prefix_nil.mp hqp) hne
  | cons k p ih =>
    cases h : entries x with
    | none =>
      rw [replaceAt_cons_leaf h]
      exact at?_nest_above hqp hne
    | some d =>
      rw [replaceAt_cons h]
      cases q with
      | nil => exact ⟨_, rfl⟩
      | cons j q =>
        obtain ⟨rfl, hrest⟩ := List.cons_prefix_cons.mp hqp
        have hrest' : q ≠ p := fun h => hne (congrArg _ h)
        rw [at?_node, Dict.get?_set_self, Option.bind_some]
        cases d.get? j with
        | none => exact at?_nest_above hrest hrest'
        | some old => exact ih hrest hrest'

/-- Beside the replaced part nothing changes. -/
theorem at?_nest_apart (hpq : ¬p <+: q) (hqp : ¬q <+: p) : at? (nest p y) q = none := by
  induction p generalizing q with
  | nil => exact absurd List.nil_prefix hpq
  | cons k p ih =>
    cases q with
    | nil => exact absurd List.nil_prefix hqp
    | cons j q =>
      rw [nest_cons, at?_node, Dict.get?]
      by_cases h : k = j
      · subst h
        rw [if_pos rfl]
        exact ih (fun h => hpq (List.cons_prefix_cons.mpr ⟨rfl, h⟩))
          fun h => hqp (List.cons_prefix_cons.mpr ⟨rfl, h⟩)
      · rw [if_neg h]
        rfl

theorem at?_replaceAt_apart (hpq : ¬p <+: q) (hqp : ¬q <+: p) :
    at? (replaceAt x p y) q = at? x q := by
  induction p generalizing x q with
  | nil => exact absurd List.nil_prefix hpq
  | cons k p ih =>
    cases q with
    | nil => exact absurd List.nil_prefix hqp
    | cons j q =>
      cases h : entries x with
      | none =>
        rw [replaceAt_cons_leaf h, at?_cons_leaf h]
        exact at?_nest_apart hpq hqp
      | some d =>
        rw [replaceAt_cons h, at?_node, at?_cons h]
        by_cases hk : k = j
        · subst hk
          have hpq : ¬p <+: q := fun h => hpq (List.cons_prefix_cons.mpr ⟨rfl, h⟩)
          have hqp : ¬q <+: p := fun h => hqp (List.cons_prefix_cons.mpr ⟨rfl, h⟩)
          rw [Dict.get?_set_self, Option.bind_some]
          cases d.get? k with
          | none => exact at?_nest_apart hpq hqp
          | some old => exact ih hpq hqp
        · rw [Dict.get?_set_of_ne hk]

/-- Two replacements at one path are the same exactly when what is put there and what is beside
it are. -/
theorem same_replaceAt_iff {q₀ : List κ → Prop} (below : ∀ r, q₀ (p ++ r)) :
    (∀ q, q₀ q → SameAt (replaceAt a p x) (replaceAt b p y) q) ↔
      Same x y ∧ ∀ q, q₀ q → ¬p <+: q → ¬q <+: p → SameAt a b q := by
  constructor
  · intro h
    refine ⟨fun r => ?_, fun q hq hpq hqp => ?_⟩
    · have hr := h (p ++ r) (below r)
      rwa [SameAt, at?_replaceAt_append, at?_replaceAt_append] at hr
    · have hsame := h q hq
      rwa [SameAt, at?_replaceAt_apart hpq hqp, at?_replaceAt_apart hpq hqp] at hsame
  · rintro ⟨hxy, hab⟩ q hq
    by_cases hpq : p <+: q
    · obtain ⟨r, rfl⟩ := hpq
      rw [SameAt, at?_replaceAt_append, at?_replaceAt_append]
      exact hxy r
    · by_cases hqp : q <+: p
      · have hne : q ≠ p := fun h => hpq (h ▸ List.prefix_refl q)
        obtain ⟨d, hd⟩ := @at?_replaceAt_above κ ν _ _ a x p q hqp hne
        obtain ⟨e, he⟩ := @at?_replaceAt_above κ ν _ _ b y p q hqp hne
        rw [SameAt, hd, he, Option.map_some, Option.map_some, leaf?_node, leaf?_node]
      · rw [SameAt, at?_replaceAt_apart hpq hqp, at?_replaceAt_apart hpq hqp]
        exact hab q hq hpq hqp

end Nested
