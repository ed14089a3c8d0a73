import Mathlib.Logic.Function.Basic
import Mathlib.Tactic.Common

/-!
# Code that shares its memory

A thread executes its code one access at a time, and what it reads may have been written by others
in between. `Does body owned racy post c m` says what code `c` does from memory `m` on, as long as
nobody else writes to the locations `owned`: all its accesses are to these locations or to the
locations `racy`, it relies on nothing that it reads in the latter, and it ends, with `post`. What
others do elsewhere leaves this as it is.
-/

namespace Access

universe u

variable {L : Type u} {V : L → Type u} {P R S : Type u}

/-- A piece of code: it accesses one location after the other, and ends with a result, with a
jump or with a fault. -/
inductive Code (V : L → Type u) (P R : Type u) : Type u where
  | ret (r : R)
  | goto (p : P)
  | fault
  | read (l : L) (k : V l → Code V P R)
  | write (l : L) (v : V l) (c : Code V P R)

namespace Code

/-- Code that goes on with the result of the code before it. A jump does not come back. -/
protected def bind : Code V P R → (R → Code V P S) → Code V P S
  | ret r, f => f r
  | goto p, _ => goto p
  | fault, _ => fault
  | read l k, f => read l fun v => (k v).bind f
  | write l v c, f => write l v (c.bind f)

instance : Monad (Code V P) where
  pure := ret
  bind := Code.bind

/-- The contents of a location. -/
def load (l : L) : Code V P (V l) := read l ret

/-- A write to a location. -/
def store (l : L) (v : V l) : Code V P PUnit := write l v (ret ⟨⟩)

@[simp] theorem pure_eq (r : R) : (pure r : Code V P R) = ret r := rfl

@[simp] theorem load_bind (l : L) (f : V l → Code V P S) : (load l >>= f) = read l f := rfl

@[simp] theorem store_bind (l : L) (v : V l) (f : PUnit → Code V P S) :
    (store l v >>= f) = write l v (f ⟨⟩) := rfl

@[simp] theorem ret_bind (r : R) (f : R → Code V P S) : (ret r >>= f) = f r := rfl

@[simp] theorem fault_bind (f : R → Code V P S) : (fault >>= f) = fault := rfl

@[simp] theorem read_bind (l : L) (k : V l → Code V P R) (f : R → Code V P S) :
    (read l k >>= f) = read l fun v => k v >>= f := rfl

@[simp] theorem write_bind (l : L) (v : V l) (c : Code V P R) (f : R → Code V P S) :
    (write l v c >>= f) = write l v (c >>= f) := rfl

/-- One access, or one jump. -/
def next [DecidableEq L] (body : P → Code V P R) :
    Code V P R → (∀ l, V l) → Option (Code V P R × ∀ l, V l)
  | ret _, _ => none
  | goto p, m => some (body p, m)
  | fault, _ => none
  | read l k, m => some (k (m l), m)
  | write l v c, m => some (c, Function.update m l v)

end Code

open Code

/-- What code does while nobody else writes to `owned`. -/
inductive Does [DecidableEq L] (body : P → Code V P R) (owned racy : Set L)
    (post : R → (∀ l, V l) → Prop) : Code V P R → (∀ l, V l) → Prop where
  | ret {r m} : post r m → Does body owned racy post (ret r) m
  | goto {p m} : Does body owned racy post (body p) m → Does body owned racy post (goto p) m
  | read {l k m} : l ∈ owned → Does body owned racy post (k (m l)) m →
      Does body owned racy post (read l k) m
  | guess {l k m} : l ∈ racy → (∀ v, Does body owned racy post (k v) m) →
      Does body owned racy post (read l k) m
  | write {l v c m} : l ∈ owned → Does body owned racy post c (Function.update m l v) →
      Does body owned racy post (write l v c) m
  | scribble {l v c m} : l ∈ racy → Does body owned racy post c m →
      Does body owned racy post (write l v c) m

/-- Two memories agree on the locations. -/
def Agree (owned : Set L) (m m' : ∀ l, V l) : Prop := ∀ l ∈ owned, m' l = m l

/-- The condition is only about the locations. -/
def Local (owned : Set L) (post : R → (∀ l, V l) → Prop) : Prop :=
  ∀ r m m', Agree owned m m' → post r m → post r m'

variable [DecidableEq L] {body : P → Code V P R} {owned racy : Set L}
  {post post' : R → (∀ l, V l) → Prop} {c c' : Code V P R} {m m' : ∀ l, V l}

theorem Agree.update (h : Agree owned m m') (l : L) (v : V l) :
    Agree owned (Function.update m l v) (Function.update m' l v) := by
  intro l' hl'
  by_cases heq : l' = l
  · subst heq
    rw [Function.update_self, Function.update_self]
  · rw [Function.update_of_ne heq, Function.update_of_ne heq]
    exact h l' hl'

theorem agree_update {l : L} (hl : l ∉ owned) (v : V l) :
    Agree owned m (Function.update m l v) := by
  intro l' hl'
  apply Function.update_of_ne
  rintro rfl
  exact hl hl'

namespace Does

/-- What others do elsewhere does not matter. -/
theorem congr (hlocal : Local owned post) (h : Does body owned racy post c m)
    (same : Agree owned m m') : Does body owned racy post c m' := by
  induction h generalizing m' with
  | ret hpost => exact .ret (hlocal _ _ _ same hpost)
  | goto _ ih => exact .goto (ih same)
  | read hl _ ih =>
      apply Does.read hl
      rw [same _ hl]
      exact ih same
  | guess hl _ ih => exact .guess hl fun v => ih v same
  | write hl _ ih => exact .write hl (ih (same.update _ _))
  | scribble hl _ ih => exact .scribble hl (ih same)

theorem mono (h : Does body owned racy post c m) (imp : ∀ r m, post r m → post' r m) :
    Does body owned racy post' c m := by
  induction h with
  | ret hpost => exact .ret (imp _ _ hpost)
  | goto _ ih => exact .goto ih
  | read hl _ ih => exact .read hl ih
  | guess hl _ ih => exact .guess hl ih
  | write hl _ ih => exact .write hl ih
  | scribble hl _ ih => exact .scribble hl ih

/-- The code is at its end, or it goes on, and is done with less. -/
theorem next_or (h : Does body owned racy post c m) :
    (∃ r, c = .ret r ∧ post r m) ∨ ∃ c' m', c.next body m = some (c', m') := by
  cases h with
  | ret hpost => exact .inl ⟨_, rfl, hpost⟩
  | goto _ => exact .inr ⟨_, _, rfl⟩
  | read _ _ => exact .inr ⟨_, _, rfl⟩
  | guess _ _ => exact .inr ⟨_, _, rfl⟩
  | write _ _ => exact .inr ⟨_, _, rfl⟩
  | scribble _ _ => exact .inr ⟨_, _, rfl⟩

theorem of_ret {r : R} (h : Does body owned racy post (.ret r) m) : post r m := by
  cases h with
  | ret hpost => exact hpost

/-- One access: it goes to a location of the code or to a racy one, and the rest is as before. -/
theorem next (h : Does body owned racy post c m) (hlocal : Local owned post)
    (apart : ∀ l ∈ racy, l ∉ owned) (hnext : c.next body m = some (c', m')) :
    Does body owned racy post c' m' ∧ ∀ l, l ∉ owned → l ∉ racy → m' l = m l := by
  cases h with
  | ret _ => cases hnext
  | goto hbody =>
      obtain ⟨rfl, rfl⟩ := Prod.mk.inj (Option.some.inj hnext)
      exact ⟨hbody, fun _ _ _ => rfl⟩
  | read _ hk =>
      obtain ⟨rfl, rfl⟩ := Prod.mk.inj (Option.some.inj hnext)
      exact ⟨hk, fun _ _ _ => rfl⟩
  | guess _ hk =>
      obtain ⟨rfl, rfl⟩ := Prod.mk.inj (Option.some.inj hnext)
      exact ⟨hk _, fun _ _ _ => rfl⟩
  | write hl hc =>
      obtain ⟨rfl, rfl⟩ := Prod.mk.inj (Option.some.inj hnext)
      refine ⟨hc, fun l' hl' _ => Function.update_of_ne ?_ ..⟩
      rintro rfl
      exact hl' hl
  | scribble hl hc =>
      obtain ⟨rfl, rfl⟩ := Prod.mk.inj (Option.some.inj hnext)
      refine ⟨hc.congr hlocal (agree_update (apart _ hl) _), fun l' _ hl' =>
        Function.update_of_ne ?_ ..⟩
      rintro rfl
      exact hl' hl

/-- Code without jumps, and what comes behind it. -/
theorem bind {first : Code V P S} {f : S → Code V P R} {mid : S → (∀ l, V l) → Prop}
    (h : Does (fun _ => .fault) owned racy mid first m)
    (rest : ∀ r m, mid r m → Does body owned racy post (f r) m) :
    Does body owned racy post (first >>= f) m := by
  induction h with
  | ret hmid => exact rest _ _ hmid
  | goto hfault => cases hfault
  | read hl _ ih => exact .read hl ih
  | guess hl _ ih => exact .guess hl ih
  | write hl _ ih => exact .write hl ih
  | scribble hl _ ih => exact .scribble hl ih

end Does

end Access
