import Mathlib.Algebra.Order.Ring.Nat
import Mathlib.Tactic.Ring

/-!
# Big-endian numbers and their leading bits

Bytes and words in network order stand for a number. Two numbers of `w` bits agree on their
first `n` bits when the quotients by `2 ^ (w - n)` are equal. A prefix of a number that is cut
into words is a prefix of each word: whole words as long as they last, the rest of the prefix
in the next word, and nothing of the words after it.
-/

namespace Prefix

/-- The number with these bytes, the most significant one first. -/
def ofBytes : List UInt8 → Nat
  | [] => 0
  | b :: bs => b.toNat * 256 ^ bs.length + ofBytes bs

theorem ofBytes_append (xs ys : List UInt8) :
    ofBytes (xs ++ ys) = ofBytes xs * 256 ^ ys.length + ofBytes ys := by
  induction xs with
  | nil => simp [ofBytes]
  | cons b bs ih =>
      simp only [List.cons_append, ofBytes, List.length_append, ih, pow_add]
      ring

theorem ofBytes_lt (bs : List UInt8) : ofBytes bs < 256 ^ bs.length := by
  induction bs with
  | nil => simp [ofBytes]
  | cons b bs ih =>
      have hb : b.toNat < 256 := b.toNat_lt
      have hle : (b.toNat + 1) * 256 ^ bs.length ≤ 256 * 256 ^ bs.length :=
        Nat.mul_le_mul_right _ hb
      rw [ofBytes, List.length_cons, pow_succ', Nat.add_mul] at *
      omega

@[simp] theorem ofBytes_replicate_zero (n : Nat) : ofBytes (List.replicate n 0) = 0 := by
  induction n with
  | zero => rfl
  | succ n ih => simp [List.replicate_succ, ofBytes, ih]

/-- The number with these words of `w` bits, the most significant one first. -/
def ofWords (w : Nat) : List Nat → Nat
  | [] => 0
  | x :: xs => x * 2 ^ (w * xs.length) + ofWords w xs

theorem ofWords_lt {w : Nat} {xs : List Nat} (h : ∀ x ∈ xs, x < 2 ^ w) :
    ofWords w xs < 2 ^ (w * xs.length) := by
  induction xs with
  | nil => simp [ofWords]
  | cons x xs ih =>
      have hx : x + 1 ≤ 2 ^ w := h x (by simp)
      have hrest := ih fun y hy => h y (by simp [hy])
      have hle : (x + 1) * 2 ^ (w * xs.length) ≤ 2 ^ w * 2 ^ (w * xs.length) :=
        Nat.mul_le_mul_right _ hx
      rw [ofWords, List.length_cons, Nat.mul_succ, pow_add, Nat.mul_comm (2 ^ (w * xs.length))]
      rw [Nat.add_mul] at hle
      omega

/-- The first `n` of `w` bits are the same. -/
def TopAgree (w n x y : Nat) : Prop := x / 2 ^ (w - n) = y / 2 ^ (w - n)

instance (w n x y : Nat) : Decidable (TopAgree w n x y) := inferInstanceAs (Decidable (_ = _))

@[simp] theorem topAgree_self_width {w x y : Nat} : TopAgree w w x y ↔ x = y := by
  simp [TopAgree]

theorem topAgree_zero {w x y : Nat} (hx : x < 2 ^ w) (hy : y < 2 ^ w) : TopAgree w 0 x y := by
  simp [TopAgree, Nat.div_eq_of_lt hx, Nat.div_eq_of_lt hy]

/-- The bits in front of a cut are those of the high part. -/
theorem div_high {u v n xh xl : Nat} (hx : xl < 2 ^ v) (hn : n ≤ u) :
    (xh * 2 ^ v + xl) / 2 ^ (u + v - n) = xh / 2 ^ (u - n) := by
  rw [show u + v - n = v + (u - n) by omega, pow_add, ← Nat.div_div_eq_div_mul,
    Nat.mul_comm xh, Nat.mul_add_div (Nat.two_pow_pos v), Nat.div_eq_of_lt hx, Nat.add_zero]

/-- Past the cut they are the whole high part and the first bits of the low part. -/
theorem div_low {u v n xh xl : Nat} (hn : u ≤ n) (hle : n ≤ u + v) :
    (xh * 2 ^ v + xl) / 2 ^ (u + v - n) = xh * 2 ^ (n - u) + xl / 2 ^ (v - (n - u)) := by
  have hsplit : 2 ^ v = 2 ^ (v - (n - u)) * 2 ^ (n - u) := by
    rw [← pow_add]
    congr 1
    omega
  rw [show u + v - n = v - (n - u) by omega, hsplit, ← Nat.mul_assoc,
    Nat.mul_comm xh, Nat.mul_assoc, Nat.mul_add_div (Nat.two_pow_pos _)]

theorem topAgree_cut {u v n xh xl yh yl : Nat} (hx : xl < 2 ^ v) (hy : yl < 2 ^ v)
    (hn : n ≤ u + v) : TopAgree (u + v) n (xh * 2 ^ v + xl) (yh * 2 ^ v + yl) ↔
      TopAgree u (min n u) xh yh ∧ TopAgree v (n - u) xl yl := by
  rcases Nat.le_total n u with h | h
  · rw [TopAgree, div_high hx h, div_high hy h, Nat.min_eq_left h, Nat.sub_eq_zero_of_le h]
    exact ⟨fun heq => ⟨heq, topAgree_zero hx hy⟩, fun heq => heq.1⟩
  · rw [TopAgree, div_low h hn, div_low h hn, Nat.min_eq_right h, topAgree_self_width]
    have hlow {zl : Nat} (hz : zl < 2 ^ v) : zl / 2 ^ (v - (n - u)) < 2 ^ (n - u) := by
      refine Nat.div_lt_of_lt_mul ?_
      rwa [← pow_add, show v - (n - u) + (n - u) = v by omega]
    constructor
    · intro heq
      have hquot := congrArg (· / 2 ^ (n - u)) heq
      simp only [Nat.mul_comm xh, Nat.mul_comm yh, Nat.mul_add_div (Nat.two_pow_pos _),
        Nat.div_eq_of_lt (hlow hx), Nat.div_eq_of_lt (hlow hy), Nat.add_zero] at hquot
      subst hquot
      exact ⟨rfl, Nat.add_left_cancel heq⟩
    · rintro ⟨rfl, heq⟩
      rw [heq]

/-- Word by word: the first `n` bits of two sequences of words of `w` bits agree. -/
def WordsAgree (w : Nat) : Nat → List Nat → List Nat → Prop
  | n, x :: xs, y :: ys => TopAgree w (min n w) x y ∧ WordsAgree w (n - w) xs ys
  | _, _, _ => True

theorem topAgree_words {w n : Nat} {xs ys : List Nat} (hlen : xs.length = ys.length)
    (hx : ∀ x ∈ xs, x < 2 ^ w) (hy : ∀ y ∈ ys, y < 2 ^ w) (hn : n ≤ w * xs.length) :
    TopAgree (w * xs.length) n (ofWords w xs) (ofWords w ys) ↔ WordsAgree w n xs ys := by
  induction xs generalizing n ys with
  | nil =>
      cases List.length_eq_zero_iff.mp hlen.symm
      simp [WordsAgree, TopAgree]
  | cons x xs ih =>
      cases ys with
      | nil => cases hlen
      | cons y ys =>
          have hlen : xs.length = ys.length := Nat.succ.inj hlen
          have hx' : ∀ x' ∈ xs, x' < 2 ^ w := fun x' hmem => hx x' (by simp [hmem])
          have hy' : ∀ y' ∈ ys, y' < 2 ^ w := fun y' hmem => hy y' (by simp [hmem])
          rw [List.length_cons, Nat.mul_succ] at hn
          rw [List.length_cons, Nat.mul_succ, Nat.add_comm, ofWords, ofWords, ← hlen,
            topAgree_cut (ofWords_lt hx') (hlen ▸ ofWords_lt hy') (by omega),
            ih hlen hx' hy' (by omega), WordsAgree]

end Prefix
