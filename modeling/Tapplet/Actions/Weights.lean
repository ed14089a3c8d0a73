import Tapplet.Actions.Basic
import Tapplet.Lib.Rotor
import Mathlib.Data.List.GetD
import Mathlib.Data.Nat.ModEq

/-!
# Weights of a load balance

When an action is stored, the greatest common divisor and the maximum of its weights are
computed. A round of the weighted selection has as many rows as the divisor goes into the
maximum, and a member takes part in as many rows as the divisor goes into its weight.
-/

namespace Tapplet.Actions

/-! ## What `put_action_config` computes -/

/-- Euclid's algorithm ends before its second number reaches 0. -/
theorem calcGcdLoop_eq {fuel a b : Nat} (hpos : 0 < b) (hfuel : b ≤ fuel + 1) :
    calcGcdLoop fuel a b = some (Nat.gcd a b : Int) := by
  induction fuel generalizing a b with
  | zero =>
      obtain rfl : b = 1 := by omega
      unfold calcGcdLoop
      rw [if_neg (by decide), ← Int.ofNat_tmod, Nat.mod_one, Nat.gcd_one_right]
      rfl
  | succ fuel ih =>
      unfold calcGcdLoop
      have hb : (b : Int) ≠ 0 := by omega
      rw [if_neg hb, ← Int.ofNat_tmod]
      dsimp only
      by_cases hc : a % b = 0
      · rw [hc, if_pos (show ((0 : Nat) : Int) = 0 from rfl), Nat.gcd_comm,
          Nat.gcd_eq_left (Nat.dvd_of_mod_eq_zero hc)]
      · have hlt := Nat.mod_lt a hpos
        rw [if_neg (by omega), ih (Nat.pos_of_ne_zero hc) (by omega), Nat.gcd_comm b,
          ← Nat.gcd_rec, Nat.gcd_comm]

theorem calcGcd_eq {a b : Nat} (hpos : 0 < b) : calcGcd a b = some (Nat.gcd a b : Int) := by
  rw [calcGcd]
  exact calcGcdLoop_eq hpos (by rw [Int.natAbs_natCast]; omega)

/-- The divisor and the maximum of some weights. -/
def gcdOf (weights : List Nat) : Nat := weights.foldr Nat.gcd 0
def maxOf (weights : List Nat) : Nat := weights.foldr max 0

theorem gcdOf_dvd {weights : List Nat} {w : Nat} (h : w ∈ weights) : gcdOf weights ∣ w := by
  induction weights with
  | nil => cases h
  | cons v weights ih =>
      obtain rfl | h := List.mem_cons.mp h
      · exact Nat.gcd_dvd_left ..
      · exact (Nat.gcd_dvd_right ..).trans (ih h)

theorem gcdOf_pos {weights : List Nat} (hne : weights ≠ []) (hpos : ∀ w ∈ weights, 0 < w) :
    0 < gcdOf weights := by
  obtain ⟨w, rest, rfl⟩ := List.exists_cons_of_ne_nil hne
  exact Nat.gcd_pos_of_pos_left _ (hpos w List.mem_cons_self)

theorem le_maxOf {weights : List Nat} {w : Nat} (h : w ∈ weights) : w ≤ maxOf weights := by
  induction weights with
  | nil => cases h
  | cons v weights ih =>
      obtain rfl | h := List.mem_cons.mp h
      · exact Nat.le_max_left ..
      · exact (ih h).trans (Nat.le_max_right ..)

theorem maxOf_mem {weights : List Nat} (hne : weights ≠ []) : maxOf weights ∈ weights := by
  induction weights with
  | nil => exact absurd rfl hne
  | cons v weights ih =>
      by_cases hnil : weights = []
      · subst hnil
        exact List.mem_singleton.mpr (Nat.max_eq_left (Nat.zero_le v))
      · obtain h | h := Nat.le_total (maxOf weights) v
        · exact List.mem_cons.mpr (.inl (Nat.max_eq_left h))
        · refine List.mem_cons.mpr (.inr ?_)
          show max v (maxOf weights) ∈ weights
          rw [Nat.max_eq_right h]
          exact ih hnil

/-- The loop of `weight_calc_max` over the weights that are left. -/
theorem weightCalcMax_loop {weights : List Nat} (hpos : ∀ w ∈ weights, 0 < w) {g m : Nat}
    (hg : 0 < g) :
    (weights.map fun (w : Nat) => (w : Int)).foldlM (fun (r : Int × Int) w => do
      let gcd ← calcGcd w r.1
      some (gcd, if w > r.2 then w else r.2)) ((g : Int), (m : Int)) =
        some (((Nat.gcd g (gcdOf weights) : Nat) : Int),
          ((max m (maxOf weights) : Nat) : Int)) := by
  induction weights generalizing g m with
  | nil =>
      rw [gcdOf, maxOf, List.foldr_nil, List.foldr_nil, Nat.gcd_zero_right, Nat.max_zero]
      rfl
  | cons w weights ih =>
      obtain ⟨hw, hrest⟩ := List.forall_mem_cons.mp hpos
      have hmax : (if (w : Int) > m then (w : Int) else m) = (max m w : Nat) := by
        split <;> omega
      rw [List.map_cons, List.foldlM_cons]
      dsimp only
      rw [calcGcd_eq hg, hmax]
      show List.foldlM _ (((Nat.gcd w g : Nat) : Int), ((max m w : Nat) : Int)) _ = _
      rw [ih hrest (Nat.gcd_pos_of_pos_left _ hw), Nat.gcd_comm w g, Nat.gcd_assoc, Nat.max_assoc]
      rfl

/-- What is stored with positive weights: their divisor and their maximum. -/
theorem weightCalcMax_eq {weights : List Nat} (hne : weights ≠ []) (hpos : ∀ w ∈ weights, 0 < w)
    (more : List Int) :
    weightCalcMax (weights.map (fun (w : Nat) => (w : Int)) ++ more) weights.length =
      some ((gcdOf weights : Int), (maxOf weights : Int)) := by
  obtain ⟨w, rest, rfl⟩ := List.exists_cons_of_ne_nil hne
  obtain ⟨hw, hrest⟩ := List.forall_mem_cons.mp hpos
  have htake : ((w :: rest).map (fun (w : Nat) => (w : Int)) ++ more).take (w :: rest).length =
      (w :: rest).map fun (w : Nat) => (w : Int) :=
    List.take_left' (List.length_map _)
  rw [weightCalcMax, htake]
  show List.foldlM _ ((w : Int), (w : Int)) (rest.map fun (w : Nat) => (w : Int)) = _
  rw [weightCalcMax_loop hrest hw]
  rfl

/-! ## The turns of a cycle -/

/-- The places of `r` rows of `n`, row by row. -/
theorem countP_rows (f : Nat → Nat → Bool) (n r : Nat) :
    (List.range (n * r)).countP (fun x => f (x / n) (x % n)) =
      ((List.range r).map fun row => (List.range n).countP (f row)).sum := by
  induction r with
  | zero => rfl
  | succ r ih =>
      have hrow : ((List.range n).map (n * r + ·)).countP (fun x => f (x / n) (x % n)) =
          (List.range n).countP (f r) := by
        rw [List.countP_map]
        apply List.countP_congr
        intro j hj
        have hlt := List.mem_range.mp hj
        have hdiv : (n * r + j) / n = r := by
          rw [Nat.mul_add_div (by omega), Nat.div_eq_of_lt hlt, Nat.add_zero]
        show f ((n * r + j) / n) ((n * r + j) % n) = true ↔ _
        rw [hdiv, Nat.mul_add_mod, Nat.mod_eq_of_lt hlt]
      rw [Nat.mul_succ, List.range_add, List.countP_append, ih, hrow, List.range_succ,
        List.map_append, List.sum_append]
      rfl

theorem countP_single (p : Nat → Bool) {i n : Nat} (hi : i < n) :
    (List.range n).countP (fun j => p j && decide (j = i)) = if p i then 1 else 0 := by
  induction n with
  | zero => omega
  | succ n ih =>
      rw [List.range_succ, List.countP_append, List.countP_singleton]
      by_cases heq : i = n
      · subst heq
        have hnone : (List.range i).countP (fun j => p j && decide (j = i)) = 0 := by
          apply List.countP_eq_zero.mpr
          intro j hj
          have hlt := List.mem_range.mp hj
          rw [decide_eq_false (by omega), Bool.and_false]
          exact Bool.false_ne_true
        rw [hnone, decide_eq_true rfl, Bool.and_true, Nat.zero_add]
      · rw [ih (by omega), decide_eq_false (Ne.symm heq), Bool.and_false]
        rfl

/-- A member takes part in the first rows. -/
theorem sum_rows (k r : Nat) :
    ((List.range r).map fun row => if row < k then 1 else 0).sum = min r k := by
  induction r with
  | zero => exact (Nat.zero_min k).symm
  | succ r ih =>
      rw [List.range_succ, List.map_append, List.sum_append, ih]
      show min r k + ((if r < k then 1 else 0) + 0) = _
      split <;> omega

section Turns

variable (weights : List Nat)

/-- The rows of a cycle and its places. -/
def rows : Nat := maxOf weights / gcdOf weights
def cycle : Nat := weights.length * rows weights

/-- The member at a place takes part in the row of the place. -/
def turn (x : Nat) : Bool :=
  decide ((x % cycle weights / weights.length + 1) * gcdOf weights ≤
    weights.getD (x % weights.length) 0)

variable {weights}

theorem turn_period (x : Nat) : turn weights (x + cycle weights) = turn weights x := by
  have hmod : (x + cycle weights) % weights.length = x % weights.length :=
    Nat.add_mul_mod_self_left ..
  rw [turn, turn, Nat.add_mod_right, hmod]

theorem turn_of_lt {x : Nat} (hpos : 0 < gcdOf weights) (hx : x < cycle weights) :
    turn weights x = decide (x / weights.length < weights.getD (x % weights.length) 0 /
      gcdOf weights) := by
  rw [turn, Nat.mod_eq_of_lt hx]
  exact decide_eq_decide.mpr (Nat.le_div_iff_mul_le hpos).symm

theorem div_le_rows {i : Nat} : weights.getD i 0 / gcdOf weights ≤ rows weights := by
  apply Nat.div_le_div_right
  rw [List.getD_eq_getElem?_getD]
  cases hi : weights[i]? with
  | none => exact Nat.zero_le _
  | some w => exact le_maxOf (List.mem_of_getElem? hi)

/-- The turns of one member in a cycle. -/
theorem countP_member (hpos : 0 < gcdOf weights) {i : Nat} (hi : i < weights.length) :
    (List.range (cycle weights)).countP
      (fun x => turn weights x && decide (x % weights.length = i)) =
        weights.getD i 0 / gcdOf weights := by
  have hrow (row : Nat) := countP_single
    (fun j => decide (row < weights.getD j 0 / gcdOf weights)) hi
  refine Eq.trans ?_ ((countP_rows (fun row j => decide (row < weights.getD j 0 / gcdOf weights) &&
    decide (j = i)) weights.length (rows weights)).trans ?_)
  · exact List.countP_congr fun x hx => by rw [turn_of_lt hpos (List.mem_range.mp hx)]
  · simp only [hrow, decide_eq_true_eq]
    rw [sum_rows]
    exact Nat.min_eq_right div_le_rows

theorem countP_getD (p : Nat → Bool) (ws : List Nat) :
    (List.range ws.length).countP (fun j => p (ws.getD j 0)) = ws.countP p := by
  have hmap : (List.range ws.length).map (fun j => ws.getD j 0) = ws := by
    apply List.ext_getElem (by rw [List.length_map, List.length_range])
    intro j hj hj'
    rw [List.getElem_map, List.getElem_range, List.getD_eq_getElem _ _ hj']
  have hcount := List.countP_map (p := p) (f := fun j => ws.getD j 0) (l := List.range ws.length)
  rw [hmap] at hcount
  exact hcount.symm

theorem sum_countP (g r : Nat) (ws : List Nat) :
    ((List.range r).map fun row => ws.countP fun w => decide (row < w / g)).sum =
      (ws.map fun w => min r (w / g)).sum := by
  induction ws with
  | nil => exact List.sum_eq_zero fun x hx => (List.mem_map.mp hx).choose_spec.2.symm
  | cons w ws ih =>
      have hcons (row : Nat) : (w :: ws).countP (fun w => decide (row < w / g)) =
          (ws.countP fun w => decide (row < w / g)) + if row < w / g then 1 else 0 := by
        rw [List.countP_cons]
        simp only [decide_eq_true_eq]
      simp only [hcons]
      rw [List.sum_map_add, ih, sum_rows, List.map_cons, List.sum_cons, Nat.add_comm]

theorem sum_div {g : Nat} {ws : List Nat} (h : ∀ w ∈ ws, g ∣ w) :
    (ws.map (· / g)).sum = ws.sum / g := by
  induction ws with
  | nil => exact (Nat.zero_div g).symm
  | cons w ws ih =>
      obtain ⟨hw, hrest⟩ := List.forall_mem_cons.mp h
      rw [List.map_cons, List.sum_cons, List.sum_cons, ih hrest, Nat.add_div_of_dvd_right hw]

/-- The turns of all members in a cycle. -/
theorem countP_turn (hpos : 0 < gcdOf weights) :
    (List.range (cycle weights)).countP (turn weights) = weights.sum / gcdOf weights := by
  have hrow (row : Nat) : (List.range weights.length).countP
      (fun j => decide (row < weights.getD j 0 / gcdOf weights)) =
        weights.countP fun w => decide (row < w / gcdOf weights) :=
    countP_getD (fun w => decide (row < w / gcdOf weights)) weights
  have hmin : (weights.map fun w => min (rows weights) (w / gcdOf weights)) =
      weights.map (· / gcdOf weights) :=
    List.map_congr_left fun w hw => Nat.min_eq_right (Nat.div_le_div_right (le_maxOf hw))
  refine Eq.trans ?_ ((countP_rows (fun row j => decide (row < weights.getD j 0 / gcdOf weights))
    weights.length (rows weights)).trans ?_)
  · exact List.countP_congr fun x hx => by rw [turn_of_lt hpos (List.mem_range.mp hx)]
  · simp only [hrow]
    rw [sum_countP, hmin, sum_div fun w hw => gcdOf_dvd hw]

end Turns

end Tapplet.Actions
