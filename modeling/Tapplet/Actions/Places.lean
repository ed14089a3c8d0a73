import Tapplet.Actions.Balance
import Tapplet.Actions.Weights
import Tapplet.Lib.Fallible

/-!
# The weighted selector on its cycle

The state of the weighted selector is a place of a cycle: the row tells the running weight and
the column the member. A round of the selector goes one place on, so a selection ends at the
next member that takes part in its row. Before the first selection the running weight is 0,
and the state is as good as the one in front of a place of the first row.
-/

namespace Tapplet.Actions

open Rotor Fallible

/-- The weights that the selector works with. -/
structure Weighing (weights : List Nat) : Prop where
  ne_nil : weights ≠ []
  pos : ∀ w ∈ weights, 0 < w
  lt : ∀ w ∈ weights, w < 2 ^ 31
  length_lt : weights.length < 2 ^ 32

/-- `cw + gcd` never leaves the `int`. -/
def HasRoom (weights : List Nat) : Prop := maxOf weights + gcdOf weights < 2 ^ 31

instance (weights : List Nat) : Decidable (HasRoom weights) := inferInstanceAs (Decidable (_ < _))

section Places

variable (weights : List Nat)

/-- The running weight of a place. -/
def dataAt (x : Nat) : LoadBalanceWeight where
  cw := ((x % cycle weights / weights.length + 1) * gcdOf weights : Nat)
  gcd := gcdOf weights
  mw := maxOf weights

def indexAt (x : Nat) : UInt32 := .ofNat (x % weights.length)

/-- The data that `put_action_config` stores. -/
def dataStored : LoadBalanceWeight := ⟨0, gcdOf weights, maxOf weights⟩

/-- The weights as they are stored, with what is behind them. -/
def weightArray (more : List Int) : List Int := weights.map (fun (w : Nat) => (w : Int)) ++ more

end Places

variable {weights : List Nat} {more : List Int} {x y : Nat}

theorem Weighing.length_pos (h : Weighing weights) : 0 < weights.length :=
  List.length_pos_iff.mpr h.ne_nil

theorem Weighing.gcd_pos (h : Weighing weights) : 0 < gcdOf weights := gcdOf_pos h.ne_nil h.pos

theorem Weighing.max_lt (h : Weighing weights) : maxOf weights < 2 ^ 31 :=
  h.lt _ (maxOf_mem h.ne_nil)

/-- The divisor goes into the maximum. -/
theorem Weighing.rows_mul (h : Weighing weights) : rows weights * gcdOf weights = maxOf weights :=
  Nat.div_mul_cancel (gcdOf_dvd (maxOf_mem h.ne_nil))

theorem Weighing.rows_pos (h : Weighing weights) : 0 < rows weights := by
  apply Nat.div_pos
  · exact Nat.le_of_dvd (h.pos _ (maxOf_mem h.ne_nil)) (gcdOf_dvd (maxOf_mem h.ne_nil))
  · exact h.gcd_pos

theorem Weighing.cycle_pos (h : Weighing weights) : 0 < cycle weights :=
  Nat.mul_pos h.length_pos h.rows_pos

theorem succ_mod {c : Nat} (hc : 0 < c) (x : Nat) :
    (x + 1) % c = if x % c + 1 = c then 0 else x % c + 1 := by
  have hlt := Nat.mod_lt x hc
  rw [← Nat.mod_add_mod]
  split
  next heq => rw [heq, Nat.mod_self]
  next hne => exact Nat.mod_eq_of_lt (by omega)

theorem Weighing.indexAt_toNat (h : Weighing weights) : (indexAt weights x).toNat =
    x % weights.length := by
  have hlt := Nat.mod_lt x h.length_pos
  have hlen := h.length_lt
  rw [indexAt, UInt32.toNat_ofNat']
  exact Nat.mod_eq_of_lt (by omega)

theorem toNat_ofNat_length (h : Weighing weights) :
    (UInt32.ofNat weights.length).toNat = weights.length := by
  rw [UInt32.toNat_ofNat']
  exact Nat.mod_eq_of_lt h.length_lt

/-- The index goes around the members. -/
theorem Weighing.indexAt_succ (h : Weighing weights) (x : Nat) :
    (indexAt weights x + 1) % .ofNat weights.length = indexAt weights (x + 1) := by
  have hlt := Nat.mod_lt x h.length_pos
  have hlen := h.length_lt
  apply UInt32.toNat_inj.mp
  rw [UInt32.toNat_mod, UInt32.toNat_add, h.indexAt_toNat, h.indexAt_toNat, toNat_ofNat_length h]
  show (x % weights.length + 1) % 4294967296 % weights.length = _
  rw [Nat.mod_eq_of_lt (show x % weights.length + 1 < 4294967296 by omega), Nat.mod_add_mod]

theorem Weighing.indexAt_eq_zero (h : Weighing weights) :
    indexAt weights x = 0 ↔ x % weights.length = 0 := by
  rw [← UInt32.toNat_inj, h.indexAt_toNat]
  rfl

theorem addInt_nat (a b : Nat) :
    addInt a b = if a + b < 2 ^ 31 then .ok ((a + b : Nat) : Int) else .error .overflow := by
  rw [addInt]
  by_cases h : a + b < 2 ^ 31
  · rw [if_pos h, if_pos (by omega)]
    rfl
  · rw [if_neg h, if_neg (by omega)]

theorem Weighing.weightStep_same (h : Weighing weights) (hcol : (x + 1) % weights.length ≠ 0)
    (hrow : (x + 1) % cycle weights / weights.length = x % cycle weights / weights.length) :
    weightStep (dataAt weights x) weights.length (indexAt weights x) =
      .ok (dataAt weights (x + 1), indexAt weights (x + 1)) := by
  have hcw : (dataAt weights x).cw ≠ 0 := by
    have hpos : 0 < (x % cycle weights / weights.length + 1) * gcdOf weights :=
      Nat.mul_pos (Nat.succ_pos _) h.gcd_pos
    show ((_ : Nat) : Int) ≠ 0
    omega
  have hdata : dataAt weights (x + 1) = dataAt weights x := by rw [dataAt, dataAt, hrow]
  rw [weightStep, h.indexAt_succ]
  rw [if_neg (not_or.mpr ⟨mt h.indexAt_eq_zero.mp hcol, hcw⟩), hdata]

/-- At the start of a row the divisor is added, and a cycle begins again behind the maximum. -/
theorem Weighing.weightStep_row (h : Weighing weights) (hcol : (x + 1) % weights.length = 0) :
    weightStep (dataAt weights x) weights.length (indexAt weights x) =
      if (x % cycle weights / weights.length + 2) * gcdOf weights < 2 ^ 31 then
        .ok ({ dataAt weights x with
          cw := if rows weights < x % cycle weights / weights.length + 2 then gcdOf weights
            else ((x % cycle weights / weights.length + 2) * gcdOf weights : Nat) },
          indexAt weights (x + 1))
      else .error .overflow := by
  have hsum : (x % cycle weights / weights.length + 1) * gcdOf weights + gcdOf weights =
      (x % cycle weights / weights.length + 2) * gcdOf weights :=
    (Nat.succ_mul _ _).symm
  have hadd : addInt (dataAt weights x).cw (dataAt weights x).gcd =
      if (x % cycle weights / weights.length + 2) * gcdOf weights < 2 ^ 31 then
        .ok (((x % cycle weights / weights.length + 2) * gcdOf weights : Nat) : Int)
      else .error .overflow := by
    rw [← hsum]
    exact addInt_nat _ _
  have hmax : (((x % cycle weights / weights.length + 2) * gcdOf weights : Nat) : Int) >
      (dataAt weights x).mw ↔ rows weights < x % cycle weights / weights.length + 2 := by
    show ((maxOf weights : Nat) : Int) < _ ↔ _
    rw [Int.ofNat_lt, ← h.rows_mul]
    exact Nat.mul_lt_mul_right h.gcd_pos
  rw [weightStep, h.indexAt_succ]
  rw [if_pos (.inl (h.indexAt_eq_zero.mpr hcol)), hadd]
  split
  next =>
    refine (bind_of_ok rfl _).trans ?_
    simp only [hmax]
    rfl
  next => rfl

/-- A round goes one place on. The step to a new cycle adds the divisor to the maximum. -/
theorem Weighing.weightStep_at (h : Weighing weights) (x : Nat) :
    weightStep (dataAt weights x) weights.length (indexAt weights x) =
      if (x + 1) % cycle weights = 0 ∧ ¬HasRoom weights then .error .overflow
      else .ok (dataAt weights (x + 1), indexAt weights (x + 1)) := by
  have hlen := h.length_pos
  have hcycle : cycle weights = weights.length * rows weights := rfl
  have hlt := Nat.mod_lt x h.cycle_pos
  have hdvd : weights.length ∣ cycle weights := Nat.dvd_mul_right ..
  have hcolumn : (x + 1) % weights.length = (x % cycle weights + 1) % weights.length := by
    rw [← Nat.mod_add_mod, ← Nat.mod_mod_of_dvd x hdvd, Nat.mod_add_mod]
  have hsucc := succ_mod h.cycle_pos x
  have hrow : x % cycle weights / weights.length < rows weights := by
    apply Nat.div_lt_of_lt_mul
    rwa [← hcycle]
  by_cases hlast : x % cycle weights + 1 = cycle weights
  · -- the last place: the running weight is the maximum
    rw [if_pos hlast] at hsucc
    have hcol : (x + 1) % weights.length = 0 := by
      rw [hcolumn, hlast]
      exact Nat.mod_eq_zero_of_dvd hdvd
    have hend : x % cycle weights / weights.length + 1 = rows weights := by
      have hdiv := Nat.div_add_mod (x % cycle weights) weights.length
      have hmod := Nat.mod_lt (x % cycle weights) hlen
      have hle : weights.length * rows weights ≤
          weights.length * (x % cycle weights / weights.length + 1) := by
        rw [← hcycle, Nat.mul_succ]
        omega
      have hle := Nat.le_of_mul_le_mul_left hle hlen
      omega
    have hsum : (x % cycle weights / weights.length + 2) * gcdOf weights =
        maxOf weights + gcdOf weights := by
      rw [← h.rows_mul, ← hend]
      exact Nat.succ_mul _ _
    have hfirst : dataAt weights (x + 1) = { dataAt weights x with cw := gcdOf weights } := by
      rw [dataAt, hsucc, Nat.zero_div, Nat.zero_add, Nat.one_mul]
      rfl
    rw [h.weightStep_row hcol, hsum, hsucc]
    by_cases hroom : HasRoom weights
    · rw [if_pos (show maxOf weights + gcdOf weights < 2 ^ 31 from hroom),
        if_pos (show rows weights < x % cycle weights / weights.length + 2 by omega),
        if_neg (not_and_not_right.mpr fun _ => hroom), hfirst]
    · rw [if_neg (show ¬maxOf weights + gcdOf weights < 2 ^ 31 from hroom), if_pos ⟨rfl, hroom⟩]
  · rw [if_neg hlast] at hsucc
    rw [if_neg (by omega)]
    have hdiv := Nat.succ_div (a := x % cycle weights) (b := weights.length)
    by_cases hcol : (x + 1) % weights.length = 0
    · rw [hcolumn] at hcol
      rw [if_pos (Nat.dvd_of_mod_eq_zero hcol)] at hdiv
      have hnext : x % cycle weights / weights.length + 1 < rows weights := by
        rw [← hdiv]
        apply Nat.div_lt_of_lt_mul
        rw [← hcycle]
        omega
      have hle : (x % cycle weights / weights.length + 2) * gcdOf weights ≤ maxOf weights := by
        rw [← h.rows_mul]
        exact Nat.mul_le_mul_right _ hnext
      have hmax := h.max_lt
      rw [h.weightStep_row (hcolumn.trans hcol), if_pos (by omega), if_neg (by omega)]
      congr 2
      rw [dataAt, dataAt, hsucc, hdiv]
    · rw [h.weightStep_same hcol]
      rw [hcolumn] at hcol
      rw [if_neg (mt Nat.mod_eq_zero_of_dvd hcol)] at hdiv
      rw [hsucc]
      exact hdiv

/-! ## Selections -/

/-- The next round of the selector looks at the place behind `x`. -/
def Before (weights : List Nat) (s : LoadBalanceWeight × UInt32) (x : Nat) : Prop :=
  weightStep s.1 weights.length s.2 = .ok (dataAt weights (x + 1), indexAt weights (x + 1))

theorem Weighing.before_at (h : Weighing weights)
    (hsafe : ¬((x + 1) % cycle weights = 0 ∧ ¬HasRoom weights)) :
    Before weights (dataAt weights x, indexAt weights x) x :=
  (h.weightStep_at x).trans (if_neg hsafe)

/-- After storing, the selector is in front of the first row, whatever its index is. -/
theorem Weighing.before_stored (h : Weighing weights) (index : UInt32) :
    ∃ i, i < weights.length ∧
      Before weights (dataStored weights, index) (cycle weights + i - 1) := by
  have hcycle := h.cycle_pos
  have hlen := h.length_pos
  let i := ((index + 1) % .ofNat weights.length).toNat
  have hi : i < weights.length := by
    show ((index + 1) % UInt32.ofNat weights.length).toNat < _
    rw [UInt32.toNat_mod, toNat_ofNat_length h]
    exact Nat.mod_lt _ hlen
  have hle : weights.length ≤ cycle weights := Nat.le_mul_of_pos_right _ h.rows_pos
  have hplace : cycle weights + i - 1 + 1 = cycle weights + i := by omega
  have hcolumn : (cycle weights + i) % weights.length = i := by
    rw [cycle, Nat.mul_add_mod, Nat.mod_eq_of_lt hi]
  have hrow : (cycle weights + i) % cycle weights / weights.length = 0 := by
    rw [Nat.add_mod_left, Nat.mod_eq_of_lt (by omega), Nat.div_eq_of_lt hi]
  have hgcd : gcdOf weights ≤ maxOf weights :=
    Nat.le_of_dvd (h.pos _ (maxOf_mem h.ne_nil)) (gcdOf_dvd (maxOf_mem h.ne_nil))
  have hmax := h.max_lt
  have hindex : indexAt weights (cycle weights + i) = (index + 1) % .ofNat weights.length := by
    rw [indexAt, hcolumn]
    exact UInt32.ofNat_toNat
  have hdata : dataAt weights (cycle weights + i) =
      { dataStored weights with cw := gcdOf weights } := by
    rw [dataAt, hrow, Nat.zero_add, Nat.one_mul]
    rfl
  have hadd : addInt (dataStored weights).cw (dataStored weights).gcd =
      .ok (gcdOf weights : Int) := by
    have hsum := addInt_nat 0 (gcdOf weights)
    rw [if_pos (by omega), Nat.zero_add] at hsum
    exact hsum
  refine ⟨i, hi, ?_⟩
  rw [Before, hplace, hindex, hdata, weightStep]
  dsimp only
  rw [if_pos (.inr rfl)]
  refine (bind_of_ok hadd _).trans ?_
  have hnot : ¬((gcdOf weights : Int) > (dataStored weights).mw) := by
    show ¬((maxOf weights : Int) < gcdOf weights)
    omega
  rw [if_neg hnot]

theorem Weighing.turn_iff (h : Weighing weights) (x : Nat) :
    (weightArray weights more).getD (indexAt weights x).toNat 0 ≥ (dataAt weights x).cw ↔
      turn weights x = true := by
  have hlt := Nat.mod_lt x h.length_pos
  have hget : (weightArray weights more).getD (x % weights.length) 0 =
      ((weights.getD (x % weights.length) 0 : Nat) : Int) := by
    rw [weightArray, List.getD_append _ _ _ _ (by rwa [List.length_map]),
      List.getD_eq_getElem _ _ (by rwa [List.length_map]), List.getElem_map,
      List.getD_eq_getElem _ _ hlt]
  rw [h.indexAt_toNat, hget, turn, decide_eq_true_eq]
  exact Int.ofNat_le

/-- A selection stops at the next turn, when the running weight has room on the way. -/
theorem Weighing.search_eq (h : Weighing weights) (more : List Int)
    {s : LoadBalanceWeight × UInt32} {fuel : Nat} (hnext : Next (turn weights) x y)
    (hbefore : Before weights s x)
    (hsafe : ∀ z, x < z → z < y → ¬((z + 1) % cycle weights = 0 ∧ ¬HasRoom weights))
    (hfuel : y ≤ x + fuel) :
    loadBalanceGetWeightIndex (weightArray weights more) weights.length fuel s.1 s.2 =
      .ok (dataAt weights y, indexAt weights y) := by
  have hlt := hnext.lt
  induction fuel generalizing x s with
  | zero => omega
  | succ fuel ih =>
      rw [loadBalanceGetWeightIndex]
      refine (bind_of_ok hbefore _).trans ?_
      by_cases hturn : turn weights (x + 1) = true
      · obtain rfl : y = x + 1 := by
          by_contra hne
          have hskip := hnext.skips (x + 1) (Nat.lt_succ_self x) (by omega)
          exact Bool.noConfusion (hskip.symm.trans hturn)
        exact if_pos ((h.turn_iff _).mpr hturn)
      · have hne : y ≠ x + 1 := by
          rintro rfl
          exact hturn hnext.stops
        rw [if_neg (mt (h.turn_iff _).mp hturn)]
        refine ih ⟨by omega, hnext.stops, fun z hz hzy => hnext.skips z (by omega) hzy⟩
          (h.before_at (hsafe _ (by omega) (by omega)))
          (fun z hz hzy => hsafe z (by omega) hzy) (by omega) (by omega)

/-- A selection that comes to the end of the cycle leaves the `int` when there is no room. -/
theorem Weighing.search_overflow (h : Weighing weights) (more : List Int) {fuel : Nat}
    (hroom : ¬HasRoom weights)
    (hle : x ≤ y) (hskips : ∀ z, x < z → z ≤ y → turn weights z = false)
    (hend : (y + 1) % cycle weights = 0)
    (hfirst : ∀ z, x ≤ z → z < y → (z + 1) % cycle weights ≠ 0) (hfuel : y < x + fuel) :
    loadBalanceGetWeightIndex (weightArray weights more) weights.length fuel
      (dataAt weights x) (indexAt weights x) = .error .overflow := by
  induction fuel generalizing x with
  | zero => omega
  | succ fuel ih =>
      have hstep := h.weightStep_at x
      rw [loadBalanceGetWeightIndex]
      obtain heq | hlt := Nat.eq_or_lt_of_le hle
      · subst heq
        rw [if_pos ⟨hend, hroom⟩] at hstep
        rw [hstep]
        rfl
      · rw [if_neg fun hbad => hfirst x (Nat.le_refl x) hlt hbad.1] at hstep
        refine (bind_of_ok hstep _).trans ?_
        have hskip := hskips (x + 1) (Nat.lt_succ_self x) hlt
        rw [if_neg (mt (h.turn_iff _).mp (Bool.eq_false_iff.mp hskip))]
        exact ih hlt (fun z hz hzy => hskips z (by omega) hzy)
          (fun z hz hzy => hfirst z (by omega) hzy) (by omega)

/-! ## Runs -/

/-- `num` calls of `load_balance_get_weight_index`, one after the other: what they return. -/
def weightIndices (weight : List Int) (num fuel : Nat) :
    Nat → LoadBalanceWeight → UInt32 → Except Stop (List Nat)
  | 0, _, _ => .ok []
  | calls + 1, data, index => do
      let s ← loadBalanceGetWeightIndex weight num fuel data index
      let indices ← weightIndices weight num fuel calls s.1 s.2
      .ok (s.2.toNat :: indices)

/-- There is a turn in every cycle. -/
theorem Weighing.turn_zero (h : Weighing weights) : turn weights 0 = true := by
  obtain ⟨w, rest, rfl⟩ := List.exists_cons_of_ne_nil h.ne_nil
  have hmem : w ∈ w :: rest := List.mem_cons_self
  have hle := Nat.le_of_dvd (h.pos w hmem) (gcdOf_dvd hmem)
  rw [turn, Nat.zero_mod, Nat.zero_div, Nat.zero_add, Nat.one_mul, Nat.zero_mod]
  exact decide_eq_true hle

theorem Weighing.exists_next (h : Weighing weights) (x : Nat) :
    ∃ y, Next (turn weights) x y ∧ y ≤ x + cycle weights :=
  Rotor.exists_next turn_period h.cycle_pos h.turn_zero x

/-- With room, the calls of a run return the columns of the turns that follow each other. -/
theorem Weighing.run (h : Weighing weights) (more : List Int) (hroom : HasRoom weights) {fuel : Nat}
    (hfuel : cycle weights ≤ fuel) (calls : Nat) {s : LoadBalanceWeight × UInt32}
    (hbefore : Before weights s x) :
    ∃ places, Picks (turn weights) x places ∧ places.length = calls ∧
      weightIndices (weightArray weights more) weights.length fuel calls s.1 s.2 =
        .ok (places.map (· % weights.length)) := by
  have hsafe (z : Nat) : ¬((z + 1) % cycle weights = 0 ∧ ¬HasRoom weights) :=
    fun hbad => hbad.2 hroom
  induction calls generalizing x s with
  | zero => exact ⟨[], .nil x, rfl, rfl⟩
  | succ calls ih =>
      obtain ⟨y, hnext, hle⟩ := h.exists_next x
      have hsearch := h.search_eq more hnext hbefore (fun z _ _ => hsafe z)
        (show y ≤ x + fuel by omega)
      obtain ⟨places, hpicks, hlen, hrest⟩ := ih (h.before_at (hsafe y))
      refine ⟨y :: places, .cons hnext hpicks, congrArg Nat.succ hlen, ?_⟩
      rw [weightIndices]
      refine (bind_of_ok hsearch _).trans ?_
      refine (bind_of_ok hrest _).trans ?_
      rw [h.indexAt_toNat]
      rfl

/-- Whichever picks are looked at, as many of them as there are turns in a cycle are fair. -/
theorem Weighing.fair (h : Weighing weights) {places : List Nat}
    (hpicks : Picks (turn weights) x places) {o i : Nat}
    (hwindow : o + weights.sum / gcdOf weights ≤ places.length) (hi : i < weights.length) :
    (((places.map (· % weights.length)).drop o).take (weights.sum / gcdOf weights)).count i =
      weights.getD i 0 / gcdOf weights := by
  obtain ⟨x', hdrop⟩ := hpicks.drop o
  have htake := hdrop.take (weights.sum / gcdOf weights)
  have hmark (x : Nat) : decide ((x + cycle weights) % weights.length = i) =
      decide (x % weights.length = i) := by
    rw [show (x + cycle weights) % weights.length = x % weights.length from
      Nat.add_mul_mod_self_left ..]
  have hlen : ((places.drop o).take (weights.sum / gcdOf weights)).length =
      (List.range (cycle weights)).countP (turn weights) := by
    rw [countP_turn h.gcd_pos, List.length_take, List.length_drop]
    omega
  rw [← countP_member h.gcd_pos hi, ← htake.countP_mark turn_period hmark hlen, ← List.map_drop,
    ← List.map_take, List.count, List.countP_map]
  exact List.countP_congr fun x _ => by simp

/-! ## Reaching a place -/

/-- More rounds do not change what a selection returns. -/
theorem search_mono {weight : List Int} {num fuel fuel' : Nat} {data : LoadBalanceWeight}
    {index : UInt32} {s : LoadBalanceWeight × UInt32} (hle : fuel ≤ fuel')
    (h : loadBalanceGetWeightIndex weight num fuel data index = .ok s) :
    loadBalanceGetWeightIndex weight num fuel' data index = .ok s := by
  induction fuel generalizing fuel' data index with
  | zero => cases h
  | succ fuel ih =>
      obtain ⟨fuel', rfl⟩ : ∃ n, fuel' = n + 1 := ⟨fuel' - 1, by omega⟩
      rw [loadBalanceGetWeightIndex] at h ⊢
      obtain ⟨r, hr, h⟩ := bind_ok h
      refine (bind_of_ok hr _).trans ?_
      split at h
      next hstop =>
        rw [if_pos hstop]
        exact h
      next hgo =>
        rw [if_neg hgo]
        exact ih (by omega) h

theorem search_unique {weight : List Int} {num fuel fuel' : Nat} {data : LoadBalanceWeight}
    {index : UInt32} {s s' : LoadBalanceWeight × UInt32}
    (h : loadBalanceGetWeightIndex weight num fuel data index = .ok s)
    (h' : loadBalanceGetWeightIndex weight num fuel' data index = .ok s') : s = s' :=
  Except.ok.inj ((search_mono (Nat.le_max_left fuel fuel') h).symm.trans
    (search_mono (Nat.le_max_right fuel fuel') h'))

/-- A selection leads from one state to the other. -/
def Leads (weight : List Int) (num : Nat) (s s' : LoadBalanceWeight × UInt32) : Prop :=
  ∃ fuel, loadBalanceGetWeightIndex weight num fuel s.1 s.2 = .ok s'

theorem succ_mod_ne_zero {c z : Nat} (hz : c ≤ z) (hlt : z + 1 < c + c) : (z + 1) % c ≠ 0 := by
  rw [Nat.mod_eq_sub_mod (by omega), Nat.mod_eq_of_lt (by omega)]
  omega

/-- Every member takes part in the first row. -/
theorem Weighing.turn_first (h : Weighing weights) {i : Nat} (hi : i < weights.length) :
    turn weights (cycle weights + i) = true := by
  have hlt : i < cycle weights :=
    Nat.lt_of_lt_of_le hi (Nat.le_mul_of_pos_right _ h.rows_pos)
  have hmem := List.getElem_mem hi
  rw [Nat.add_comm, turn_period, turn_of_lt h.gcd_pos hlt, Nat.div_eq_of_lt hi,
    Nat.mod_eq_of_lt hi, List.getD_eq_getElem _ _ hi, decide_eq_true_eq]
  exact Nat.div_pos (Nat.le_of_dvd (h.pos _ hmem) (gcdOf_dvd hmem)) h.gcd_pos

/-- Every turn is reached from the turns before it, when there is room on the way. -/
theorem Weighing.leads (h : Weighing weights) (more : List Int) (hle : x ≤ y)
    (hsafe : ∀ z, x ≤ z → z < y → ¬((z + 1) % cycle weights = 0 ∧ ¬HasRoom weights))
    (hturn : turn weights y = true) :
    Relation.ReflTransGen (Leads (weightArray weights more) weights.length)
      (dataAt weights x, indexAt weights x) (dataAt weights y, indexAt weights y) := by
  obtain ⟨d, hd⟩ : ∃ d, y - x = d := ⟨_, rfl⟩
  induction d using Nat.strongRecOn generalizing x with
  | ind d ih =>
      obtain rfl | hlt := Nat.eq_or_lt_of_le hle
      · exact .refl
      · obtain ⟨z, hnext, hz⟩ := h.exists_next x
        have hzy : z ≤ y := by
          by_contra hgt
          exact Bool.noConfusion ((hnext.skips y hlt (by omega)).symm.trans hturn)
        have hxz := hnext.lt
        have hsearch := h.search_eq more hnext
          (h.before_at (hsafe x (Nat.le_refl x) hlt))
          (fun w hw hwz => hsafe w (by omega) (by omega)) hz
        exact .head ⟨_, hsearch⟩
          (ih _ (by omega) hzy (fun w hw hwy => hsafe w (by omega) hwy) rfl)

/-- The first selection after storing is in the first row. -/
theorem Weighing.leads_stored (h : Weighing weights) (more : List Int) (index : UInt32) :
    ∃ i, i < weights.length ∧ Leads (weightArray weights more) weights.length
      (dataStored weights, index)
      (dataAt weights (cycle weights + i), indexAt weights (cycle weights + i)) := by
  obtain ⟨i, hi, hbefore⟩ := h.before_stored index
  have hcycle := h.cycle_pos
  have hnext : Next (turn weights) (cycle weights + i - 1) (cycle weights + i) :=
    ⟨by omega, h.turn_first hi, fun z hz hzy => by omega⟩
  exact ⟨i, hi, 1, h.search_eq more hnext hbefore (fun z hz hzy => by omega) (by omega)⟩

/-- Without room, no selection comes back from the last turn of a cycle. -/
theorem Weighing.last_stuck (h : Weighing weights) (more : List Int) (hroom : ¬HasRoom weights) :
    ∃ y, cycle weights + weights.length ≤ y + 1 ∧ y < cycle weights + cycle weights ∧
      turn weights y = true ∧ ∀ s, ¬Leads (weightArray weights more) weights.length
        (dataAt weights y, indexAt weights y) s := by
  have hlen := h.length_pos
  have hle : weights.length ≤ cycle weights := Nat.le_mul_of_pos_right _ h.rows_pos
  let y := Nat.findGreatest (fun z => turn weights z = true) (cycle weights + cycle weights - 1)
  have hfirst : turn weights (cycle weights + (weights.length - 1)) = true :=
    h.turn_first (by omega)
  have hge : cycle weights + (weights.length - 1) ≤ y :=
    Nat.le_findGreatest (by omega) hfirst
  have hy : y ≤ cycle weights + cycle weights - 1 := Nat.findGreatest_le _
  have hturn : turn weights y = true :=
    Nat.findGreatest_spec (P := fun z => turn weights z = true) (by omega) hfirst
  refine ⟨y, by omega, by omega, hturn, ?_⟩
  rintro s ⟨fuel, hs⟩
  have hend : (cycle weights + cycle weights - 1 + 1) % cycle weights = 0 := by
    rw [Nat.sub_add_cancel (by omega), Nat.add_mod_right, Nat.mod_self]
  have hover := h.search_overflow more hroom hy
    (fun z hz hzy => Bool.eq_false_iff.mpr (Nat.findGreatest_is_greatest hz hzy)) hend
    (fun z hz hzy => succ_mod_ne_zero (by omega) (by omega))
    (show _ < y + (fuel + (cycle weights + cycle weights)) by omega)
  have hnone := (search_mono (Nat.le_add_right ..) hs).symm.trans hover
  cases hnone

end Tapplet.Actions
