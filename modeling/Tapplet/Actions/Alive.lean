import Tapplet.Actions.Safe
import Tapplet.Actions.Hashed

/-!
# Members that are down

In the round-robin modes a packet that hits a member that is down is given to the selector
again, 64 times at most. The selector is a rotation: its state is in front of a place, a
selection goes to the next turn, and the member that is up is found if there are not too many
turns in front of its own. In the round robin there never are. In the weighted one the turns
behind the last row of the members that are up are the obstacle.
-/

namespace Tapplet.Actions

open Rotor Fallible

/-! ## Retrying -/

/-- In the states that belong to a place, a selection goes to the next turn. -/
structure Rotates (fuel : Nat) (data : LoadBalanceData) (num : Nat) (good : Nat → Bool)
    (member : Nat → UInt8) (stands : Action → Nat → Prop) : Prop where
  members : ∀ a x, stands a x → a.member = member
  select : ∀ a x, stands a x → ∃ a' y, Next good x y ∧
    actionGetLoadBalanceIndex fuel a data num = .ok (a', y % num) ∧ stands a' y

variable {fuel num rounds x y : Nat} {data : LoadBalanceData} {good : Nat → Bool} {l : Links}
variable {member : Nat → UInt8} {stands : Action → Nat → Prop} {a : Action} {w : OuterWdata}
variable {t : RealTable}

/-- The turns of the members that are up. -/
def upTurn (good : Nat → Bool) (l : Links) (member : Nat → UInt8) (num x : Nat) : Bool :=
  good x && l.up (member (x % num))

theorem Rotates.selectUp_next (h : Rotates fuel data num good member stands) (l : Links)
    (ha : stands a x) :
    ∃ a' y, Next good x y ∧ stands a' y ∧
      ∀ rounds, selectUp fuel l data num (rounds + 1) a =
        if l.up (member (y % num)) then .ok (a', (member (y % num)).toNat)
        else selectUp fuel l data num rounds a' := by
  obtain ⟨a', y, hnext, hselect, ha'⟩ := h.select a x ha
  refine ⟨a', y, hnext, ha', fun rounds => ?_⟩
  rw [selectUp]
  refine (bind_of_ok hselect _).trans ?_
  dsimp only
  rw [h.members a' y ha']

/-- The next member that is up is found when the turns in front of it are fewer than the
rounds. -/
theorem Rotates.selectUp_found (h : Rotates fuel data num good member stands) (ha : stands a x)
    (hnext : Next (upTurn good l member num) x y) (hrounds : between good x y < rounds) :
    ∃ a', selectUp fuel l data num rounds a = .ok (a', (member (y % num)).toNat) := by
  induction rounds generalizing a x with
  | zero => omega
  | succ rounds ih =>
      obtain ⟨a', z, hz, ha', hloop⟩ := h.selectUp_next l ha
      obtain ⟨hgood, hup⟩ := Bool.and_eq_true_iff.mp hnext.stops
      have hzy : z ≤ y := by
        by_contra hgt
        rw [hz.skips y hnext.lt (by omega)] at hgood
        cases hgood
      rw [hloop]
      obtain rfl | hlt := Nat.eq_or_lt_of_le hzy
      · exact ⟨a', if_pos hup⟩
      · have hdown : ¬l.up (member (z % num)) = true := by
          have hskip := hnext.skips z hz.lt hlt
          rw [upTurn, hz.stops, Bool.true_and] at hskip
          rw [hskip]
          exact Bool.false_ne_true
        rw [if_neg hdown]
        refine ih ha' ⟨hlt, hnext.stops, fun v hv => hnext.skips v (hz.lt.trans hv)⟩ ?_
        rw [hz.between_eq hlt] at hrounds
        omega

/-- When the rounds are used up by turns of members that are down, there is no interface. -/
theorem Rotates.selectUp_missed (h : Rotates fuel data num good member stands) (ha : stands a x)
    (hdown : ∀ z, x < z → z < y → upTurn good l member num z = false)
    (hrounds : rounds ≤ between good x y) :
    ∃ a', selectUp fuel l data num rounds a = .ok (a', INVALID_INTERFACE_ID) := by
  induction rounds generalizing a x with
  | zero => exact ⟨a, rfl⟩
  | succ rounds ih =>
      obtain ⟨a', z, hz, ha', hloop⟩ := h.selectUp_next l ha
      have hzy : z < y := by
        by_contra hle
        have hmono := @between_mono good x x y z (Nat.le_refl x) (Nat.le_of_not_lt hle)
        rw [hz.between_eq_zero] at hmono
        omega
      have hskip := hdown z hz.lt hzy
      rw [upTurn, hz.stops, Bool.true_and] at hskip
      rw [hloop, if_neg (by rw [hskip]; exact Bool.false_ne_true)]
      refine ih ha' (fun v hv => hdown v (hz.lt.trans hv)) ?_
      rw [hz.between_eq hzy] at hrounds
      omega

/-- With every member down there is no interface. -/
theorem Rotates.selectUp_none (h : Rotates fuel data num good member stands) (ha : stands a x)
    (hnum : 0 < num) (hdown : ∀ i < num, l.up (member i) = false) (rounds : Nat) :
    ∃ a', selectUp fuel l data num rounds a = .ok (a', INVALID_INTERFACE_ID) := by
  induction rounds generalizing a x with
  | zero => exact ⟨a, rfl⟩
  | succ rounds ih =>
      obtain ⟨a', z, -, ha', hloop⟩ := h.selectUp_next l ha
      rw [hloop, if_neg (by rw [hdown _ (Nat.mod_lt z hnum)]; exact Bool.false_ne_true)]
      exact ih ha'

/-- In the round-robin modes the first selection is a round like those that follow. -/
theorem loadBalanceInterfaces_retry (hmode : a.loadBalanceMode = LOAD_BALANCE_MODE_ROUND_ROBIN ∨
      a.loadBalanceMode = LOAD_BALANCE_MODE_WRR) :
    loadBalanceInterfaces netToHost fuel l w a t =
      (selectUp fuel l (fillLoadBalanceData netToHost w) a.loadBalanceInterfacesNum.toNat
        (MAX_LOAD_BALANCE_NODE + 1) a >>= fun r => .ok (r.1, t, r.2)) := by
  rw [loadBalanceInterfaces, selectUp]
  cases hselect : actionGetLoadBalanceIndex fuel a (fillLoadBalanceData netToHost w)
      a.loadBalanceInterfacesNum.toNat with
  | error e => rfl
  | ok r =>
      have hsame : r.1.config.loadBalanceMode = a.config.loadBalanceMode :=
        congrArg Action.loadBalanceMode (actionGetLoadBalanceIndex_config hselect)
      have hmode' : r.1.loadBalanceMode = LOAD_BALANCE_MODE_ROUND_ROBIN ∨
          r.1.loadBalanceMode = LOAD_BALANCE_MODE_WRR := by
        rwa [show r.1.loadBalanceMode = a.loadBalanceMode from hsame]
      refine (bind_of_ok rfl _).trans ?_
      refine Eq.trans ?_ (congrArg (· >>= _) (bind_of_ok rfl _).symm)
      dsimp only
      by_cases hup : l.up (r.1.member r.2) = true
      · rw [if_pos hup, if_pos hup]
        rfl
      · rw [if_neg hup, if_neg hup, if_pos hmode']

/-! ## The longest way to a member that is up -/

section DeadRun

variable (weights : List Nat) (l : Links) (member : Nat → UInt8)

/-- The last turn in a cycle of a member that is up. -/
def lastUp : Nat :=
  Nat.findGreatest (fun x => upTurn (turn weights) l member weights.length x = true)
    (cycle weights - 1)

/-- The first member that is up. -/
def firstUp : Nat := (List.range weights.length).findIdx fun i => l.up (member i)

/-- The turns from the last one of a member that is up to the first one in the next cycle. -/
def deadRun : Nat :=
  between (turn weights) (lastUp weights l member) (cycle weights + firstUp weights l member)

end DeadRun

variable {weights : List Nat} {more : List Int}

theorem firstUp_spec (hup : ∃ i < weights.length, l.up (member i) = true) :
    firstUp weights l member < weights.length ∧
      l.up (member (firstUp weights l member)) = true ∧
      ∀ i < firstUp weights l member, l.up (member i) = false := by
  obtain ⟨i, hi, hup⟩ := hup
  unfold firstUp
  have hlt : (List.range weights.length).findIdx (fun i => l.up (member i)) <
      (List.range weights.length).length :=
    List.findIdx_lt_length_of_exists ⟨i, List.mem_range.mpr hi, hup⟩
  have hfound := List.findIdx_getElem (w := hlt)
  rw [List.getElem_range] at hfound
  rw [List.length_range] at hlt
  refine ⟨hlt, hfound, fun j hj => ?_⟩
  have hnot := List.not_of_lt_findIdx hj
  rw [List.getElem_range] at hnot
  exact hnot

theorem upTurn_period (x : Nat) :
    upTurn (turn weights) l member weights.length (x + cycle weights) =
      upTurn (turn weights) l member weights.length x := by
  rw [upTurn, upTurn, turn_period, cycle, Nat.add_mul_mod_self_left]

theorem Weighing.upTurn_first (h : Weighing weights)
    (hup : ∃ i < weights.length, l.up (member i) = true) :
    upTurn (turn weights) l member weights.length (cycle weights + firstUp weights l member) =
      true := by
  obtain ⟨hlt, hfirst, -⟩ := firstUp_spec hup
  rw [upTurn, h.turn_first hlt, Bool.true_and, cycle, Nat.mul_add_mod, Nat.mod_eq_of_lt hlt]
  exact hfirst

theorem Weighing.lastUp_spec (h : Weighing weights)
    (hup : ∃ i < weights.length, l.up (member i) = true) :
    upTurn (turn weights) l member weights.length (lastUp weights l member) = true ∧
      lastUp weights l member < cycle weights ∧
      ∀ z, lastUp weights l member < z → z < cycle weights →
        upTurn (turn weights) l member weights.length z = false := by
  obtain ⟨hlt, -⟩ := firstUp_spec hup
  have hcycle := h.cycle_pos
  have hle : weights.length ≤ cycle weights := Nat.le_mul_of_pos_right _ h.rows_pos
  have hfirst := h.upTurn_first hup
  rw [Nat.add_comm, upTurn_period] at hfirst
  have hmax : lastUp weights l member ≤ cycle weights - 1 := Nat.findGreatest_le _
  refine ⟨?_, by omega, fun z hz hzc => ?_⟩
  · exact Nat.findGreatest_spec
      (P := fun x => upTurn (turn weights) l member weights.length x = true)
      (show firstUp weights l member ≤ cycle weights - 1 by omega) hfirst
  · exact Bool.eq_false_iff.mpr (Nat.findGreatest_is_greatest hz (by omega))

/-- Behind the last turn of a member that is up comes the first one of the next cycle. -/
theorem Weighing.next_lastUp (h : Weighing weights)
    (hup : ∃ i < weights.length, l.up (member i) = true) :
    Next (upTurn (turn weights) l member weights.length) (lastUp weights l member)
      (cycle weights + firstUp weights l member) := by
  obtain ⟨hlt, -, hdown⟩ := firstUp_spec hup
  obtain ⟨-, hlast, hskip⟩ := h.lastUp_spec hup
  refine ⟨by omega, h.upTurn_first hup, fun z hz hzy => ?_⟩
  by_cases hcycle : z < cycle weights
  · exact hskip z hz hcycle
  · obtain ⟨i, rfl⟩ := Nat.exists_eq_add_of_le (Nat.le_of_not_lt hcycle)
    rw [upTurn, cycle, Nat.mul_add_mod, Nat.mod_eq_of_lt (by omega), hdown i (by omega),
      Bool.and_false]

theorem turn_eq (h : Weighing weights) (x : Nat) :
    turn weights x = decide (x % cycle weights / weights.length <
      weights.getD (x % weights.length) 0 / gcdOf weights) := by
  rw [turn]
  exact decide_eq_decide.mpr (Nat.le_div_iff_mul_le h.gcd_pos).symm

/-- No way to a member that is up has more turns than a row has members, or than there are
behind the last turn of a member that is up. -/
theorem Weighing.between_lt (h : Weighing weights)
    (hup : ∃ i < weights.length, l.up (member i) = true)
    (hnext : Next (upTurn (turn weights) l member weights.length) x y) :
    between (turn weights) x y < weights.length ∨
      between (turn weights) x y ≤ deadRun weights l member := by
  obtain ⟨hlast, hlt, hskip⟩ := h.lastUp_spec hup
  obtain hnear | hfar := Nat.lt_or_ge (x + weights.length) y
  · right
    -- a later turn of the member in the last row that is up has no part in its row any more
    obtain ⟨m, hm⟩ : ∃ m, m = lastUp weights l member := ⟨_, rfl⟩
    rw [← hm] at hlast hlt hskip
    obtain ⟨hturn, halive⟩ := Bool.and_eq_true_iff.mp hlast
    have hperiod (z : Nat) : decide ((z + weights.length) % weights.length =
        m % weights.length) = decide (z % weights.length = m % weights.length) := by
      rw [Nat.add_mod_right]
    obtain ⟨z, hz, hzle⟩ := @Rotor.exists_next
      (fun z => decide (z % weights.length = m % weights.length)) weights.length hperiod _
      (Nat.mod_lt m h.length_pos) (decide_eq_true (Nat.mod_mod _ _)) x
    have hxz := hz.lt
    have hcol : z % weights.length = m % weights.length := of_decide_eq_true hz.stops
    have hnot : turn weights z = false := by
      have hnone := hnext.skips z hz.lt (by omega)
      rw [upTurn, hcol, halive, Bool.and_true] at hnone
      exact hnone
    rw [turn_eq h, Nat.mod_eq_of_lt hlt, decide_eq_true_eq] at hturn
    rw [turn_eq h, hcol, decide_eq_false_iff_not, Nat.not_lt] at hnot
    have hbehind : m < z % cycle weights := by
      by_contra hle
      have hdiv := Nat.div_le_div_right (c := weights.length) (Nat.le_of_not_lt hle)
      omega
    have hmod := Nat.mod_lt z h.cycle_pos
    obtain ⟨base, hbase⟩ : ∃ base, base = z / cycle weights * cycle weights := ⟨_, rfl⟩
    have hplace : z % cycle weights + base = z := by
      rw [hbase, Nat.mul_comm]
      exact Nat.mod_add_div z (cycle weights)
    have hshift (v : Nat) : upTurn (turn weights) l member weights.length (v + base) =
        upTurn (turn weights) l member weights.length v := by
      rw [hbase]
      exact shift_period upTurn_period (z / cycle weights) v
    have hlow : m + base ≤ x := by
      by_contra hgt
      have hnone := hnext.skips (m + base) (by omega) (by omega)
      rw [hshift, hlast] at hnone
      cases hnone
    have hbeyond : cycle weights + base ≤ y := by
      by_contra hgt
      have hnone := hskip (y - base) (by omega) (by omega)
      rw [← hshift, Nat.sub_add_cancel (by omega), hnext.stops] at hnone
      cases hnone
    have hhigh : y ≤ cycle weights + firstUp weights l member + base := by
      by_contra hgt
      have hnone := hnext.skips (cycle weights + firstUp weights l member + base) (by omega)
        (by omega)
      rw [hshift, h.upTurn_first hup] at hnone
      cases hnone
    calc between (turn weights) x y
        ≤ between (turn weights) (m + base) (cycle weights + firstUp weights l member + base) :=
          between_mono hlow hhigh
      _ = deadRun weights l member := by
          rw [hm, hbase, between_period turn_period, deadRun]
  · left
    have hle := @between_le (turn weights) x y
    have hpos := h.length_pos
    have hxy := hnext.lt
    omega

/-! ## The selectors as rotations -/

/-- A round robin stands in front of a place. -/
def standsRound (b a : Action) (x : Nat) : Prop :=
  a.config = b.config ∧ (a.loadBalanceIndex + 1) % .ofNat b.loadBalanceInterfacesNum.toNat =
    .ofNat ((x + 1) % b.loadBalanceInterfacesNum.toNat)

/-- A weighted selector stands in front of a place. -/
def standsWeighted (weights : List Nat) (b a : Action) (x : Nat) : Prop :=
  a.config = b.config ∧ Before weights (a.weightData, a.loadBalanceIndex) x

variable {b : Action}

theorem toNat_ofNat_mod {num x : Nat} (hnum : 0 < num) (hlt : num < 256) :
    (UInt32.ofNat (x % num)).toNat = x % num := by
  have hmod := Nat.mod_lt x hnum
  rw [UInt32.toNat_ofNat']
  exact Nat.mod_eq_of_lt (by omega)

theorem rotates_round (hmode : b.loadBalanceMode = LOAD_BALANCE_MODE_ROUND_ROBIN)
    (hnum : 0 < b.loadBalanceInterfacesNum.toNat) (fuel : Nat) (data : LoadBalanceData) :
    Rotates fuel data b.loadBalanceInterfacesNum.toNat (fun _ => true) b.member
      (standsRound b) := by
  have hlt := b.loadBalanceInterfacesNum.toNat_lt
  refine ⟨fun a x ha => member_of_config ha.1, fun a x ⟨hconfig, hindex⟩ => ?_⟩
  have hmode' := (mode_of_config hconfig).trans hmode
  refine ⟨{ a with loadBalanceIndex := .ofNat ((x + 1) % b.loadBalanceInterfacesNum.toNat) },
    x + 1, ⟨Nat.lt_succ_self x, rfl, fun z hz hzy => by omega⟩, ?_, hconfig, ?_⟩
  · rw [actionGetLoadBalanceIndex, if_neg (Nat.ne_of_gt hnum), hmode', if_neg (by decide),
      if_neg (by decide), if_neg (by decide), if_neg (by decide), hindex]
    dsimp only
    rw [toNat_ofNat_mod hnum hlt]
  · apply UInt32.toNat_inj.mp
    dsimp only
    have hmod := Nat.mod_lt (x + 1) hnum
    rw [UInt32.toNat_mod, UInt32.toNat_add, toNat_ofNat_mod hnum hlt, toNat_ofNat_mod hnum hlt,
      UInt32.toNat_ofNat',
      Nat.mod_eq_of_lt (show b.loadBalanceInterfacesNum.toNat < 2 ^ 32 by omega)]
    show ((x + 1) % b.loadBalanceInterfacesNum.toNat + 1) % 4294967296 % _ = _
    rw [Nat.mod_eq_of_lt
      (show (x + 1) % b.loadBalanceInterfacesNum.toNat + 1 < 4294967296 by omega), Nat.mod_add_mod]

/-- A round robin stands in front of a place, whatever its index is. -/
theorem exists_standsRound (hnum : 0 < b.loadBalanceInterfacesNum.toNat)
    (hconfig : a.config = b.config) : ∃ x, standsRound b a x := by
  have hlt := b.loadBalanceInterfacesNum.toNat_lt
  let i := ((a.loadBalanceIndex + 1) % .ofNat b.loadBalanceInterfacesNum.toNat).toNat
  have hi : i < b.loadBalanceInterfacesNum.toNat := by
    show ((_ : UInt32) % _).toNat < _
    rw [UInt32.toNat_mod, UInt32.toNat_ofNat',
      Nat.mod_eq_of_lt (show b.loadBalanceInterfacesNum.toNat < 2 ^ 32 by omega)]
    exact Nat.mod_lt _ hnum
  refine ⟨i + b.loadBalanceInterfacesNum.toNat - 1, hconfig, ?_⟩
  rw [Nat.sub_add_cancel (by omega), Nat.add_mod_right, Nat.mod_eq_of_lt hi]
  exact UInt32.ofNat_toNat.symm

/-- More rounds do not change what a selection returns. -/
theorem actionGetLoadBalanceIndex_mono {fuel' : Nat} {r : Action × Nat} (hle : fuel ≤ fuel')
    (h : actionGetLoadBalanceIndex fuel a data num = .ok r) :
    actionGetLoadBalanceIndex fuel' a data num = .ok r := by
  unfold actionGetLoadBalanceIndex at h ⊢
  split_ifs at h ⊢
  · exact h
  · obtain ⟨s, hs, h⟩ := bind_ok h
    exact (bind_of_ok (search_mono hle hs) _).trans h
  · exact h
  · exact h
  · exact h
  · exact h

/-- An action with positive weights, as it is stored. -/
structure Weighted (weights : List Nat) (more : List Int) (b : Action) : Prop where
  weighing : Weighing weights
  mode : b.loadBalanceMode = LOAD_BALANCE_MODE_WRR
  num : b.loadBalanceInterfacesNum.toNat = weights.length
  weight : b.loadBalanceWeight = weightArray weights more

theorem Weighted.of_config (h : Weighted weights more b) (hconfig : a.config = b.config) :
    Weighted weights more a where
  weighing := h.weighing
  mode := (mode_of_config hconfig).trans h.mode
  num := (congrArg UInt8.toNat (num_of_config hconfig)).trans h.num
  weight := (weight_of_config hconfig).trans h.weight

/-- A selection of a weighted action is one of its weights. -/
theorem Weighted.select_iff (h : Weighted weights more a) (data : LoadBalanceData)
    {r : Action × Nat} :
    actionGetLoadBalanceIndex fuel a data weights.length = .ok r ↔
      ∃ s, loadBalanceGetWeightIndex (weightArray weights more) weights.length fuel a.weightData
          a.loadBalanceIndex = .ok s ∧
        r = ({ a with weightData := s.1, loadBalanceIndex := s.2 }, s.2.toNat) := by
  rw [actionGetLoadBalanceIndex, if_neg (Nat.ne_of_gt h.weighing.length_pos), if_pos h.mode,
    h.weight]
  constructor
  · intro hr
    obtain ⟨s, hs, hr⟩ := bind_ok hr
    cases hr
    exact ⟨s, hs, rfl⟩
  · rintro ⟨s, hs, rfl⟩
    exact bind_of_ok hs _

theorem rotates_weighted (h : Weighted weights more b) (hroom : HasRoom weights)
    (hfuel : cycle weights ≤ fuel) (data : LoadBalanceData) :
    Rotates fuel data weights.length (turn weights) b.member (standsWeighted weights b) := by
  refine ⟨fun a x ha => member_of_config ha.1, fun a x ⟨hconfig, hbefore⟩ => ?_⟩
  obtain ⟨y, hnext, hle⟩ := h.weighing.exists_next x
  have hsearch := h.weighing.search_eq more hnext hbefore (fun z _ _ hbad => hbad.2 hroom)
    (show y ≤ x + fuel by omega)
  have hselect := ((h.of_config hconfig).select_iff data).mpr ⟨_, hsearch, rfl⟩
  rw [h.weighing.indexAt_toNat] at hselect
  exact ⟨_, y, hnext, hselect, hconfig, h.weighing.before_at fun hbad => hbad.2 hroom⟩

/-- Whatever rounds there are, a selection that returns leaves the selector in front of a place. -/
theorem Rotates.stands_of_ok {fuel' : Nat} (h : Rotates fuel' data num good member stands)
    (hle : fuel ≤ fuel') {r : Action × Nat} (ha : stands a x)
    (hr : actionGetLoadBalanceIndex fuel a data num = .ok r) : ∃ y, stands r.1 y := by
  obtain ⟨a', y, -, hselect, ha'⟩ := h.select a x ha
  obtain rfl := Except.ok.inj ((actionGetLoadBalanceIndex_mono hle hr).symm.trans hselect)
  exact ⟨y, ha'⟩

end Tapplet.Actions
