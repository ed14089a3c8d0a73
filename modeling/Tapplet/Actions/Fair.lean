import Tapplet.Actions.Places

/-!
# The weighted round robin is fair

An action that `put_action_config` stores with positive weights starts a run of selections. From
any pick on, a cycle of picks selects each member as often as the divisor of the weights goes
into its weight.
-/

namespace Tapplet.Actions

open Rotor Fallible

variable {s t : Conf} {a : Action} {id : Int} {weights : List Nat} {more : List Int}

/-- What is stored of an action with positive weights. -/
theorem stored_weighted (hmode : a.loadBalanceMode = LOAD_BALANCE_MODE_WRR)
    (hnum : a.loadBalanceInterfacesNum.toNat = weights.length)
    (hweights : a.loadBalanceWeight = weightArray weights more) (hne : weights ≠ [])
    (hpos : ∀ w ∈ weights, 0 < w) :
    a.stored = some { a with
      weightData := dataStored weights
      refCounter := a.refCounter + 1 } := by
  have hcalc : weightCalcMax a.loadBalanceWeight a.loadBalanceInterfacesNum.toNat =
      some ((gcdOf weights : Int), (maxOf weights : Int)) := by
    rw [hweights, hnum]
    exact weightCalcMax_eq hne hpos more
  rw [Action.stored, if_pos hmode, hcalc]
  rfl

/-- After `put_action_config`, every selection ends, and every window of as many selections as
the divisor goes into the sum of the weights is fair. -/
theorem weighted_round_robin_fair (hput : putActionConfig s a id = some (t, 0))
    (hmode : a.loadBalanceMode = LOAD_BALANCE_MODE_WRR)
    (hnum : a.loadBalanceInterfacesNum.toNat = weights.length)
    (hweights : a.loadBalanceWeight = weights.map (fun (w : Nat) => (w : Int)) ++ more)
    (hne : weights ≠ []) (hpos : ∀ w ∈ weights, 0 < w)
    (hroom : maxOf weights + gcdOf weights < 2 ^ 31) :
    let b := t.actions id.toNat
    ∀ calls fuel, cycle weights ≤ fuel →
      ∃ picks, weightIndices b.loadBalanceWeight b.loadBalanceInterfacesNum.toNat fuel calls
          b.weightData b.loadBalanceIndex = .ok picks ∧ picks.length = calls ∧
        ∀ o i, o + weights.sum / gcdOf weights ≤ calls → i < weights.length →
          ((picks.drop o).take (weights.sum / gcdOf weights)).count i =
            weights.getD i 0 / gcdOf weights := by
  intro b calls fuel hfuel
  have hweighing : Weighing weights := by
    refine ⟨hne, hpos, fun w hw => ?_, ?_⟩
    · have hle := le_maxOf hw
      omega
    · have hlt := a.loadBalanceInterfacesNum.toNat_lt
      omega
  obtain ⟨-, -, c, hc, rfl⟩ | ⟨-, hret, -⟩ := putActionConfig_ok hput
  · have hb : b = c := Function.update_self (β := fun _ => Action) ..
    rw [stored_weighted hmode hnum hweights hne hpos] at hc
    obtain rfl := Option.some.inj hc
    obtain ⟨i, -, hbefore⟩ := hweighing.before_stored a.loadBalanceIndex
    obtain ⟨places, hpicks, hlen, hrun⟩ := hweighing.run more hroom hfuel calls hbefore
    refine ⟨places.map (· % weights.length), ?_, ?_, ?_⟩
    · rw [hb]
      dsimp only
      rw [hweights, hnum]
      exact hrun
    · rw [List.length_map, hlen]
    · intro o i ho hi
      exact hweighing.fair hpicks (by rwa [hlen]) hi
  · cases hret

/-- Two members with the weights 2 and 1, and an index from before. -/
def twoToOne : Action :=
  { resetActionConfigStruct with
    type := ACTION_TYPE_LOAD_BALANCE_INTERFACES
    loadBalanceMode := LOAD_BALANCE_MODE_WRR
    loadBalanceInterfacesNum := 2
    loadBalanceIndex := 7
    loadBalanceWeight := [2, 1] ++ .replicate 62 0 }

/-- Six picks of it start with a fair window of three. -/
theorem weighted_round_robin_fair_two : ∃ t picks,
    putActionConfig ⟨fun _ => resetActionConfigStruct⟩ twoToOne 1 = some (t, 0) ∧
    weightIndices (t.actions 1).loadBalanceWeight (t.actions 1).loadBalanceInterfacesNum.toNat 4 6
      (t.actions 1).weightData (t.actions 1).loadBalanceIndex = .ok picks ∧
    (picks.take 3).count 0 = 2 ∧ (picks.take 3).count 1 = 1 := by
  obtain ⟨t, ht⟩ : ∃ t, putActionConfig ⟨fun _ => resetActionConfigStruct⟩ twoToOne 1 =
      some (t, 0) := ⟨_, rfl⟩
  obtain ⟨picks, hrun, -, hfair⟩ := @weighted_round_robin_fair _ _ _ _ [2, 1]
    (.replicate 62 0) ht rfl rfl rfl (by decide) (by decide) (by decide) 6 4 (by decide)
  exact ⟨t, picks, ht, hrun, hfair 0 0 (by decide) (by decide), hfair 0 1 (by decide) (by decide)⟩

end Tapplet.Actions
