import Tapplet.Actions.Alive

/-!
# Which load balances avoid members that are down

The states of a load balance are those that packets leave behind, whatever the links were when
they were forwarded. In every such state a packet goes to a member that is up, except that a
weighted balance can use up its rounds, or overflow.
-/

namespace Tapplet.Actions

open Rotor Rest Fallible

/-- What a stored action and its table become while packets are forwarded. The index that the
action starts with is arbitrary. -/
inductive Reached (netToHost : UInt64 → UInt64) (b : Action) : Action → RealTable → Prop where
  | stored (index : UInt32) (t : RealTable) (renewed : t.Renewed) :
      Reached netToHost b { b with loadBalanceIndex := index } t
  | packet {a : Action} {t : RealTable} {fuel : Nat} {l : Links} {w : OuterWdata}
      {r : Action × RealTable × Nat} (reached : Reached netToHost b a t)
      (call : loadBalanceInterfaces netToHost fuel l w a t = .ok r) : Reached netToHost b r.1 r.2.1

/-- The interface is a member that is up, if there is one. -/
def RightInterface (l : Links) (b : Action) (interfaceId : Nat) : Prop :=
  if ∃ i < b.loadBalanceInterfacesNum.toNat, l.up (b.member i) = true then
    ∃ i < b.loadBalanceInterfacesNum.toNat, l.up (b.member i) = true ∧
      interfaceId = (b.member i).toNat
  else interfaceId = INVALID_INTERFACE_ID

/-- With enough rounds a packet gets the right interface. -/
def Avoids (netToHost : UInt64 → UInt64) (l : Links) (w : OuterWdata) (b a : Action)
    (t : RealTable) : Prop :=
  ∃ enough, ∀ fuel, enough ≤ fuel → ∃ r, loadBalanceInterfaces netToHost fuel l w a t = .ok r ∧
    RightInterface l b r.2.2

variable {netToHost : UInt64 → UInt64} {fuel x y : Nat} {l : Links} {w : OuterWdata}
variable {a b : Action} {t : RealTable} {weights : List Nat} {more : List Int}

theorem Reached.kept (h : Reached netToHost b a t) : a.config = b.config ∧ t.Renewed := by
  induction h with
  | stored index t renewed => exact ⟨rfl, renewed⟩
  | packet _ call ih =>
      obtain ⟨hconfig, hrenewed⟩ := loadBalanceInterfaces_kept ih.2 call
      exact ⟨hconfig.trans ih.1, hrenewed⟩

theorem rightInterface_up {i : Nat} (hi : i < b.loadBalanceInterfacesNum.toNat)
    (hup : l.up (b.member i) = true) : RightInterface l b (b.member i).toNat := by
  rw [RightInterface, if_pos ⟨i, hi, hup⟩]
  exact ⟨i, hi, hup, rfl⟩

theorem rightInterface_none
    (hdown : ¬∃ i < b.loadBalanceInterfacesNum.toNat, l.up (b.member i) = true) :
    RightInterface l b INVALID_INTERFACE_ID := by
  rw [RightInterface, if_neg hdown]

/-! ## Rotations -/

/-- Where every way to a member that is up is short, a packet gets the right interface. -/
theorem Rotates.avoids {num : Nat} {good : Nat → Bool} {stands : Action → Nat → Prop}
    (h : ∀ fuel, cycle weights ≤ fuel →
      Rotates fuel (fillLoadBalanceData netToHost w) num good b.member stands)
    (hmode : a.loadBalanceMode = LOAD_BALANCE_MODE_ROUND_ROBIN ∨
      a.loadBalanceMode = LOAD_BALANCE_MODE_WRR)
    (hconfig : a.config = b.config) (hnum : b.loadBalanceInterfacesNum.toNat = num)
    (hpos : 0 < num) (ha : stands a x)
    (hshort : (∃ i < num, l.up (b.member i) = true) →
      ∃ y, Next (upTurn good l b.member num) x y ∧
        between good x y < MAX_LOAD_BALANCE_NODE + 1) : Avoids netToHost l w b a t := by
  refine ⟨cycle weights, fun fuel hfuel => ?_⟩
  subst hnum
  have hrotates := h fuel hfuel
  rw [loadBalanceInterfaces_retry hmode, num_of_config hconfig]
  by_cases hup : ∃ i < b.loadBalanceInterfacesNum.toNat, l.up (b.member i) = true
  · obtain ⟨y, hnext, hlt⟩ := hshort hup
    obtain ⟨a', hfound⟩ := hrotates.selectUp_found ha hnext hlt
    obtain ⟨-, halive⟩ := Bool.and_eq_true_iff.mp hnext.stops
    exact ⟨_, bind_of_ok hfound _, rightInterface_up (Nat.mod_lt y hpos) halive⟩
  · have hdown (i : Nat) (hi : i < b.loadBalanceInterfacesNum.toNat) :
        l.up (b.member i) = false :=
      Bool.eq_false_iff.mpr fun h => hup ⟨i, hi, h⟩
    obtain ⟨a', hnone⟩ := hrotates.selectUp_none ha hpos hdown (MAX_LOAD_BALANCE_NODE + 1)
    exact ⟨_, bind_of_ok hnone _, rightInterface_none hup⟩

/-- The round robin finds a member that is up in every round of the members. -/
theorem round_avoids (hreached : Reached netToHost b a t)
    (hmode : b.loadBalanceMode = LOAD_BALANCE_MODE_ROUND_ROBIN)
    (hpos : 0 < b.loadBalanceInterfacesNum.toNat)
    (hle : b.loadBalanceInterfacesNum.toNat ≤ MAX_INTERFACE_CNT) : Avoids netToHost l w b a t := by
  obtain ⟨hconfig, -⟩ := hreached.kept
  obtain ⟨x, hx⟩ := exists_standsRound hpos hconfig
  refine Rotates.avoids (fun fuel (_ : cycle [] ≤ fuel) => rotates_round hmode hpos fuel _)
    (.inl ((mode_of_config hconfig).trans hmode)) hconfig rfl hpos hx ?_
  rintro ⟨i, hi, hup⟩
  have hperiod (z : Nat) : upTurn (fun _ => true) l b.member b.loadBalanceInterfacesNum.toNat
      (z + b.loadBalanceInterfacesNum.toNat) =
        upTurn (fun _ => true) l b.member b.loadBalanceInterfacesNum.toNat z := by
    rw [upTurn, upTurn, Nat.add_mod_right]
  have hturn : upTurn (fun _ => true) l b.member b.loadBalanceInterfacesNum.toNat i = true := by
    rw [upTurn, Nat.mod_eq_of_lt hi, Bool.true_and]
    exact hup
  obtain ⟨y, hnext, hy⟩ := Rotor.exists_next hperiod hi hturn x
  refine ⟨y, hnext, ?_⟩
  have hbetween := @between_le (fun _ => true) x y
  have hmax : MAX_INTERFACE_CNT < MAX_LOAD_BALANCE_NODE := by decide
  have hlt := hnext.lt
  omega

/-- The places of a weighted balance. -/
theorem Weighted.reached_stands (h : Weighted weights more b) (hroom : HasRoom weights)
    (hdata : b.weightData = dataStored weights) (hreached : Reached netToHost b a t) :
    ∃ x, standsWeighted weights b a x := by
  induction hreached with
  | stored index t renewed =>
      obtain ⟨i, -, hbefore⟩ := h.weighing.before_stored index
      rw [← hdata] at hbefore
      exact ⟨cycle weights + i - 1, rfl, hbefore⟩
  | @packet a t fuel l w r reached call ih =>
      obtain ⟨hconfig, -⟩ := reached.kept
      have hmode := (mode_of_config hconfig).trans h.mode
      rw [loadBalanceInterfaces_retry (.inr hmode), num_of_config hconfig, h.num] at call
      obtain ⟨s, hs, hr⟩ := bind_ok call
      cases hr
      have hrotates := rotates_weighted h hroom (Nat.le_max_right fuel (cycle weights))
        (fillLoadBalanceData netToHost w)
      have hstep (c : Action) (r : Action × Nat) (hc : ∃ x, standsWeighted weights b c x)
          (hr : actionGetLoadBalanceIndex fuel c (fillLoadBalanceData netToHost w)
            weights.length = .ok r) :
          ∃ x, standsWeighted weights b r.1 x := by
        obtain ⟨x, hx⟩ := hc
        exact hrotates.stands_of_ok (Nat.le_max_left fuel (cycle weights)) hx hr
      exact selectUp_induct hstep ih hs

/-- A weighted balance finds a member that is up when the longest way to one is short. -/
theorem Weighted.avoids (h : Weighted weights more b) (hroom : HasRoom weights)
    (hdata : b.weightData = dataStored weights) (hreached : Reached netToHost b a t)
    (hle : weights.length ≤ MAX_INTERFACE_CNT)
    (hrun : (∃ i < weights.length, l.up (b.member i) = true) →
      deadRun weights l b.member ≤ MAX_LOAD_BALANCE_NODE) : Avoids netToHost l w b a t := by
  obtain ⟨hconfig, -⟩ := hreached.kept
  obtain ⟨x, hx⟩ := h.reached_stands hroom hdata hreached
  refine Rotates.avoids (fun fuel hfuel => rotates_weighted h hroom hfuel _)
    (.inr ((mode_of_config hconfig).trans h.mode)) hconfig h.num h.weighing.length_pos hx ?_
  intro hup
  obtain ⟨hlast, hlt, -⟩ := h.weighing.lastUp_spec hup
  obtain ⟨y, hnext, -⟩ := Rotor.exists_next upTurn_period hlt hlast x
  refine ⟨y, hnext, ?_⟩
  have hmax : MAX_INTERFACE_CNT < MAX_LOAD_BALANCE_NODE := by decide
  obtain hshort | hlong := h.weighing.between_lt hup hnext
  · omega
  · have hrun := hrun hup
    omega

/-- In the hash modes the table of the members that are up is made anew. -/
theorem hashed_avoids (hreached : Reached netToHost b a t) (hmode : IsHashMode b.loadBalanceMode)
    (hpos : 0 < b.loadBalanceInterfacesNum.toNat) : Avoids netToHost l w b a t := by
  obtain ⟨hconfig, hrenewed⟩ := hreached.kept
  have hmode' : IsHashMode a.loadBalanceMode := by
    rwa [mode_of_config hconfig]
  have hsame : hashedMember netToHost l a w = hashedMember netToHost l b w := by
    rw [← hashedMember_config l a, hconfig, hashedMember_config]
  refine ⟨0, fun fuel _ => ?_⟩
  obtain ⟨t', hcall⟩ := @loadBalanceInterfaces_hashed netToHost fuel l w a t hmode' hrenewed
  refine ⟨_, hcall, ?_⟩
  show RightInterface l b (hashedMember netToHost l a w)
  rw [hsame, hashedMember]
  have hindex (hash : Nat) {num : Nat} (hnum : 0 < num) : hashIndex hash num < num := by
    rw [hashIndex, if_neg (Nat.ne_of_gt hnum)]
    exact Nat.mod_lt hash hnum
  split
  next hup => exact rightInterface_up (hindex _ hpos) hup
  next =>
    by_cases hnil : upMembers l b = []
    · rw [hnil]
      refine rightInterface_none ?_
      rintro ⟨i, hi, hup⟩
      have hmem : b.member i ∈ upMembers l b :=
        List.mem_filter.mpr ⟨List.mem_map.mpr ⟨i, List.mem_range.mpr hi, rfl⟩, hup⟩
      rw [hnil] at hmem
      cases hmem
    · have hlt := hindex (hashOf b.loadBalanceMode (fillLoadBalanceData netToHost w))
        (List.length_pos_iff.mpr hnil)
      rw [List.getD_eq_getElem _ _ hlt]
      obtain ⟨hmem, hup⟩ := List.mem_filter.mp (List.getElem_mem hlt)
      obtain ⟨i, hi, heq⟩ := List.mem_map.mp hmem
      rw [← heq] at hup ⊢
      exact rightInterface_up (List.mem_range.mp hi) hup

/-! ## Rounds that are used up -/

/-- Every member is up. -/
def Links.allUp : Links := ⟨fun _ => true, fun _ => true⟩

/-- The state of the selector of an action. -/
def Action.withSelector (a : Action) (s : LoadBalanceWeight × UInt32) : Action :=
  { a with weightData := s.1, loadBalanceIndex := s.2 }

theorem reached_stored (hdata : b.weightData = dataStored weights) :
    Reached netToHost b (b.withSelector (dataStored weights, 0)) .zero := by
  rw [← hdata]
  exact .stored 0 .zero (.inl rfl)

/-- While all members are up, every packet is one selection. -/
theorem Weighted.reached_leads (h : Weighted weights more b) (w : OuterWdata)
    {s s' : LoadBalanceWeight × UInt32}
    (hreached : Reached netToHost b (b.withSelector s) t)
    (hleads : Relation.ReflTransGen (Leads (weightArray weights more) weights.length) s s') :
    Reached netToHost b (b.withSelector s') t := by
  induction hleads with
  | refl => exact hreached
  | @tail s s' _ hstep ih =>
      obtain ⟨fuel, hstep⟩ := hstep
      have hselect := ((h.of_config rfl : Weighted weights more (b.withSelector s)).select_iff
        (fillLoadBalanceData netToHost w)).mpr ⟨s', hstep, rfl⟩
      have hloop : selectUp fuel .allUp (fillLoadBalanceData netToHost w) weights.length
          (MAX_LOAD_BALANCE_NODE + 1) (b.withSelector s) =
            .ok (b.withSelector s', ((b.withSelector s').member s'.2.toNat).toNat) := by
        rw [selectUp]
        exact (bind_of_ok hselect _).trans (if_pos rfl)
      have hmode : (b.withSelector s).loadBalanceMode = LOAD_BALANCE_MODE_WRR := h.mode
      have hnum : (b.withSelector s).loadBalanceInterfacesNum.toNat = weights.length := h.num
      have hcall : loadBalanceInterfaces netToHost fuel .allUp w (b.withSelector s) t =
          .ok (b.withSelector s', t, ((b.withSelector s').member s'.2.toNat).toNat) := by
        rw [loadBalanceInterfaces_retry (.inr hmode), hnum]
        exact bind_of_ok hloop _
      exact ih.packet hcall

/-- Without room, some state is reached in which no selection comes back. -/
theorem Weighted.hasRoom_of_avoids (h : Weighted weights more b)
    (hdata : b.weightData = dataStored weights)
    (havoids : ∀ a t, Reached netToHost b a t → Avoids netToHost l w b a t) : HasRoom weights := by
  by_contra hroom
  obtain ⟨i, hi, hfirst⟩ := h.weighing.leads_stored more 0
  obtain ⟨y, hge, hlt, hturn, hstuck⟩ := h.weighing.last_stuck more hroom
  have hrest := h.weighing.leads more (show cycle weights + i ≤ y by omega)
    (fun z hz hzy hbad => succ_mod_ne_zero (by omega) (by omega) hbad.1) hturn
  have hreached : Reached netToHost b _ _ :=
    h.reached_leads w (reached_stored hdata) (.head hfirst hrest)
  obtain ⟨enough, hcalls⟩ := havoids _ _ hreached
  obtain ⟨r, hr, -⟩ := hcalls enough (Nat.le_refl enough)
  have hweighted : Weighted weights more (b.withSelector (dataAt weights y, indexAt weights y)) :=
    h.of_config rfl
  rw [loadBalanceInterfaces_retry (.inr hweighted.mode), hweighted.num, selectUp] at hr
  obtain ⟨s, hs, -⟩ := bind_ok hr
  obtain ⟨c, hc, -⟩ := bind_ok hs
  obtain ⟨s', hs', -⟩ := (hweighted.select_iff _).mp hc
  exact hstuck s' ⟨enough, hs'⟩

/-- From the last turn of a member that is up, a long way uses up the rounds. -/
theorem Weighted.deadRun_of_avoids (h : Weighted weights more b) (hroom : HasRoom weights)
    (hdata : b.weightData = dataStored weights)
    (hvalid : ∀ i < weights.length, b.member i ≠ 0)
    (havoids : ∀ a t, Reached netToHost b a t → Avoids netToHost l w b a t)
    (hup : ∃ i < weights.length, l.up (b.member i) = true) :
    deadRun weights l b.member ≤ MAX_LOAD_BALANCE_NODE := by
  by_contra hlong
  obtain ⟨i, hi, hfirst⟩ := h.weighing.leads_stored more 0
  obtain ⟨hlast, hlt, -⟩ := h.weighing.lastUp_spec hup
  have hnext := h.weighing.next_lastUp hup
  obtain ⟨y, hy⟩ : ∃ y, y = lastUp weights l b.member + 2 * cycle weights := ⟨_, rfl⟩
  obtain ⟨hturn, -⟩ := Bool.and_eq_true_iff.mp hlast
  rw [← shift_period turn_period 2, ← hy] at hturn
  have hcycle : weights.length ≤ cycle weights := Nat.le_mul_of_pos_right _ h.weighing.rows_pos
  have hrest := h.weighing.leads more (show cycle weights + i ≤ y by omega)
    (fun z _ _ hbad => hbad.2 hroom) hturn
  have hreached : Reached netToHost b _ _ :=
    h.reached_leads w (reached_stored hdata) (.head hfirst hrest)
  obtain ⟨enough, hcalls⟩ := havoids _ _ hreached
  obtain ⟨r, hr, hright⟩ := hcalls (enough + cycle weights) (Nat.le_add_right ..)
  have hweighted : Weighted weights more (b.withSelector (dataAt weights y, indexAt weights y)) :=
    h.of_config rfl
  have hrotates := rotates_weighted h hroom (Nat.le_add_left (cycle weights) enough)
    (fillLoadBalanceData netToHost w)
  have hstands : standsWeighted weights b
      (b.withSelector (dataAt weights y, indexAt weights y)) y :=
    ⟨rfl, h.weighing.before_at fun hbad => hbad.2 hroom⟩
  have hdown (z : Nat) (hz : y < z)
      (hzy : z < cycle weights + firstUp weights l b.member + 2 * cycle weights) :
      upTurn (turn weights) l b.member weights.length z = false := by
    have hskip := hnext.skips (z - 2 * cycle weights) (by omega) (by omega)
    rwa [← shift_period upTurn_period 2, Nat.sub_add_cancel (by omega)] at hskip
  have hbetween : MAX_LOAD_BALANCE_NODE + 1 ≤ between (turn weights) y
      (cycle weights + firstUp weights l b.member + 2 * cycle weights) := by
    rw [hy, between_period turn_period]
    exact Nat.lt_of_not_le hlong
  obtain ⟨a', hmissed⟩ := hrotates.selectUp_missed hstands hdown hbetween
  rw [loadBalanceInterfaces_retry (.inr hweighted.mode), hweighted.num] at hr
  rw [hmissed] at hr
  obtain rfl := Except.ok.inj hr
  rw [RightInterface, if_pos (by rwa [h.num])] at hright
  obtain ⟨j, hj, -, hzero⟩ := hright
  rw [h.num] at hj
  exact hvalid j hj (UInt8.toNat_inj.mp hzero.symm)
/-! ## Accepted actions -/

variable {env : Env} {id : Int} {data : Json}

/-- A weighted balance has positive weights with room in an `int`, and at most 64 turns lie
between the last turn of a member that is up and the first one in the next cycle. -/
def ShortRuns (l : Links) (b : Action) : Prop :=
  b.loadBalanceMode = LOAD_BALANCE_MODE_WRR → ∃ weights : List Nat,
    b.loadBalanceWeight.take b.loadBalanceInterfacesNum.toNat =
      weights.map (fun (w : Nat) => (w : Int)) ∧
    (∀ w ∈ weights, 0 < w) ∧ HasRoom weights ∧
    ((∃ i < weights.length, l.up (b.member i) = true) →
      deadRun weights l b.member ≤ MAX_LOAD_BALANCE_NODE)

theorem Submits.member_ne_zero {mode : Nat} {ids : List Nat} {ws : List Int}
    {additional : AdditionalActions} (h : Submits env data mode ids ws)
    (ha : a = submittedAction mode ids ws additional) {i : Nat} (hi : i < ids.length) :
    a.member i ≠ 0 := by
  have hmember : a.member i = UInt8.ofNat ids[i] := by
    rw [ha]
    show (ids.map UInt8.ofNat ++ _).getD i 0 = _
    rw [List.getD_append _ _ _ _ (by rwa [List.length_map]),
      List.getD_eq_getElem _ _ (by rwa [List.length_map]), List.getElem_map]
  have hvalid := h.ids_valid _ (List.getElem_mem hi)
  intro hzero
  have hnat := hvalid.toNat_ofNat
  rw [← hmember, hzero] at hnat
  exact Nat.ne_of_gt hvalid.1 hnat.symm

theorem stored_eq (h : a.stored = some b) :
    ∃ d, b = { a with weightData := d, refCounter := a.refCounter + 1 } := by
  rw [Action.stored] at h
  split at h
  next =>
    obtain ⟨r, -, h⟩ := Option.bind_eq_some_iff.mp h
    exact ⟨⟨0, r.1, r.2⟩, (Option.some.inj h).symm⟩
  next => exact ⟨a.weightData, (Option.some.inj h).symm⟩

/-- A stored balance whose weights are positive is a weighted one. -/
theorem Submits.weighted {ids : List Nat} {ws : List Int} {additional : AdditionalActions}
    (h : Submits env data 2 ids ws) (ha : a = submittedAction 2 ids ws additional)
    (hstored : a.stored = some b)
    (htake : b.loadBalanceWeight.take b.loadBalanceInterfacesNum.toNat =
      weights.map fun (w : Nat) => (w : Int)) (hpos : ∀ w ∈ weights, 0 < w) :
    weights.length = ids.length ∧ b.weightData = dataStored weights ∧
      ∃ more, Weighted weights more b := by
  obtain ⟨d, rfl⟩ := stored_eq hstored
  have hlen : ws.length = ids.length := h.length
  have hcast : ws.map cInt = weights.map fun (w : Nat) => (w : Int) := by
    rw [← htake, ha]
    show _ = (ws.map cInt ++ _).take (UInt8.ofNat ids.length).toNat
    rw [h.toNat_num, List.take_left' ((List.length_map _).trans hlen)]
  obtain ⟨hweighing, hcount, more, harray, hstored'⟩ := h.stored hcast hpos ha
  have hdata := congrArg Action.weightData (Option.some.inj (hstored.symm.trans hstored'))
  refine ⟨hcount, hdata, more, hweighing, ?_, ?_, harray⟩
  · show a.loadBalanceMode = _
    rw [ha]
    exact submittedAction_mode.mpr rfl
  · show a.loadBalanceInterfacesNum.toNat = _
    rw [ha, hcount]
    exact h.toNat_num

/-- An accepted load balance gives every packet a member that is up, or none if there is none,
in every state, when its runs are short. With positive weights in the store, this is also
necessary. -/
theorem avoids_dead_members
    (h : transDictToActionStruct env id data resetActionConfigStruct = .ok a)
    (htype : a.type = ACTION_TYPE_LOAD_BALANCE_INTERFACES) (hstored : a.stored = some b)
    (netToHost : UInt64 → UInt64) (l : Links) :
    (ShortRuns l b → ∀ c t, Reached netToHost b c t → ∀ w, Avoids netToHost l w b c t) ∧
    ((b.loadBalanceMode = LOAD_BALANCE_MODE_WRR →
        ∀ v ∈ b.loadBalanceWeight.take b.loadBalanceInterfacesNum.toNat, 0 < v) →
      (∀ c t, Reached netToHost b c t → ∀ w, Avoids netToHost l w b c t) → ShortRuns l b) := by
  obtain ⟨mode, ids, ws, additional, hsubmits, ha⟩ := accepted_balance h htype
  obtain ⟨d, hb⟩ := stored_eq hstored
  have hids := List.length_pos_iff.mpr hsubmits.ids_ne_nil
  have hle := hsubmits.ids_length
  have hnum : b.loadBalanceInterfacesNum.toNat = ids.length := by
    rw [hb, ha]
    exact hsubmits.toNat_num
  have hmode : b.loadBalanceMode = mode := by
    rw [hb, ha]
    rfl
  have hvalid (i : Nat) (hi : i < ids.length) : b.member i ≠ 0 := by
    rw [hb]
    exact hsubmits.member_ne_zero ha hi
  constructor
  · intro hshort c t hreached w
    have hpos := hsubmits.mode_pos
    have hlt : mode < 6 := hsubmits.mode_lt
    obtain rfl | rfl | hhash : mode = 1 ∨ mode = 2 ∨ 3 ≤ mode := by omega
    · exact round_avoids hreached hmode (by omega) (by omega)
    · obtain ⟨weights, htake, hwpos, hroom, hrun⟩ := hshort hmode
      obtain ⟨hcount, hdata, more, hweighted⟩ := hsubmits.weighted ha hstored htake hwpos
      exact hweighted.avoids hroom hdata hreached (by omega) hrun
    · refine hashed_avoids hreached ?_ (by omega)
      rw [hmode]
      obtain rfl | rfl | rfl : mode = 3 ∨ mode = 4 ∨ mode = 5 := by omega
      · exact .inl rfl
      · exact .inr (.inl rfl)
      · exact .inr (.inr rfl)
  · intro hpositive havoids hwrr
    obtain rfl : mode = 2 := by
      rw [hmode] at hwrr
      exact Int.ofNat_inj.mp hwrr
    obtain ⟨weights, htake, hwpos⟩ := exists_nat_weights (hpositive hwrr)
    obtain ⟨hcount, hdata, more, hweighted⟩ := hsubmits.weighted ha hstored htake hwpos
    have hroom := hweighted.hasRoom_of_avoids (w := ⟨0, ⟨0, 0⟩, ⟨0, 0⟩⟩) hdata
      fun c t hreached => havoids c t hreached _
    refine ⟨weights, htake, hwpos, hroom, fun hup => ?_⟩
    exact hweighted.deadRun_of_avoids (w := ⟨0, ⟨0, 0⟩, ⟨0, 0⟩⟩) hroom hdata
      (fun i hi => hvalid i (by omega)) (fun c t hreached => havoids c t hreached _) hup

/-- Interface 1 is down. -/
def firstDown : Links := ⟨fun _ => true, fun i => i ≠ 1⟩

/-- The balance of the sample body avoids its heavier member. -/
theorem avoids_dead_members_balance : ∃ a b,
    transDictToActionStruct fourPorts 1 balanceBody resetActionConfigStruct = .ok a ∧
      a.stored = some b ∧
      ∀ c t, Reached swapBytes b c t → ∀ w, Avoids swapBytes firstDown w b c t := by
  let additional : AdditionalActions :=
    { resetActionConfigStruct.additionalActions with
      flagVxlanEncapsulation := true
      vxlan := ⟨[2, 0, 0, 0, 0, 10], 4, [10, 0, 0, 1] ++ .replicate 12 0, 0⟩
      vxlanDport := htons 4789 }
  have haccepted : transDictToActionStruct fourPorts 1 balanceBody resetActionConfigStruct =
      .ok (submittedAction 2 [1, 3] [2, 1] additional) :=
    of_acceptedAs (by decide +kernel)
  refine ⟨_, _, haccepted, rfl, (avoids_dead_members haccepted rfl rfl swapBytes firstDown).1 ?_⟩
  intro _
  exact ⟨[2, 1], rfl, by decide, by decide, fun _ => by decide +kernel⟩

/-- A heavy member and a light one. -/
def unevenBody : Json :=
  .object
    [(py "basis_actions", .object
      [(py "type", .str (py "load_balance")), (py "load_balance_mode", .str (py "wrr")),
        (py "load_balance_weight", .str (py "100:1")),
        (py "interfaces", .array [.str (py "G1"), .str (py "G3")])])]

/-- When the heavy member is down, some packet gets no interface although the light one is up. -/
theorem uneven_misses : ∃ a b,
    transDictToActionStruct fourPorts 1 unevenBody resetActionConfigStruct = .ok a ∧
      a.stored = some b ∧
      ∃ c t w, Reached swapBytes b c t ∧ ¬Avoids swapBytes firstDown w b c t := by
  refine ⟨submittedAction 2 [1, 3] [100, 1] resetActionConfigStruct.additionalActions, _,
    of_acceptedAs (by decide +kernel), rfl, ?_⟩
  by_contra havoids
  have hweighted : Weighted [100, 1] (.replicate 62 0)
      { submittedAction 2 [1, 3] [100, 1] resetActionConfigStruct.additionalActions with
        weightData := dataStored [100, 1]
        refCounter := 1 } :=
    ⟨⟨by decide, by decide, by decide, by decide⟩, rfl, rfl, rfl⟩
  simp only [not_exists, not_and, not_not] at havoids
  have hrun := hweighted.deadRun_of_avoids (by decide) rfl (by decide)
    (fun c t hreached => havoids c t ⟨0, ⟨0, 0⟩, ⟨0, 0⟩⟩ hreached) ⟨1, by decide, rfl⟩
  exact absurd hrun (by decide +kernel)

end Tapplet.Actions
