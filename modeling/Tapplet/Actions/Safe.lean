import Tapplet.Actions.RoundTrip
import Tapplet.Actions.Fair

/-!
# The arithmetic of an accepted load balance

The weights of a request are Python numbers of any size. They are stored as `c_int`, and the
selector adds their divisor to a running weight in an `int`. All of this is exact if and only if
the greatest weight and the divisor together are an `int`.
-/

namespace Tapplet.Actions

open Rest Fallible

/-! ## What a body submits -/

/-- The members of `basis_actions`. -/
def basisActions (data : Json) : Dict PyStr Json :=
  match data with
  | .object members =>
      match (Dict.ofEntries members).get? (py "basis_actions") with
      | some (.object basis) => Dict.ofEntries basis
      | _ => []
  | _ => []

/-- The names of the interfaces. -/
def submittedInterfaces (data : Json) : List Json :=
  match (basisActions data).get? (py "interfaces") with
  | some (.array names) => names
  | _ => []

/-- The texts of the weights. Only `wrr` has weights. -/
def submittedWeights (data : Json) : List PyStr :=
  if isStr (((basisActions data).get? (py "load_balance_mode")).getD (.str [])) "wrr" then
    match (basisActions data).get? (py "load_balance_weight") with
    | some (.str text) => text.splitOn 58
    | _ => []
  else []

variable {env : Env} {id : Int} {data : Json} {a b : Action}

/-- The numbers of an accepted load balance, as they are submitted. -/
structure Submits (env : Env) (data : Json) (mode : Nat) (ids : List Nat) (ws : List Int) :
    Prop where
  mode_pos : 0 < mode
  mode_lt : mode < loadBalanceModes.length
  ids_ne_nil : ids ≠ []
  ids_length : ids.length ≤ MAX_INTERFACE_CNT
  ids_valid : ∀ i ∈ ids, ValidInterface env i
  names : (submittedInterfaces data).mapM (transInterfaceNameToIndex env) = .ok ids
  texts : (submittedWeights data).mapM (intStr env) = .ok ws
  length : ws.length = if mode = 2 then ids.length else 0
  pos : ∀ w ∈ ws, 0 < w

/-- What is stored for these numbers, with the encapsulations of the action. -/
def submittedAction (mode : Nat) (ids : List Nat) (ws : List Int)
    (additional : AdditionalActions) : Action :=
  { resetActionConfigStruct with
    additionalActions := additional
    type := ACTION_TYPE_LOAD_BALANCE_INTERFACES
    loadBalanceMode := mode
    loadBalanceWeight := ws.map cInt ++ .replicate (MAX_LOAD_BALANCE_NODE - ws.length) 0
    loadBalanceInterfaceArray := ids.map UInt8.ofNat ++
      .replicate (MAX_INTERFACE_CNT - ids.length) 0
    loadBalanceInterfacesNum := .ofNat ids.length }

theorem readInterface_index {name : Json} {i : Nat} (h : readInterface env id name = .ok i) :
    transInterfaceNameToIndex env name = .ok i := by
  rw [readInterface] at h
  obtain ⟨j, hj, h⟩ := bind_ok h
  split at h
  next => cases h
  next =>
    cases h
    exact raises_ok.mp hj

/-- The weights that are read are positive numbers. -/
theorem readWeights_int {texts : List PyStr} {ws : List Int}
    (h : texts.mapM (readWeight env id) = .ok ws) :
    texts.mapM (intStr env) = .ok ws ∧ ∀ w ∈ ws, 0 < w := by
  have hread := mapM_ok.mp h
  refine ⟨mapM_ok.mpr (hread.imp fun _ _ h => (readWeight_ok h).2), ?_⟩
  clear h
  induction hread with
  | nil => exact nofun
  | cons h _ ih => exact List.forall_mem_cons.mpr ⟨(readWeight_ok h).1, ih⟩

theorem ReadsBalance.submits {members basis : List (PyStr × Json)}
    (hbasis : (Dict.ofEntries members).get? (py "basis_actions") = some (.object basis))
    (h : ReadsBalance env id (Dict.ofEntries basis) a) :
    ∃ mode ids ws, Submits env (.object members) mode ids ws ∧
      a = submittedAction mode ids ws resetActionConfigStruct.additionalActions := by
  obtain ⟨names, ids, b, array, hnames, hids, hne, hmode, hb, harray, rfl⟩ := h
  obtain ⟨-, hvalid⟩ := readInterfaces_ok hids
  obtain ⟨m, ws, hpos, hlt, hwrr, hread, rfl⟩ := basicLoadBalance_read hmode hb
  obtain ⟨hle, rfl⟩ := addArrayValue_ok harray
  rw [List.length_map] at hle
  have hdict : basisActions (.object members) = Dict.ofEntries basis := by
    simp only [basisActions, hbasis]
  have hindices : (submittedInterfaces (.object members)).mapM (transInterfaceNameToIndex env) =
      .ok ids := by
    rw [submittedInterfaces, hdict, hnames]
    exact mapM_ok.mpr ((mapM_ok.mp hids).imp fun _ _ h => readInterface_index h)
  have hweights : (submittedWeights (.object members)).mapM (intStr env) = .ok ws ∧
      ws.length = (if m = 2 then ids.length else 0) ∧ ∀ w ∈ ws, 0 < w := by
    rw [submittedWeights, hdict]
    rw [ReadsWeights] at hread
    split at hread
    next htwo =>
      obtain ⟨text, htext, hlen, hws⟩ := hread
      have hget : (Dict.ofEntries basis).get? (py "load_balance_weight") = some (.str text) := by
        cases h : (Dict.ofEntries basis).get? (py "load_balance_weight") with
        | none =>
            rw [h] at htext
            cases htext
        | some weight =>
            rw [h] at htext
            exact congrArg some htext
      obtain ⟨hints, hpos⟩ := readWeights_int hws
      rw [if_pos (hwrr.mpr htwo), hget, if_pos htwo]
      refine ⟨hints, ?_, hpos⟩
      exact (mapM_ok.mp hws).length_eq.symm.trans hlen
    next htwo =>
      subst hread
      rw [if_neg (mt hwrr.mp htwo), if_neg htwo]
      exact ⟨rfl, rfl, fun _ hw => absurd hw List.not_mem_nil⟩
  obtain ⟨htexts, hlen, hwpos⟩ := hweights
  refine ⟨m, ids, ws, ⟨hpos, hlt, hne, hle, hvalid, hindices, htexts, hlen, hwpos⟩, ?_⟩
  rw [List.length_map, submittedAction, ← List.drop_replicate (n := MAX_INTERFACE_CNT)]
  rfl

/-- An accepted load balance is what is stored for the submitted numbers. -/
theorem accepted_balance (h : transDictToActionStruct env id data resetActionConfigStruct = .ok a)
    (htype : a.type = ACTION_TYPE_LOAD_BALANCE_INTERFACES) :
    ∃ mode ids ws additional, Submits env data mode ids ws ∧
      a = submittedAction mode ids ws additional := by
  obtain ⟨members, basis, b, rfl, hget, hb, hcases⟩ := transDictToActionStruct_cases h
  have hsame : a.type = b.type ∧ ∃ additional, a = { b with additionalActions := additional } := by
    obtain rfl | ⟨-, additional, -, rfl⟩ := hcases
    · exact ⟨rfl, a.additionalActions, rfl⟩
    · exact ⟨rfl, additional, rfl⟩
  obtain ⟨hkind, additional, rfl⟩ := hsame
  obtain rfl | ⟨i, valid, rfl⟩ | ⟨entries, rfl, hread⟩ := basicActions_cases hb
  · cases htype
  · cases htype
  · obtain ⟨mode, ids, ws, hsubmits, rfl⟩ := hread.submits hget
    exact ⟨mode, ids, ws, additional, hsubmits, rfl⟩

/-! ## Selections that go on -/

/-- However many calls there are, enough rounds let all of them return. -/
def GoesOn (weight : List Int) (num : Nat) (s : LoadBalanceWeight × UInt32) : Prop :=
  ∀ calls, ∃ fuel picks, weightIndices weight num fuel calls s.1 s.2 = .ok picks

theorem weightIndices_succ {weight : List Int} {num fuel calls : Nat} {data : LoadBalanceWeight}
    {index : UInt32} {picks : List Nat}
    (h : weightIndices weight num fuel (calls + 1) data index = .ok picks) :
    ∃ s rest, loadBalanceGetWeightIndex weight num fuel data index = .ok s ∧
      weightIndices weight num fuel calls s.1 s.2 = .ok rest ∧ picks = s.2.toNat :: rest := by
  rw [weightIndices] at h
  obtain ⟨s, hs, h⟩ := bind_ok h
  obtain ⟨rest, hrest, h⟩ := bind_ok h
  cases h
  exact ⟨s, rest, hs, hrest, rfl⟩

theorem GoesOn.leads {weight : List Int} {num : Nat} {s s' : LoadBalanceWeight × UInt32}
    (h : GoesOn weight num s) (hleads : Relation.ReflTransGen (Leads weight num) s s') :
    GoesOn weight num s' := by
  induction hleads with
  | refl => exact h
  | tail _ hstep ih =>
      intro calls
      obtain ⟨fuel, picks, hpicks⟩ := ih (calls + 1)
      obtain ⟨r, rest, hr, hrest, -⟩ := weightIndices_succ hpicks
      obtain ⟨fuel', hstep⟩ := hstep
      obtain rfl := search_unique hr hstep
      exact ⟨fuel, rest, hrest⟩

/-- Exactly with room the selections after storing go on for ever. -/
theorem Weighing.goesOn_iff {weights : List Nat} (h : Weighing weights) (more : List Int)
    (index : UInt32) :
    GoesOn (weightArray weights more) weights.length (dataStored weights, index) ↔
      HasRoom weights := by
  constructor
  · intro hgoes
    by_contra hroom
    obtain ⟨i, hi, hfirst⟩ := h.leads_stored more index
    obtain ⟨y, hge, hlt, hturn, hstuck⟩ := h.last_stuck more hroom
    have hrest := h.leads more (show cycle weights + i ≤ y by omega)
      (fun z hz hzy hbad => succ_mod_ne_zero (by omega) (by omega) hbad.1) hturn
    obtain ⟨fuel, picks, hpicks⟩ := hgoes.leads (.head hfirst hrest) 1
    obtain ⟨s, -, hs, -⟩ := weightIndices_succ hpicks
    exact hstuck s ⟨fuel, hs⟩
  · intro hroom calls
    obtain ⟨i, -, hbefore⟩ := h.before_stored index
    obtain ⟨places, -, -, hrun⟩ := h.run more hroom (Nat.le_refl _) calls hbefore
    exact ⟨_, _, hrun⟩

/-! ## Safe arithmetic -/

/-- The numbers are stored as they are submitted, storing does not divide by 0, and no addition
of the selector overflows however often it is called. -/
structure ArithmeticSafe (env : Env) (data : Json) (a : Action) : Prop where
  weights : (submittedWeights data).mapM (intStr env) = .ok (a.loadBalanceWeight.take
    (if a.loadBalanceMode = LOAD_BALANCE_MODE_WRR then a.loadBalanceInterfacesNum.toNat else 0))
  interfaces : (submittedInterfaces data).mapM (transInterfaceNameToIndex env) =
    .ok ((a.loadBalanceInterfaceArray.take a.loadBalanceInterfacesNum.toNat).map UInt8.toNat)
  divides : ∃ b, a.stored = some b
  selects : ∀ b, a.stored = some b → b.loadBalanceMode = LOAD_BALANCE_MODE_WRR →
    GoesOn b.loadBalanceWeight b.loadBalanceInterfacesNum.toNat (b.weightData, b.loadBalanceIndex)

/-- The greatest of the submitted weights and their divisor are together an `int`. -/
def WeightsHaveRoom (env : Env) (data : Json) : Prop :=
  ∀ ws : List Nat, (submittedWeights data).mapM (intStr env) =
    .ok (ws.map fun (w : Nat) => (w : Int)) → HasRoom ws

theorem Submits.toNat_num {mode : Nat} {ids : List Nat} {ws : List Int}
    (h : Submits env data mode ids ws) : (UInt8.ofNat ids.length).toNat = ids.length := by
  have hle := h.ids_length
  have hmax : MAX_INTERFACE_CNT = 63 := rfl
  rw [UInt8.toNat_ofNat']
  exact Nat.mod_eq_of_lt (by omega)

theorem Submits.interfaces {mode : Nat} {ids : List Nat} {ws : List Int}
    {additional : AdditionalActions} (h : Submits env data mode ids ws) :
    (((submittedAction mode ids ws additional).loadBalanceInterfaceArray.take
      (submittedAction mode ids ws additional).loadBalanceInterfacesNum.toNat).map
        UInt8.toNat) = ids := by
  show (((ids.map UInt8.ofNat ++ _).take (UInt8.ofNat ids.length).toNat).map UInt8.toNat) = ids
  rw [h.toNat_num, List.take_left' (List.length_map _), List.map_map]
  exact (List.map_congr_left fun i hi => (h.ids_valid i hi).toNat_ofNat).trans (List.map_id _)

theorem submittedAction_mode {mode : Nat} {ids : List Nat} {ws : List Int}
    {additional : AdditionalActions} :
    (submittedAction mode ids ws additional).loadBalanceMode = LOAD_BALANCE_MODE_WRR ↔
      mode = 2 := by
  show (mode : Int) = 2 ↔ _
  omega

/-- Positive numbers are natural numbers. -/
theorem exists_nat_weights {ws : List Int} (hpos : ∀ w ∈ ws, 0 < w) :
    ∃ weights : List Nat, ws = weights.map (fun (w : Nat) => (w : Int)) ∧
      ∀ w ∈ weights, 0 < w := by
  refine ⟨ws.map Int.toNat, ?_, ?_⟩
  · rw [List.map_map]
    refine ((List.map_congr_left fun w hw => ?_).trans (List.map_id ws)).symm
    exact Int.toNat_of_nonneg (Int.le_of_lt (hpos w hw))
  · intro n hn
    obtain ⟨w, hw, rfl⟩ := List.mem_map.mp hn
    have hw := hpos w hw
    omega

theorem cInt_eq_iff {w : Nat} (hpos : 0 < w) : cInt w = w ↔ w < 2 ^ 31 := by
  rw [cInt, Int.bmod_def]
  omega

theorem map_cInt_eq_iff {weights : List Nat} (hpos : ∀ w ∈ weights, 0 < w) :
    (weights.map fun (w : Nat) => (w : Int)).map cInt = weights.map (fun (w : Nat) => (w : Int)) ↔
      ∀ w ∈ weights, w < 2 ^ 31 := by
  induction weights with
  | nil => exact ⟨fun _ => nofun, fun _ => rfl⟩
  | cons w weights ih =>
      obtain ⟨hw, hrest⟩ := List.forall_mem_cons.mp hpos
      rw [List.map_cons, List.map_cons, List.cons.injEq, ih hrest, cInt_eq_iff hw,
        List.forall_mem_cons]

theorem lt_of_map_cInt {ws : List Int} {weights : List Nat}
    (h : ws.map cInt = weights.map fun (w : Nat) => (w : Int)) : ∀ w ∈ weights, w < 2 ^ 31 := by
  intro w hw
  have hmem : (w : Int) ∈ ws.map cInt := by
    rw [h]
    exact List.mem_map.mpr ⟨w, hw, rfl⟩
  obtain ⟨v, -, hv⟩ := List.mem_map.mp hmem
  have hlt : cInt v < 2 ^ 31 := Int.bmod_lt (by decide)
  rw [hv] at hlt
  exact_mod_cast hlt

/-- When what is stored of the weights is positive, their divisor and maximum are computed. -/
theorem Submits.stored {ids weights : List Nat} {ws : List Int} {additional : AdditionalActions}
    (h : Submits env data 2 ids ws) (hcast : ws.map cInt = weights.map fun (w : Nat) => (w : Int))
    (hpos : ∀ w ∈ weights, 0 < w) (ha : a = submittedAction 2 ids ws additional) :
    Weighing weights ∧ weights.length = ids.length ∧ ∃ more,
      a.loadBalanceWeight = weightArray weights more ∧
      a.stored = some { a with
        weightData := dataStored weights
        refCounter := a.refCounter + 1 } := by
  have hcount := congrArg List.length hcast
  rw [List.length_map, List.length_map] at hcount
  have hlen : weights.length = ids.length := hcount.symm.trans h.length
  have hne : weights ≠ [] := by
    apply List.ne_nil_of_length_pos
    rw [hlen]
    exact List.length_pos_iff.mpr h.ids_ne_nil
  have hle := h.ids_length
  have hmax : MAX_INTERFACE_CNT = 63 := rfl
  have harray : a.loadBalanceWeight =
      weightArray weights (.replicate (MAX_LOAD_BALANCE_NODE - weights.length) 0) := by
    rw [ha, ← hcount]
    show ws.map cInt ++ _ = _
    rw [hcast]
    rfl
  have hnum : a.loadBalanceInterfacesNum.toNat = weights.length := by
    rw [ha]
    exact h.toNat_num.trans hlen.symm
  have hmode : a.loadBalanceMode = LOAD_BALANCE_MODE_WRR := by
    rw [ha]
    exact submittedAction_mode.mpr rfl
  exact ⟨⟨hne, hpos, lt_of_map_cInt hcast, by omega⟩, hlen, _, harray,
    stored_weighted hmode hnum harray hne hpos⟩

/-- An accepted load balance is safe if and only if its weights have room in an `int`. -/
theorem accepted_arithmetic_safe_iff
    (h : transDictToActionStruct env id data resetActionConfigStruct = .ok a)
    (htype : a.type = ACTION_TYPE_LOAD_BALANCE_INTERFACES) :
    ArithmeticSafe env data a ↔ WeightsHaveRoom env data := by
  obtain ⟨mode, ids, ws, additional, hsubmits, ha⟩ := accepted_balance h htype
  have hmode : a.loadBalanceMode = LOAD_BALANCE_MODE_WRR ↔ mode = 2 := by
    rw [ha]
    exact submittedAction_mode
  have hinterfaces : (submittedInterfaces data).mapM (transInterfaceNameToIndex env) =
      .ok ((a.loadBalanceInterfaceArray.take a.loadBalanceInterfacesNum.toNat).map
        UInt8.toNat) := by
    rw [ha, hsubmits.interfaces]
    exact hsubmits.names
  by_cases htwo : mode = 2
  · subst htwo
    obtain ⟨weights, rfl, hpos⟩ := exists_nat_weights hsubmits.pos
    constructor
    · intro hsafe ws htexts
      have hsame := Except.ok.inj (hsubmits.texts.symm.trans htexts)
      obtain rfl : weights = ws :=
        List.map_injective_iff.mpr (fun _ _ h => Int.ofNat_inj.mp h) hsame
      have hnum : a.loadBalanceInterfacesNum.toNat = weights.length := by
        rw [ha]
        exact hsubmits.toNat_num.trans (hsubmits.length.symm.trans (List.length_map _))
      have htake : a.loadBalanceWeight.take weights.length =
          (weights.map fun (w : Nat) => (w : Int)).map cInt := by
        rw [ha]
        exact List.take_left' ((List.length_map _).trans (List.length_map _))
      have hweights := hsafe.weights
      rw [if_pos (hmode.mpr rfl), hnum, htake] at hweights
      have hcInt := Except.ok.inj (hweights.symm.trans htexts)
      obtain ⟨hweighing, -, more, harray, hstored⟩ :=
        hsubmits.stored hcInt hpos ha
      have hgoes := hsafe.selects _ hstored (hmode.mpr rfl)
      dsimp only at hgoes
      rw [harray, hnum] at hgoes
      exact (hweighing.goesOn_iff more _).mp hgoes
    · intro hroom
      have hroom := hroom weights hsubmits.texts
      have hfit (w : Nat) (hw : w ∈ weights) : w < 2 ^ 31 :=
        Nat.lt_of_le_of_lt ((le_maxOf hw).trans (Nat.le_add_right ..)) hroom
      obtain ⟨hweighing, hlen, more, harray, hstored⟩ :=
        hsubmits.stored ((map_cInt_eq_iff hpos).mpr hfit) hpos ha
      have hnum : a.loadBalanceInterfacesNum.toNat = weights.length := by
        rw [ha]
        exact hsubmits.toNat_num.trans hlen.symm
      refine ⟨?_, hinterfaces, ⟨_, hstored⟩, fun b hb _ => ?_⟩
      · rw [if_pos (hmode.mpr rfl), hnum, harray, weightArray, List.take_left' (List.length_map _)]
        exact hsubmits.texts
      · obtain rfl := Option.some.inj (hstored.symm.trans hb)
        show GoesOn a.loadBalanceWeight a.loadBalanceInterfacesNum.toNat (dataStored weights, _)
        rw [harray, hnum]
        exact (hweighing.goesOn_iff more _).mpr hroom
  · have hnil : ws = [] := by
      apply List.length_eq_zero_iff.mp
      rw [hsubmits.length, if_neg htwo]
    subst hnil
    have hnot := mt hmode.mp htwo
    constructor
    · intro _ ws htexts
      obtain rfl := List.map_eq_nil_iff.mp (Except.ok.inj (hsubmits.texts.symm.trans htexts)).symm
      decide
    · intro _
      have hstored : a.stored = some { a with refCounter := a.refCounter + 1 } := by
        rw [Action.stored, if_neg hnot]
        rfl
      refine ⟨?_, hinterfaces, ⟨_, hstored⟩, fun b hb hwrr => ?_⟩
      · rw [if_neg hnot]
        exact hsubmits.texts
      · obtain rfl := Option.some.inj (hstored.symm.trans hb)
        exact absurd hwrr hnot

/-- Whether a body is accepted as this action. -/
def acceptedAs (r : Except Fault Action) (a : Action) : Bool :=
  match r with
  | .ok b => decide (b = a)
  | .error _ => false

theorem of_acceptedAs {r : Except Fault Action} (h : acceptedAs r a = true) : r = .ok a := by
  unfold acceptedAs at h
  split at h
  next b => exact congrArg Except.ok (of_decide_eq_true h)
  next => cases h

/-- The weights of the sample body have room. -/
theorem accepted_arithmetic_safe_balance : ∃ a,
    transDictToActionStruct fourPorts 1 balanceBody resetActionConfigStruct = .ok a ∧
      a.type = ACTION_TYPE_LOAD_BALANCE_INTERFACES ∧ ArithmeticSafe fourPorts balanceBody a := by
  let additional : AdditionalActions :=
    { resetActionConfigStruct.additionalActions with
      flagVxlanEncapsulation := true
      vxlan := ⟨[2, 0, 0, 0, 0, 10], 4, [10, 0, 0, 1] ++ .replicate 12 0, 0⟩
      vxlanDport := htons 4789 }
  have haccepted : transDictToActionStruct fourPorts 1 balanceBody resetActionConfigStruct =
      .ok (submittedAction 2 [1, 3] [2, 1] additional) :=
    of_acceptedAs (by decide +kernel)
  refine ⟨_, haccepted, rfl, (accepted_arithmetic_safe_iff haccepted rfl).mpr ?_⟩
  intro ws hws
  have hread : (submittedWeights balanceBody).mapM (intStr fourPorts) = .ok [2, 1] := by
    decide +kernel
  have hmap := Except.ok.inj (hws.symm.trans hread)
  obtain rfl : ws = [2, 1] := List.map_injective_iff.mpr (fun _ _ h => Int.ofNat_inj.mp h) hmap
  decide

/-- One interface with the greatest weight that a `c_int` takes. -/
def heaviestBody : Json :=
  .object
    [(py "basis_actions", .object
      [(py "type", .str (py "load_balance")), (py "load_balance_mode", .str (py "wrr")),
        (py "load_balance_weight", .str (py "2147483647")),
        (py "interfaces", .array [.str (py "G1")])])]

/-- The body is accepted, and the second selection overflows. -/
theorem heaviest_overflows :
    transDictToActionStruct fourPorts 1 heaviestBody resetActionConfigStruct =
      .ok (submittedAction 2 [1] [2147483647] resetActionConfigStruct.additionalActions) ∧
    ¬ArithmeticSafe fourPorts heaviestBody
      (submittedAction 2 [1] [2147483647] resetActionConfigStruct.additionalActions) := by
  refine ⟨of_acceptedAs (by decide +kernel), fun hsafe => ?_⟩
  have hweighing : Weighing [2147483647] := ⟨by decide, by decide, by decide, by decide⟩
  have hgoes := hsafe.selects _ rfl rfl
  exact absurd ((hweighing.goesOn_iff _ 0).mp hgoes) (by decide)

end Tapplet.Actions
