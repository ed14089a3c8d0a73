import Tapplet.Actions.Fields

/-!
# What an action does

An accepted body asks for one of three treatments of a packet and for any of the three
encapsulations. A plan is such a request, free of the texts that it came in and of the fields
that it is stored in. Every accepted body is converted to the action of a plan.
-/

namespace Tapplet.Actions

open Rest Fallible

/-- The destination and the DSCP of an outer header. -/
structure Outer where
  dmac : List UInt8
  isIpv6 : Bool
  dip : List UInt8
  dscp : Nat
  length_dmac : dmac.length = 6
  length_dip : dip.length = if isIpv6 then 16 else 4
  dscp_le : dscp ≤ 63

def Outer.toTunnel (o : Outer) : Tunnel where
  dmac := o.dmac
  dipType := if o.isIpv6 then 6 else 4
  dip := dipField o.dip
  dscp := .ofNat (o.dscp <<< 2)

structure Vxlan where
  outer : Outer
  vni : Nat
  dport : Nat
  vni_lt : vni < 2 ^ 24
  dport_lt : dport < 2 ^ 16

structure Erspan where
  outer : Outer
  sessionId : Nat
  type : Fin typeOfErspanList.length
  sessionId_le : sessionId ≤ 0x3FF

/-- The encapsulations that are switched on. -/
structure Encapsulations where
  gre : Option Outer
  vxlan : Option Vxlan
  erspan : Option Erspan

def Encapsulations.none : Encapsulations := ⟨.none, .none, .none⟩

def Encapsulations.toAdditional (e : Encapsulations) : AdditionalActions where
  flagGreEncapsulation := e.gre.isSome
  flagVxlanEncapsulation := e.vxlan.isSome
  flagErspanEncapsulation := e.erspan.isSome
  gre := e.gre.elim zeroTunnel Outer.toTunnel
  vxlan := e.vxlan.elim zeroTunnel fun v => v.outer.toTunnel
  vxlanDport := e.vxlan.elim 0 fun v => htons (.ofNat (v.dport % 2 ^ 16))
  vxlanVni := e.vxlan.elim 0 fun v => htonl (.ofNat (v.vni % 2 ^ 24 * 2 ^ 8))
  erspan := e.erspan.elim zeroTunnel fun r => r.outer.toTunnel
  erspanType := e.erspan.elim 0 fun r => .ofNat (r.type.val + 1)
  erspanSessionId := e.erspan.elim 0 fun r => .ofNat r.sessionId

/-- The interfaces that share the packets, with their weights if the mode is `wrr`. -/
structure Balance (env : Env) where
  mode : Nat
  ids : List Nat
  weights : List Nat
  mode_pos : 0 < mode
  mode_lt : mode < loadBalanceModes.length
  ids_ne_nil : ids ≠ []
  ids_length : ids.length ≤ MAX_INTERFACE_CNT
  ids_valid : ∀ i ∈ ids, ValidInterface env i
  weights_length : weights.length = if mode = 2 then ids.length else 0
  weights_fit : ∀ w ∈ weights, 0 < w ∧ w < 2 ^ 31

/-- The treatment of a packet. -/
inductive Basis (env : Env) where
  | drop
  | forward (i : Nat) (valid : ValidInterface env i)
  | balance (b : Balance env)

def Basis.toAction {env : Env} : Basis env → Action
  | .drop => { resetActionConfigStruct with type := ACTION_TYPE_DROP }
  | .forward i _ =>
      { resetActionConfigStruct with
        type := ACTION_TYPE_FORWARD_INTERFACE
        forwardInterfaceId := .ofNat i }
  | .balance b =>
      { resetActionConfigStruct with
        type := ACTION_TYPE_LOAD_BALANCE_INTERFACES
        loadBalanceMode := b.mode
        loadBalanceWeight := b.weights.map (fun (w : Nat) => (w : Int)) ++
          .replicate (MAX_LOAD_BALANCE_NODE - b.weights.length) 0
        loadBalanceInterfaceArray := b.ids.map UInt8.ofNat ++
          .replicate (MAX_INTERFACE_CNT - b.ids.length) 0
        loadBalanceInterfacesNum := .ofNat b.ids.length }

structure Plan (env : Env) where
  basis : Basis env
  encapsulations : Encapsulations

def Plan.toAction {env : Env} (p : Plan env) : Action :=
  { p.basis.toAction with additionalActions := p.encapsulations.toAdditional }

variable {env : Env} {id : Int}

/-! ## Encapsulations -/

/-- An accepted address is one of the two families. -/
theorem checkIpString_cases (pton : Acl.InetPtonLength env.rest.acl) {address : PyStr} {ret : Int}
    (h : checkIpString env.rest address = .ok ret) (hne : ret ≠ -1) :
    ∃ f bytes, ret = (if f then 1 else 0) ∧ pyInetPton env.rest f address = some bytes ∧
      bytes.length = if f then 16 else 4 := by
  rw [checkIpString] at h
  obtain ⟨str, hstr, h⟩ := bind_ok h
  split at h
  next => cases h
  next hzero =>
    have hparsed (f : Bool) (hsome : (env.rest.acl.inetPton f str).isSome) :
        ∃ bytes, pyInetPton env.rest f address = some bytes ∧
          bytes.length = if f then 16 else 4 := by
      obtain ⟨bytes, hbytes⟩ := Option.isSome_iff_exists.mp hsome
      refine ⟨bytes, ?_, pton f str bytes hbytes⟩
      rw [pyInetPton, hstr]
      exact (if_neg hzero).trans hbytes
    split at h
    next hsome =>
      cases h
      obtain ⟨bytes, hbytes⟩ := hparsed false hsome
      exact ⟨false, bytes, rfl, hbytes⟩
    next =>
      split at h
      next hsome =>
        cases h
        obtain ⟨bytes, hbytes⟩ := hparsed true hsome
        exact ⟨true, bytes, rfl, hbytes⟩
      next =>
        cases h
        exact absurd rfl hne

theorem transIpToBytes_eq {f : Bool} {address : PyStr} {bytes : List UInt8}
    (h : pyInetPton env.rest f address = some bytes) :
    transIpToBytes env zeroTunnel.dip f address = dipField bytes := by
  rw [transIpToBytes, h]
  show bytes ++ (List.replicate 16 0).drop bytes.length = _
  rw [List.drop_replicate, dipField]

/-- What is accepted as the destination of an encapsulation is the one of an outer header. -/
theorem readTunnel_ok (pton : Acl.InetPtonLength env.rest.acl) {name : String}
    {d : Dict PyStr Json} {t : Tunnel} (h : readTunnel env id name d = .ok t) :
    ∃ o : Outer, t = o.toTunnel := by
  rw [readTunnel] at h
  obtain ⟨dip, -, h⟩ := bind_ok h
  obtain ⟨dmac, -, h⟩ := bind_ok h
  obtain ⟨address, -, h⟩ := bind_ok h
  obtain ⟨ret, hret, h⟩ := bind_ok h
  split at h
  next => cases h
  next hne =>
    obtain ⟨f, bytes, rfl, hbytes, hlen⟩ := checkIpString_cases pton (raises_ok.mp hret) hne
    obtain ⟨isMac, hmac, h⟩ := bind_ok h
    split at h
    next => cases h
    next htrue =>
      obtain rfl := Bool.eq_true_of_not_eq_false htrue
      obtain ⟨s, rfl, hmatch⟩ := checkMacSting_ok (raises_ok.mp hmac)
      obtain ⟨macAddr, hmacAddr, h⟩ := bind_ok h
      obtain rfl := Except.ok.inj (raises_ok.mp hmacAddr)
      obtain ⟨value, hvalue, h⟩ := bind_ok h
      have hrange := readNumber_ok (by decide) hvalue
      have hdip := transIpToBytes_eq hbytes
      refine ⟨⟨transMacToBytes s, f, bytes, value, length_transMacToBytes hmatch, hlen,
        by omega⟩, ?_⟩
      cases h
      rw [Outer.toTunnel, ← hdip]
      cases f <;> rfl

/-- The texts of an outer header are read back. -/
theorem readTunnel_text (text : Acl.AddressText env.rest.acl env.inetNtop) {name : String}
    {d : Dict PyStr Json} (o : Outer)
    (hdip : d.get? (py (name ++ "_dip")) = some (.str (py (env.inetNtop o.isIpv6 o.dip))))
    (hdmac : d.get? (py (name ++ "_dmac")) = some (.str (transUbytesToMacAddr o.dmac)))
    (hdscp : d.get? (py (name ++ "_dscp")) = some (.int o.dscp)) :
    readTunnel env id name d = .ok o.toTunnel := by
  have hlen := o.length_dip
  have hmac : o.dmac ≠ [] := by
    intro h
    have hsix := o.length_dmac
    rw [h] at hsix
    cases hsix
  have hmatch : matchesMac 5 (transUbytesToMacAddr o.dmac) = true := matchesMac_text o.length_dmac
  rw [readTunnel, item, item, hdip, hdmac, hdscp]
  show ((raises (checkIpString env.rest (py (env.inetNtop o.isIpv6 o.dip)))) >>= _) = _
  refine (bind_of_ok (raises_ok.mpr (checkIpString_ntop text hlen)) _).trans ?_
  rw [if_neg (by cases o.isIpv6 <;> decide)]
  refine (bind_of_ok (raises_ok.mpr (congrArg Except.ok hmatch)) _).trans ?_
  rw [if_neg (by decide)]
  refine (bind_of_ok (readNumber_int _ ⟨by omega, by have := o.dscp_le; omega⟩) _).trans ?_
  have hbytes := transIpToBytes_eq (pyInetPton_ntop text hlen)
  rw [transMacToBytes_text hmac, Outer.toTunnel, ← hbytes]
  cases o.isIpv6 <;> rfl

theorem transGre_ok (pton : Acl.InetPtonLength env.rest.acl) {p : Encapsulations}
    {d : Dict PyStr Json} {a : AdditionalActions}
    (h : transGre env id d p.toAdditional = .ok a) :
    ∃ p' : Encapsulations, a = p'.toAdditional := by
  rw [transGre] at h
  obtain ⟨-, -, h⟩ := bind_ok h
  obtain ⟨t, ht, h⟩ := bind_ok h
  obtain ⟨o, rfl⟩ := readTunnel_ok pton ht
  cases h
  exact ⟨{ p with gre := some o }, rfl⟩

theorem transVxlan_ok (pton : Acl.InetPtonLength env.rest.acl) {p : Encapsulations}
    {d : Dict PyStr Json} {a : AdditionalActions}
    (h : transVxlan env id d p.toAdditional = .ok a) :
    ∃ p' : Encapsulations, a = p'.toAdditional := by
  rw [transVxlan] at h
  obtain ⟨-, -, h⟩ := bind_ok h
  obtain ⟨t, ht, h⟩ := bind_ok h
  obtain ⟨vni, hvni, h⟩ := bind_ok h
  obtain ⟨dportValue, -, h⟩ := bind_ok h
  obtain ⟨dport, hdport, h⟩ := bind_ok h
  obtain ⟨o, rfl⟩ := readTunnel_ok pton ht
  have hvni := readNumber_ok (by decide) hvni
  have hdport := readNumber_ok (by decide) hdport
  cases h
  exact ⟨{ p with vxlan := some ⟨o, vni, dport, by omega, by omega⟩ }, rfl⟩

theorem transErspan_ok (pton : Acl.InetPtonLength env.rest.acl) {p : Encapsulations}
    {d : Dict PyStr Json} {a : AdditionalActions}
    (h : transErspan env id d p.toAdditional = .ok a) :
    ∃ p' : Encapsulations, a = p'.toAdditional := by
  rw [transErspan] at h
  obtain ⟨-, -, h⟩ := bind_ok h
  obtain ⟨t, ht, h⟩ := bind_ok h
  obtain ⟨sessionId, hsessionId, h⟩ := bind_ok h
  obtain ⟨o, rfl⟩ := readTunnel_ok pton ht
  have hsessionId := readNumber_ok (by decide) hsessionId
  dsimp only at h
  split at h
  next => cases h
  next index hindex =>
    obtain ⟨hlt, -⟩ := List.findIdx?_eq_some_iff_getElem.mp hindex
    cases h
    exact ⟨{ p with erspan := some ⟨o, sessionId, ⟨index, hlt⟩, by omega⟩ }, rfl⟩

/-- An encapsulation is added to those that there are. -/
theorem transAddiAction_ok (pton : Acl.InetPtonLength env.rest.acl) {p : Encapsulations}
    {e : PyStr × Json} {a : AdditionalActions}
    (h : transAddiAction env id p.toAdditional e = .ok a) :
    ∃ p' : Encapsulations, a = p'.toAdditional := by
  rw [transAddiAction] at h
  split at h
  next => cases h
  next =>
    split at h
    next members _ =>
      dsimp only at h
      cases hswitch : (Dict.ofEntries members).get? (py "switch") with
      | none =>
          rw [hswitch] at h
          cases h
      | some switch =>
          rw [hswitch] at h
          dsimp only at h
          split_ifs at h
          · cases h
            exact ⟨p, rfl⟩
          · exact transGre_ok pton h
          · exact transVxlan_ok pton h
          · exact transErspan_ok pton h
    next => cases h

theorem transAddiActions_ok (pton : Acl.InetPtonLength env.rest.acl) {p : Encapsulations}
    {d : Dict PyStr Json} {a : AdditionalActions}
    (h : d.foldlM (transAddiAction env id) p.toAdditional = .ok a) :
    ∃ p' : Encapsulations, a = p'.toAdditional := by
  induction d generalizing p with
  | nil =>
      cases h
      exact ⟨p, rfl⟩
  | cons e d ih =>
      rw [List.foldlM_cons] at h
      obtain ⟨b, hb, h⟩ := bind_ok h
      obtain ⟨p', rfl⟩ := transAddiAction_ok pton hb
      exact ih h

/-! ## Treatments -/

/-- Every weight that is read is positive. -/
theorem readWeight_ok {weight : PyStr} {i : Int} (h : readWeight env id weight = .ok i) :
    0 < i ∧ intStr env weight = .ok i := by
  rw [readWeight] at h
  split at h
  next => cases h
  next =>
    obtain ⟨j, hj, h⟩ := bind_ok h
    split at h
    next => cases h
    next hpos =>
      cases h
      exact ⟨by omega, raises_ok.mp hj⟩

theorem addArrayValue_ok {α : Type} {array values result : List α}
    (h : addArrayValue array values = .ok result) :
    values.length ≤ array.length ∧ result = values ++ array.drop values.length := by
  rw [addArrayValue] at h
  split at h
  next hle =>
    cases h
    exact ⟨hle, rfl⟩
  next => cases h

theorem isStr_iff {v : Json} {s : String} : isStr v s = true ↔ v = .str (py s) := by
  cases v with
  | str t =>
      show decide (t = py s) = true ↔ _
      rw [decide_eq_true_eq, Json.str.injEq]
  | null => exact ⟨nofun, nofun⟩
  | bool b => exact ⟨nofun, nofun⟩
  | int i => exact ⟨nofun, nofun⟩
  | float i => exact ⟨nofun, nofun⟩
  | array items => exact ⟨nofun, nofun⟩
  | object members => exact ⟨nofun, nofun⟩

/-- The weights that a text lists fit a `c_int`. -/
def TextFits (env : Env) (weight : Json) : Prop :=
  ∀ text, weight = .str text → ∀ w ∈ text.splitOn 58, ∀ i, intStr env w = .ok i → i < 2 ^ 31

/-- The weights that are read are the natural numbers that they are stored as. -/
theorem readWeights_ok {texts : List PyStr} {ws : List Int}
    (hfit : ∀ w ∈ texts, ∀ i, intStr env w = .ok i → i < 2 ^ 31)
    (h : texts.mapM (readWeight env id) = .ok ws) :
    ∃ weights : List Nat, weights.length = texts.length ∧ (∀ w ∈ weights, 0 < w ∧ w < 2 ^ 31) ∧
      ws.map cInt = weights.map fun (w : Nat) => (w : Int) := by
  induction texts generalizing ws with
  | nil =>
      obtain rfl := Except.ok.inj h
      exact ⟨[], rfl, nofun, rfl⟩
  | cons text texts ih =>
      obtain ⟨i, is, hi, his, rfl⟩ := mapM_cons_ok.mp h
      obtain ⟨weights, hlen, hweights, hmap⟩ :=
        ih (fun w hw => hfit w (List.mem_cons_of_mem _ hw)) his
      obtain ⟨hpos, hint⟩ := readWeight_ok hi
      have hlt := hfit text List.mem_cons_self i hint
      have hnat : (i.toNat : Int) = i := Int.toNat_of_nonneg (by omega)
      refine ⟨i.toNat :: weights, congrArg Nat.succ hlen, ?_, ?_⟩
      · intro w hw
        obtain rfl | hw := List.mem_cons.mp hw
        · omega
        · exact hweights w hw
      · rw [List.map_cons, List.map_cons, hmap, cInt_eq hpos.le hlt, hnat]

/-- What a load balance is stored as. -/
def balanceAction (mode : Nat) (weights : List Nat) : Action :=
  { resetActionConfigStruct with
    type := ACTION_TYPE_LOAD_BALANCE_INTERFACES
    loadBalanceMode := mode
    loadBalanceWeight := weights.map (fun (w : Nat) => (w : Int)) ++
      .replicate (MAX_LOAD_BALANCE_NODE - weights.length) 0 }

/-- The weights of an accepted load balance as they are read. -/
def ReadsWeights (env : Env) (id : Int) (mode cnt : Nat) (weight : Json) (ws : List Int) : Prop :=
  if mode = 2 then ∃ text, weight = .str text ∧ (text.splitOn 58).length = cnt ∧
    (text.splitOn 58).mapM (readWeight env id) = .ok ws
  else ws = []

/-- What is accepted as a load balance, whatever its weights are. -/
theorem basicLoadBalance_read {cnt : Nat} {mode weight : Json} {a : Action}
    (hmode : isStr mode "" = false)
    (h : transActionContentBasicLoadBalance env id
      { resetActionConfigStruct with type := ACTION_TYPE_LOAD_BALANCE_INTERFACES } cnt mode weight =
        .ok a) :
    ∃ m ws, 0 < m ∧ m < loadBalanceModes.length ∧ (isStr mode "wrr" = true ↔ m = 2) ∧
      ReadsWeights env id m cnt weight ws ∧
      a = { balanceAction m [] with
        loadBalanceWeight := ws.map cInt ++ .replicate (MAX_LOAD_BALANCE_NODE - ws.length) 0 } := by
  rw [transActionContentBasicLoadBalance] at h
  split at h
  next => cases h
  next name hname =>
    split at h
    next => cases h
    next m hm =>
      obtain ⟨hlt, heq, -⟩ := List.findIdx?_eq_some_iff_getElem.mp hm
      have heq : loadBalanceModes[m] = name := of_decide_eq_true heq
      have hstr : isStr mode name = true := List.find?_some hname
      have hpos : 0 < m := by
        apply Nat.pos_of_ne_zero
        rintro rfl
        rw [← heq] at hstr
        exact Bool.noConfusion (hstr.symm.trans hmode)
      have hcases : ∀ m, ∀ h : m < loadBalanceModes.length,
          py loadBalanceModes[m] = py "wrr" ↔ m = 2 := by
        decide
      have hwrr : name = "wrr" ↔ m = 2 := by
        subst heq
        exact ⟨fun h => (hcases m hlt).mp (congrArg py h),
          fun h => by subst h; rfl⟩
      have hmodeEq : isStr mode "wrr" = true ↔ m = 2 := by
        rw [isStr_iff, isStr_iff.mp hstr, Json.str.injEq, ← heq]
        exact hcases m hlt
      dsimp only at h
      split at h
      next hname =>
        have htwo := hwrr.mp hname
        split at h
        next => cases h
        next text =>
          split at h
          next => cases h
          next hlen =>
            obtain ⟨ws, hws, h⟩ := bind_ok h
            obtain ⟨result, hresult, h⟩ := bind_ok h
            obtain ⟨-, rfl⟩ := addArrayValue_ok hresult
            cases h
            refine ⟨m, ws, hpos, hlt, hmodeEq, ?_, ?_⟩
            · rw [ReadsWeights, if_pos htwo]
              exact ⟨text, rfl, not_not.mp hlen, hws⟩
            · rw [List.length_map, ← List.drop_replicate]
              rfl
        next => cases h
      next hname =>
        have hnone : ReadsWeights env id m cnt weight [] := by
          rw [ReadsWeights, if_neg (mt hwrr.mpr hname)]
        split at h
        next =>
          cases h
          exact ⟨m, [], hpos, hlt, hmodeEq, hnone, rfl⟩
        next =>
          split at h
          next =>
            cases h
            exact ⟨m, [], hpos, hlt, hmodeEq, hnone, rfl⟩
          next => cases h

theorem basicLoadBalance_ok {cnt : Nat} {mode weight : Json} {a : Action}
    (hmode : isStr mode "" = false) (hfit : TextFits env weight)
    (h : transActionContentBasicLoadBalance env id
      { resetActionConfigStruct with type := ACTION_TYPE_LOAD_BALANCE_INTERFACES } cnt mode weight =
        .ok a) :
    ∃ m weights, 0 < m ∧ m < loadBalanceModes.length ∧
      weights.length = (if m = 2 then cnt else 0) ∧ (∀ w ∈ weights, 0 < w ∧ w < 2 ^ 31) ∧
      a = balanceAction m weights := by
  obtain ⟨m, ws, hpos, hlt, -, hread, rfl⟩ := basicLoadBalance_read hmode h
  rw [ReadsWeights] at hread
  split at hread
  next htwo =>
    obtain ⟨text, rfl, hlen, hws⟩ := hread
    obtain ⟨weights, hlength, hweights, hmap⟩ := readWeights_ok (hfit text rfl) hws
    refine ⟨m, weights, hpos, hlt, ?_, hweights, ?_⟩
    · rw [if_pos htwo, hlength, hlen]
    · have hcount := congrArg List.length hmap
      rw [List.length_map, List.length_map] at hcount
      rw [hmap, hcount]
      rfl
  next hne =>
    subst hread
    exact ⟨m, [], hpos, hlt, (if_neg hne).symm, nofun, rfl⟩

/-- The interfaces that are read exist. -/
theorem readInterfaces_ok {names : List Json} {ids : List Nat}
    (h : names.mapM (readInterface env id) = .ok ids) :
    ids.length = names.length ∧ ∀ i ∈ ids, ValidInterface env i := by
  induction names generalizing ids with
  | nil =>
      cases h
      exact ⟨rfl, nofun⟩
  | cons name names ih =>
      obtain ⟨i, is, hi, his, rfl⟩ := mapM_cons_ok.mp h
      obtain ⟨hlen, hvalid⟩ := ih his
      exact ⟨congrArg Nat.succ hlen, List.forall_mem_cons.mpr ⟨readInterface_ok hi, hvalid⟩⟩

/-- What follows the check of the interfaces. -/
theorem balance_ok {ids : List Nat} {mode weight : Json} {a : Action} {array : List UInt8}
    (hids : ids ≠ []) (hvalid : ∀ i ∈ ids, ValidInterface env i) (hmode : isStr mode "" = false)
    (hfit : TextFits env weight)
    (hbalance : transActionContentBasicLoadBalance env id
      { resetActionConfigStruct with type := ACTION_TYPE_LOAD_BALANCE_INTERFACES } ids.length mode
        weight = .ok a)
    (harray : addArrayValue a.loadBalanceInterfaceArray (ids.map UInt8.ofNat) = .ok array) :
    ∃ b : Basis env, { a with
      loadBalanceInterfaceArray := array
      loadBalanceInterfacesNum := .ofNat ids.length } = b.toAction := by
  obtain ⟨m, weights, hpos, hlt, hlen, hweights, rfl⟩ := basicLoadBalance_ok hmode hfit hbalance
  obtain ⟨hle, rfl⟩ := addArrayValue_ok harray
  rw [List.length_map] at hle
  refine ⟨.balance ⟨m, ids, weights, hpos, hlt, hids, hle, hvalid, hlen, hweights⟩, ?_⟩
  rw [List.length_map]
  show _ = { balanceAction m weights with
    loadBalanceInterfaceArray := ids.map UInt8.ofNat ++
      List.replicate (MAX_INTERFACE_CNT - ids.length) 0
    loadBalanceInterfacesNum := .ofNat ids.length }
  rw [← List.drop_replicate]
  rfl

/-- The weights of the basic actions fit. -/
def BasisFits (env : Env) (data : Json) : Prop :=
  ∀ members weight, data = .object members →
    (Dict.ofEntries members).get? (py "load_balance_weight") = some weight → TextFits env weight

/-- An accepted load balance, with what is read from the dictionary of the basic actions. -/
def ReadsBalance (env : Env) (id : Int) (d : Dict PyStr Json) (a : Action) : Prop :=
  ∃ names ids b array, d.get? (py "interfaces") = some (.array names) ∧
    names.mapM (readInterface env id) = .ok ids ∧ ids ≠ [] ∧
    isStr ((d.get? (py "load_balance_mode")).getD (.str [])) "" = false ∧
    transActionContentBasicLoadBalance env id
      { resetActionConfigStruct with type := ACTION_TYPE_LOAD_BALANCE_INTERFACES } ids.length
      ((d.get? (py "load_balance_mode")).getD (.str []))
      ((d.get? (py "load_balance_weight")).getD .null) = .ok b ∧
    addArrayValue b.loadBalanceInterfaceArray (ids.map UInt8.ofNat) = .ok array ∧
    a = { b with
      loadBalanceInterfaceArray := array
      loadBalanceInterfacesNum := .ofNat ids.length }

/-- The three treatments that are accepted. -/
theorem basicActions_cases {data : Json} {a : Action}
    (h : transActionContentBasicActions env id data resetActionConfigStruct = .ok a) :
    a = (Basis.drop : Basis env).toAction ∨
    (∃ i valid, a = (Basis.forward i valid : Basis env).toAction) ∨
    ∃ members, data = .object members ∧ ReadsBalance env id (Dict.ofEntries members) a := by
  unfold transActionContentBasicActions at h
  split at h
  next members =>
    dsimp only at h
    split at h
    next => cases h
    next =>
      split at h
      next => cases h
      next v _ =>
        split at h
        next => cases h
        next =>
          obtain ⟨-, -, h⟩ := bind_ok h
          obtain ⟨-, -, h⟩ := bind_ok h
          obtain ⟨-, -, h⟩ := bind_ok h
          cases h
          exact .inl rfl
        next type _ _ =>
          split at h
          next => cases h
          next first others hnames =>
            obtain ⟨ids, hids, h⟩ := bind_ok h
            obtain ⟨hlen, hvalid⟩ := readInterfaces_ok hids
            split at h
            next =>
              obtain ⟨-, -, h⟩ := bind_ok h
              obtain ⟨-, -, h⟩ := bind_ok h
              split at h
              next => cases h
              next hone =>
                obtain ⟨i, rfl⟩ := List.length_eq_one_iff.mp (not_not.mp hone)
                cases h
                exact .inr (.inl ⟨i, hvalid i List.mem_cons_self, rfl⟩)
            next =>
              split at h
              next => cases h
              next hmode =>
                obtain ⟨b, hb, h⟩ := bind_ok h
                obtain ⟨array, harray, h⟩ := bind_ok h
                have hne : ids ≠ [] := by
                  apply List.ne_nil_of_length_pos
                  rw [hlen]
                  exact Nat.succ_pos _
                cases h
                exact .inr (.inr ⟨members, rfl, _, ids, b, array, hnames, hids, hne,
                  Bool.eq_false_iff.mpr hmode, hb, harray, rfl⟩)
          next => cases h
  next => cases h

theorem basicActions_ok {data : Json} {a : Action} (hfit : BasisFits env data)
    (h : transActionContentBasicActions env id data resetActionConfigStruct = .ok a) :
    ∃ b : Basis env, a = b.toAction := by
  obtain rfl | ⟨i, valid, rfl⟩ | ⟨members, rfl, hread⟩ := basicActions_cases h
  · exact ⟨.drop, rfl⟩
  · exact ⟨.forward i valid, rfl⟩
  · obtain ⟨names, ids, b, array, -, hids, hne, hmode, hb, harray, rfl⟩ := hread
    obtain ⟨-, hvalid⟩ := readInterfaces_ok hids
    have hfits : TextFits env
        (((Dict.ofEntries members).get? (py "load_balance_weight")).getD .null) := by
      cases hget : (Dict.ofEntries members).get? (py "load_balance_weight") with
      | none => exact nofun
      | some weight => exact hfit members weight rfl hget
    exact balance_ok hne hvalid hmode hfits hb harray

/-- The weights of an action body fit a `c_int`. -/
def WeightsFit (env : Env) (data : Json) : Prop :=
  ∀ members basis, data = .object members →
    (Dict.ofEntries members).get? (py "basis_actions") = some basis → BasisFits env basis

/-- An accepted body has accepted basic actions, and the encapsulations are added to them. -/
theorem transDictToActionStruct_cases {data : Json} {a : Action}
    (h : transDictToActionStruct env id data resetActionConfigStruct = .ok a) :
    ∃ members basis b, data = .object members ∧
      (Dict.ofEntries members).get? (py "basis_actions") = some basis ∧
      transActionContentBasicActions env id basis resetActionConfigStruct = .ok b ∧
      (a = b ∨ ∃ addi additional,
        transActionContentAddiActions env id addi b.additionalActions = .ok additional ∧
        a = { b with additionalActions := additional }) := by
  unfold transDictToActionStruct at h
  split at h
  next members =>
    dsimp only at h
    split at h
    next => cases h
    next =>
      split at h
      next => cases h
      next basis hget =>
        obtain ⟨b, hb, h⟩ := bind_ok h
        refine ⟨members, basis, b, rfl, hget, hb, ?_⟩
        split at h
        next =>
          cases h
          exact .inl rfl
        next addi _ =>
          obtain ⟨additional, hadditional, h⟩ := bind_ok h
          cases h
          exact .inr ⟨addi, additional, hadditional, rfl⟩
  next => cases h

/-- An accepted body is a plan. -/
theorem transDictToActionStruct_ok (pton : Acl.InetPtonLength env.rest.acl) {data : Json}
    {a : Action} (hfit : WeightsFit env data)
    (h : transDictToActionStruct env id data resetActionConfigStruct = .ok a) :
    ∃ p : Plan env, a = p.toAction := by
  obtain ⟨members, basis, b, rfl, hget, hb, hcases⟩ := transDictToActionStruct_cases h
  obtain ⟨basis, rfl⟩ := basicActions_ok (hfit members basis rfl hget) hb
  have hreset : basis.toAction.additionalActions = Encapsulations.none.toAdditional := by
    cases basis <;> rfl
  obtain rfl | ⟨addi, additional, hadditional, rfl⟩ := hcases
  · refine ⟨⟨basis, .none⟩, ?_⟩
    cases basis <;> rfl
  · rw [hreset] at hadditional
    unfold transActionContentAddiActions at hadditional
    split at hadditional
    next =>
      obtain ⟨e, rfl⟩ := transAddiActions_ok pton hadditional
      exact ⟨⟨basis, e⟩, rfl⟩
    next => cases hadditional

end Tapplet.Actions
