import Tapplet.Actions.Plan

/-!
# Reading an action and writing it back

A stored action is shown as the document of its plan, and the document is a body that is
converted to the same action. Both are followed through the treatment of a packet and through
each of the encapsulations.
-/

namespace Tapplet.Actions

open Rest Fallible

variable {env : Env} {id : Int}

/-! ## Encapsulations -/

/-- An outer header as it is shown. -/
def outerDoc (env : Env) (name : String) (o : Outer) : Dict PyStr Json :=
  [(py "switch", .int 1), (py (name ++ "_dmac"), .str (transUbytesToMacAddr o.dmac)),
    (py (name ++ "_dip"), .str (py (env.inetNtop o.isIpv6 o.dip))),
    (py (name ++ "_dscp"), .int o.dscp)]

theorem formatTunnel_eq (name : String) (o : Outer) :
    formatTunnel env name o.toTunnel = outerDoc env name o := by
  have hdip := @tranUbytesToIp_dipField env _ _ o.length_dip
  have hdscp := dscp_shift o.dscp_le
  rw [formatTunnel, outerDoc]
  show [_, _, (_, tranUbytesToIp env (dipField o.dip) (if o.isIpv6 then 6 else 4)),
    (_, Json.int (UInt8.ofNat (o.dscp <<< 2) >>> 2).toNat)] = _
  rw [hdip, hdscp]
  rfl

theorem transGre_text (text : Acl.AddressText env.rest.acl env.inetNtop) (p : Encapsulations)
    (o : Outer) :
    transAddiAction env id p.toAdditional
      (py "gre_encapsulation", .object (outerDoc env "gre" o)) =
        .ok { p with gre := some o }.toAdditional := by
  show transGre env id (outerDoc env "gre" o) p.toAdditional = _
  have htunnel : readTunnel env id "gre" (outerDoc env "gre" o) = .ok o.toTunnel :=
    readTunnel_text text o rfl rfl rfl
  rw [transGre]
  refine (bind_of_ok (a := ()) rfl _).trans ?_
  exact bind_of_ok htunnel _

def vxlanDoc (env : Env) (v : Vxlan) : Dict PyStr Json :=
  outerDoc env "vxlan" v.outer ++ [(py "vxlan_vni", .int v.vni), (py "vxlan_dport", .int v.dport)]

theorem transVxlan_text (text : Acl.AddressText env.rest.acl env.inetNtop) (p : Encapsulations)
    (v : Vxlan) :
    transAddiAction env id p.toAdditional (py "vxlan_encapsulation", .object (vxlanDoc env v)) =
      .ok { p with vxlan := some v }.toAdditional := by
  show transVxlan env id (vxlanDoc env v) p.toAdditional = _
  have htunnel : readTunnel env id "vxlan" (vxlanDoc env v) = .ok v.outer.toTunnel :=
    readTunnel_text text v.outer rfl rfl rfl
  have hvni := v.vni_lt
  have hdport := v.dport_lt
  rw [transVxlan]
  refine (bind_of_ok (a := ()) rfl _).trans ?_
  refine (bind_of_ok htunnel _).trans ?_
  refine (bind_of_ok (readNumber_int _ (n := v.vni) ⟨by omega, by omega⟩) _).trans ?_
  refine (bind_of_ok (a := Json.int v.dport) rfl _).trans ?_
  exact bind_of_ok (readNumber_int _ (n := v.dport) ⟨by omega, by omega⟩) _

def erspanDoc (env : Env) (r : Erspan) : Dict PyStr Json :=
  outerDoc env "erspan" r.outer ++
    [(py "erspan_session_id", .int r.sessionId),
      (py "erspan_type", .str (py (typeOfErspanList.get r.type)))]

theorem erspanType_text (i : Fin typeOfErspanList.length) :
    typeOfErspanList.findIdx? (isStr (.str (py (typeOfErspanList.get i)))) = some i.val := by
  decide +revert

theorem transErspan_text (text : Acl.AddressText env.rest.acl env.inetNtop) (p : Encapsulations)
    (r : Erspan) :
    transAddiAction env id p.toAdditional (py "erspan_encapsulation", .object (erspanDoc env r)) =
      .ok { p with erspan := some r }.toAdditional := by
  show transErspan env id (erspanDoc env r) p.toAdditional = _
  have htunnel : readTunnel env id "erspan" (erspanDoc env r) = .ok r.outer.toTunnel :=
    readTunnel_text text r.outer rfl rfl rfl
  have hsessionId := r.sessionId_le
  have htype : ((erspanDoc env r).get? (py "erspan_type")).getD (.str (py "ERSPAN_I")) =
      .str (py (typeOfErspanList.get r.type)) := rfl
  rw [transErspan]
  refine (bind_of_ok (a := ()) rfl _).trans ?_
  refine (bind_of_ok htunnel _).trans ?_
  refine (bind_of_ok (readNumber_int _ (n := r.sessionId) ⟨by omega, by omega⟩) _).trans ?_
  dsimp only
  rw [htype, erspanType_text r.type]
  rfl

/-- The encapsulations as they are shown. -/
def Encapsulations.document (env : Env) (e : Encapsulations) : Dict PyStr Json :=
  (e.gre.elim [] fun o => [(py "gre_encapsulation", .object (outerDoc env "gre" o))]) ++
    (e.vxlan.elim [] fun v => [(py "vxlan_encapsulation", .object (vxlanDoc env v))]) ++
    e.erspan.elim [] fun r => [(py "erspan_encapsulation", .object (erspanDoc env r))]

theorem erspanTypeName_eq (i : Fin typeOfErspanList.length) :
    erspanTypeName (.ofNat (i.val + 1)) = .str (py (typeOfErspanList.get i)) := by
  match i with
  | ⟨0, _⟩ => rfl
  | ⟨1, _⟩ => rfl
  | ⟨2, _⟩ => rfl

theorem formatActionAddiAction_eq (e : Encapsulations) :
    formatActionAddiAction env e.toAdditional = e.document env := by
  obtain ⟨gre, vxlan, erspan⟩ := e
  rw [formatActionAddiAction, Encapsulations.document]
  refine congrArg₂ _ (congrArg₂ _ ?_ ?_) ?_
  · cases gre with
    | none => rfl
    | some o => exact congrArg (fun d => [(_, Json.object d)]) (formatTunnel_eq "gre" o)
  · cases vxlan with
    | none => rfl
    | some v =>
        let a := Encapsulations.none.toAdditional
        have hvni := getVxlanVni_set a v.vni_lt
        have hdport := getVxlanDport_set a v.dport_lt
        show [(_, Json.object (formatTunnel env "vxlan" v.outer.toTunnel ++
          [(_, Json.int (a.setVxlanVni v.vni).getVxlanVni),
            (_, Json.int (a.setVxlanDport v.dport).getVxlanDport)]))] = _
        rw [hvni, hdport, formatTunnel_eq]
        rfl
  · cases erspan with
    | none => rfl
    | some r =>
        have hsessionId : (UInt16.ofNat r.sessionId).toNat = r.sessionId := by
          have hle := r.sessionId_le
          rw [UInt16.toNat_ofNat']
          exact Nat.mod_eq_of_lt (show r.sessionId < 65536 by omega)
        show [(_, Json.object (formatTunnel env "erspan" r.outer.toTunnel ++
          [(_, Json.int (UInt16.ofNat r.sessionId).toNat),
            (_, erspanTypeName (.ofNat (r.type.val + 1)))]))] = _
        rw [hsessionId, erspanTypeName_eq, formatTunnel_eq]
        rfl

/-- The encapsulations are read back one after the other. -/
theorem transAddiActions_text (text : Acl.AddressText env.rest.acl env.inetNtop)
    (e : Encapsulations) :
    (e.document env).foldlM (transAddiAction env id) Encapsulations.none.toAdditional =
      .ok e.toAdditional := by
  obtain ⟨gre, vxlan, erspan⟩ := e
  have hgre : (gre.elim [] fun o => [(py "gre_encapsulation",
      Json.object (outerDoc env "gre" o))]).foldlM (transAddiAction env id)
        Encapsulations.none.toAdditional = .ok (Encapsulations.toAdditional ⟨gre, none, none⟩) := by
    cases gre with
    | none => rfl
    | some o => exact bind_of_ok (transGre_text text _ o) _
  have hvxlan : (vxlan.elim [] fun v => [(py "vxlan_encapsulation",
      Json.object (vxlanDoc env v))]).foldlM (transAddiAction env id)
        (Encapsulations.toAdditional ⟨gre, none, none⟩) =
          .ok (Encapsulations.toAdditional ⟨gre, vxlan, none⟩) := by
    cases vxlan with
    | none => rfl
    | some v => exact bind_of_ok (transVxlan_text text ⟨gre, none, none⟩ v) _
  have herspan : (erspan.elim [] fun r => [(py "erspan_encapsulation",
      Json.object (erspanDoc env r))]).foldlM (transAddiAction env id)
        (Encapsulations.toAdditional ⟨gre, vxlan, none⟩) =
          .ok (Encapsulations.toAdditional ⟨gre, vxlan, erspan⟩) := by
    cases erspan with
    | none => rfl
    | some r => exact bind_of_ok (transErspan_text text ⟨gre, vxlan, none⟩ r) _
  rw [Encapsulations.document, List.foldlM_append, List.foldlM_append]
  refine (bind_of_ok ((bind_of_ok hgre _).trans hvxlan) _).trans ?_
  exact herspan

/-- No key is shown twice. -/
theorem ofEntries_encapsulations (e : Encapsulations) :
    Dict.ofEntries (e.document env) = e.document env := by
  obtain ⟨gre, vxlan, erspan⟩ := e
  cases gre <;> cases vxlan <;> cases erspan <;> rfl

/-! ## Treatments -/

/-- The weights as they are shown. -/
def weightText (weights : List Nat) :
    PyStr := [58].intercalate (weights.map fun w => py (toString w))

def modeName (mode : Nat) : PyStr := py (loadBalanceModes.getD mode "")

def nameList (env : Env) (ids : List Nat) : Json :=
  .array (ids.map fun i => .str (transInterfaceIndexToName env i))

/-- The treatment of a packet as it is shown. -/
def Basis.document : Basis env → Dict PyStr Json
  | .drop => [(py "type", .str (py "drop"))]
  | .forward i _ => [(py "type", .str (py "forward")), (py "interfaces", nameList env [i])]
  | .balance b =>
      [(py "type", .str (py "load_balance")), (py "load_balance_mode", .str (modeName b.mode))] ++
        (if b.mode = 2 then [(py "load_balance_weight", .str (weightText b.weights))] else []) ++
        [(py "interfaces", nameList env b.ids)]

/-- An array is read as far as it was filled. -/
theorem elements_ok {α β : Type} (xs ys : List α) (f : α → β) :
    ((List.range xs.length).mapM fun i => do
      let x ← element (xs ++ ys) i
      pure (f x)) = .ok (xs.map f) := by
  apply mapM_ok.mpr
  apply List.forall₂_iff_get.mpr
  refine ⟨by rw [List.length_range, List.length_map], fun i hi hi' => ?_⟩
  have hlt : i < xs.length := by rwa [List.length_map] at hi'
  have hget : element (xs ++ ys) i = .ok xs[i] := by
    rw [element, List.getElem?_append_left hlt, List.getElem?_eq_getElem hlt]
  simp only [List.get_eq_getElem, List.getElem_range, List.getElem_map]
  exact bind_of_ok hget _

/-- A mode is shown as its own name and is found again under it. -/
theorem modeName_ok {m : Nat} (hpos : 0 < m) (hlt : m < loadBalanceModes.length) :
    mapEntry loadBalanceModes m = .ok (loadBalanceModes.getD m "") ∧
      (loadBalanceModes.getD m "" = "wrr" ↔ m = 2) ∧
      requestLoadBalance.find? (isStr (.str (modeName m))) = some (loadBalanceModes.getD m "") ∧
      loadBalanceModes.findIdx? (· = loadBalanceModes.getD m "") = some m ∧
      isStr (.str (modeName m)) "" = false := by
  have hlt : m < 6 := hlt
  obtain rfl | rfl | rfl | rfl | rfl : m = 1 ∨ m = 2 ∨ m = 3 ∨ m = 4 ∨ m = 5 := by omega
  all_goals exact ⟨rfl, by decide, rfl, rfl, rfl⟩

theorem Balance.num_eq (b : Balance env) :
    (Basis.balance b).toAction.loadBalanceInterfacesNum.toNat = b.ids.length := by
  have hle := b.ids_length
  have hmax : MAX_INTERFACE_CNT = 63 := rfl
  show (UInt8.ofNat b.ids.length).toNat = b.ids.length
  rw [UInt8.toNat_ofNat']
  exact Nat.mod_eq_of_lt (show b.ids.length < 256 by omega)

theorem formatActionBasicAction_eq (b : Basis env) :
    formatActionBasicAction env b.toAction = .ok b.document := by
  cases b with
  | drop => rfl
  | forward i valid =>
      have hid := valid.toNat_ofNat
      show Except.ok [_, (_, Json.array [.str (transInterfaceIndexToName env
        (UInt8.ofNat i).toNat)])] = _
      rw [hid]
      rfl
  | balance b =>
      obtain ⟨hentry, hwrr, -⟩ := modeName_ok b.mode_pos b.mode_lt
      have hnames := elements_ok (b.ids.map UInt8.ofNat)
        (.replicate (MAX_INTERFACE_CNT - b.ids.length) 0)
        fun x => Json.str (transInterfaceIndexToName env x.toNat)
      have hids : (b.ids.map UInt8.ofNat).map
          (fun x => Json.str (transInterfaceIndexToName env x.toNat)) =
            b.ids.map fun i => .str (transInterfaceIndexToName env i) := by
        rw [List.map_map]
        apply List.map_congr_left
        intro i hi
        exact congrArg (fun n => Json.str (transInterfaceIndexToName env n))
          (b.ids_valid i hi).toNat_ofNat
      have hweights := elements_ok (b.weights.map fun (w : Nat) => (w : Int))
        (.replicate (MAX_LOAD_BALANCE_NODE - b.weights.length) 0) fun w => py (toString w)
      rw [List.length_map] at hnames hweights
      rw [hids] at hnames
      rw [formatActionBasicAction]
      refine (bind_of_ok (a := "load_balance") rfl _).trans ?_
      rw [if_neg (by decide), if_pos rfl]
      dsimp only
      rw [b.num_eq]
      refine (bind_of_ok hnames _).trans ?_
      refine (bind_of_ok hentry _).trans ?_
      have hlen : (b.ids.map fun i => Json.str (transInterfaceIndexToName env i)).length ≠ 0 := by
        rw [List.length_map]
        exact mt List.length_eq_zero_iff.mp b.ids_ne_nil
      by_cases htwo : b.mode = 2
      · have hlength := b.weights_length
        rw [if_pos htwo] at hlength
        rw [if_pos (hwrr.mpr htwo), ← hlength]
        refine (bind_of_ok hweights _).trans ?_
        show Except.ok (if _ then _ else _) = _
        rw [if_pos hlen, Basis.document, if_pos htwo, List.map_map]
        rfl
      · rw [if_neg (mt hwrr.mp htwo)]
        show Except.ok (if _ then _ else _) = _
        rw [if_pos hlen, Basis.document, if_neg htwo]
        rfl

/-- The interfaces are found again. -/
theorem readInterfaces_text {ids : List Nat} (h : ∀ i ∈ ids, ValidInterface env i) :
    (ids.map fun i => Json.str (transInterfaceIndexToName env i)).mapM (readInterface env id) =
      .ok ids := by
  have hmap := mapM_map_ok (f := readInterface env id)
    fun i hi => readInterface_name (h i hi)
  rwa [List.map_id'] at hmap

theorem readWeight_text (digits : TakesDigits env.rest.python) {w : Nat}
    (h : 0 < w ∧ w < 2 ^ 31) : readWeight env id (py (toString w)) = .ok (w : Int) := by
  have hint := intStr_toString digits (show w < 10 ^ 10 by omega)
  rw [readWeight, if_neg (by rw [isdigit_toString]; exact Bool.noConfusion)]
  refine (bind_of_ok (raises_ok.mpr hint) _).trans ?_
  exact if_neg (by omega)

/-- The weights are read as they are shown. -/
theorem readWeights_text (digits : TakesDigits env.rest.python) {weights : List Nat}
    (hne : weights ≠ []) (h : ∀ w ∈ weights, 0 < w ∧ w < 2 ^ 31) :
    ((weightText weights).splitOn 58).length = weights.length ∧
      ((weightText weights).splitOn 58).mapM (readWeight env id) =
        .ok (weights.map fun (w : Nat) => (w : Int)) := by
  have hsplit : (weightText weights).splitOn 58 = weights.map fun w => py (toString w) := by
    apply List.splitOn_intercalate
    · intro l hl hmem
      obtain ⟨w, -, rfl⟩ := List.mem_map.mp hl
      have hrange := range_of_mem_toString hmem
      omega
    · exact mt List.map_eq_nil_iff.mp hne
  rw [hsplit]
  exact ⟨List.length_map _, mapM_map_ok fun w hw => readWeight_text digits (h w hw)⟩

theorem map_cInt {weights : List Nat} (h : ∀ w ∈ weights, 0 < w ∧ w < 2 ^ 31) :
    (weights.map fun (w : Nat) => (w : Int)).map cInt = weights.map fun (w : Nat) => (w : Int) := by
  induction weights with
  | nil => rfl
  | cons w weights ih =>
      obtain ⟨hw, hrest⟩ := List.forall_mem_cons.mp h
      have hlt : (w : Int) < 2 ^ 31 := by exact_mod_cast hw.2
      rw [List.map_cons, List.map_cons, ih hrest, cInt_eq (Int.natCast_nonneg w) hlt]

theorem basicLoadBalance_text (digits : TakesDigits env.rest.python) (b : Balance env)
    {weight : Json}
    (hweight : weight = if b.mode = 2 then .str (weightText b.weights) else .null) :
    transActionContentBasicLoadBalance env id
      { resetActionConfigStruct with type := ACTION_TYPE_LOAD_BALANCE_INTERFACES } b.ids.length
        (.str (modeName b.mode)) weight = .ok (balanceAction b.mode b.weights) := by
  obtain ⟨-, hwrr, hfind, hindex, -⟩ := modeName_ok b.mode_pos b.mode_lt
  have hlength := b.weights_length
  rw [transActionContentBasicLoadBalance, hfind]
  dsimp only
  rw [hindex]
  dsimp only
  by_cases htwo : b.mode = 2
  · rw [if_pos htwo] at hlength
    rw [if_pos htwo] at hweight
    have hne : b.weights ≠ [] := by
      apply List.ne_nil_of_length_pos
      rw [hlength]
      exact List.length_pos_iff.mpr b.ids_ne_nil
    obtain ⟨hcount, hread⟩ := @readWeights_text env id digits _ hne b.weights_fit
    subst hweight
    rw [if_pos (hwrr.mpr htwo)]
    dsimp only
    rw [if_neg (not_not.mpr (hcount.trans hlength))]
    refine (bind_of_ok hread _).trans ?_
    have hle := b.ids_length
    have hmax : MAX_INTERFACE_CNT < MAX_LOAD_BALANCE_NODE := by decide
    have harray : addArrayValue (.replicate MAX_LOAD_BALANCE_NODE 0)
        (b.weights.map fun (w : Nat) => (w : Int)) =
          .ok (balanceAction b.mode b.weights).loadBalanceWeight := by
      rw [addArrayValue, List.length_map, List.length_replicate, if_pos (by omega),
        List.drop_replicate]
      rfl
    rw [map_cInt b.weights_fit]
    exact bind_of_ok harray _
  · rw [if_neg htwo] at hlength
    rw [if_neg htwo] at hweight
    have hnil := List.length_eq_zero_iff.mp hlength
    subst hweight
    rw [if_neg (mt hwrr.mp htwo), hnil]
    rfl

/-- The document of a treatment is converted to it. -/
theorem basicActions_text (digits : TakesDigits env.rest.python) (b : Basis env) :
    transActionContentBasicActions env id (.object b.document) resetActionConfigStruct =
      .ok b.toAction := by
  cases b with
  | drop => rfl
  | forward i valid =>
      have hread := @readInterfaces_text env id _ (List.forall_mem_singleton.mpr valid)
      exact bind_of_ok hread _
  | balance b =>
      obtain ⟨-, -, -, -, hmode⟩ := modeName_ok b.mode_pos b.mode_lt
      have hread := @readInterfaces_text env id _ b.ids_valid
      have hbalance (weight : Json)
          (h : weight = if b.mode = 2 then .str (weightText b.weights) else .null) :=
        @basicLoadBalance_text env id digits b _ h
      have hdict : Dict.ofEntries (Basis.balance b).document = (Basis.balance b).document := by
        rw [Basis.document]
        split <;> rfl
      have hinterfaces : (Basis.balance b).document.get? (py "interfaces") =
          some (nameList env b.ids) := by
        rw [Basis.document]
        split <;> rfl
      have hkeys : (Dict.keys (Basis.balance b).document).find?
          (fun key => key ∉ requestBasicActionKeys.map py) = none := by
        rw [Basis.document]
        split <;> rfl
      have hweight : ((Basis.balance b).document.get? (py "load_balance_weight")).getD .null =
          if b.mode = 2 then .str (weightText b.weights) else .null := by
        rw [Basis.document]
        split <;> rfl
      have htype : (Basis.balance b).document.get? (py "type") =
          some (.str (py "load_balance")) := rfl
      have hname : (Basis.balance b).document.get? (py "load_balance_mode") =
          some (.str (modeName b.mode)) := rfl
      obtain ⟨first, others, hcons⟩ := List.exists_cons_of_ne_nil
        (mt List.map_eq_nil_iff.mp b.ids_ne_nil :
          (b.ids.map fun i => Json.str (transInterfaceIndexToName env i)) ≠ [])
      rw [nameList, hcons] at hinterfaces
      rw [hcons] at hread
      unfold transActionContentBasicActions
      dsimp only
      rw [hdict, hkeys]
      dsimp only
      rw [htype]
      dsimp only
      rw [show requestActionType.find? (isStr (.str (py "load_balance"))) = some "load_balance"
        from rfl, hinterfaces]
      dsimp only
      refine (bind_of_ok hread _).trans ?_
      rw [if_neg (by decide), hname, Option.getD_some, if_neg (Bool.eq_false_iff.mp hmode)]
      refine (bind_of_ok (hbalance _ hweight) _).trans ?_
      have hle := b.ids_length
      have harray : addArrayValue (balanceAction b.mode b.weights).loadBalanceInterfaceArray
          (b.ids.map UInt8.ofNat) = .ok (Basis.balance b).toAction.loadBalanceInterfaceArray := by
        show addArrayValue (.replicate MAX_INTERFACE_CNT 0) _ = _
        rw [addArrayValue, List.length_map, List.length_replicate, if_pos hle, List.drop_replicate]
        rfl
      exact bind_of_ok harray _

/-! ## The whole document -/

/-- A plan as it is shown. -/
def Plan.document (p : Plan env) : Json :=
  .object ((py "basis_actions", .object p.basis.document) ::
    if p.encapsulations.document env = [] then []
    else [(py "additional_actions", .object (p.encapsulations.document env))])

/-- What counts for the packets of an action. -/
structure SameTreatment (a b : Action) : Prop where
  type : a.type = b.type
  forwardInterfaceId : a.forwardInterfaceId = b.forwardInterfaceId
  loadBalanceInterfacesNum : a.loadBalanceInterfacesNum = b.loadBalanceInterfacesNum
  loadBalanceInterfaceArray : a.loadBalanceInterfaceArray = b.loadBalanceInterfaceArray
  loadBalanceMode : a.loadBalanceMode = b.loadBalanceMode
  loadBalanceWeight : a.loadBalanceWeight = b.loadBalanceWeight
  additionalActions : a.additionalActions = b.additionalActions

/-- Storing an action touches its counter and what is computed from its weights. -/
theorem Action.stored_same {a b : Action} (h : a.stored = some b) : SameTreatment b a := by
  rw [Action.stored] at h
  split at h
  · obtain ⟨r, -, h⟩ := Option.bind_eq_some_iff.mp h
    obtain rfl := Option.some.inj h
    exact ⟨rfl, rfl, rfl, rfl, rfl, rfl, rfl⟩
  · obtain rfl := Option.some.inj h
    exact ⟨rfl, rfl, rfl, rfl, rfl, rfl, rfl⟩

theorem SameTreatment.format {a b : Action} (h : SameTreatment a b) :
    formatActionBasicAction env a = formatActionBasicAction env b := by
  simp only [formatActionBasicAction, h.type, h.forwardInterfaceId, h.loadBalanceInterfacesNum,
    h.loadBalanceInterfaceArray, h.loadBalanceMode, h.loadBalanceWeight]

/-- A stored plan is shown as its document. -/
theorem getSingleActionContent_eq {s : Conf} {p : Plan env} (hvalid : isValidActionId id = true)
    (h : p.toAction.stored = some (s.actions id.toNat)) :
    getSingleActionContent env s id = .ok p.document := by
  have hsame := Action.stored_same h
  have hbasic : formatActionBasicAction env (s.actions id.toNat) = .ok p.basis.document := by
    rw [hsame.format]
    exact formatActionBasicAction_eq p.basis
  have haddi : formatActionAddiAction env (s.actions id.toNat).additionalActions =
      p.encapsulations.document env := by
    rw [hsame.additionalActions]
    exact formatActionAddiAction_eq p.encapsulations
  rw [getSingleActionContent]
  refine (bind_of_ok (raises_ok.mpr (cArg_valid hvalid)) _).trans ?_
  rw [getActionConfig, if_pos hvalid]
  refine (bind_of_ok hbasic _).trans ?_
  rw [haddi]
  rfl

theorem Encapsulations.document_eq_nil {e : Encapsulations} (h : e.document env = []) :
    e = .none := by
  obtain ⟨gre, vxlan, erspan⟩ := e
  cases gre <;> cases vxlan <;> cases erspan <;> first | rfl | cases h

/-- The document of a plan is converted to the action of the plan. -/
theorem transDictToActionStruct_text (text : Acl.AddressText env.rest.acl env.inetNtop)
    (digits : TakesDigits env.rest.python) (p : Plan env) :
    transDictToActionStruct env id p.document resetActionConfigStruct = .ok p.toAction := by
  have hbasic := @basicActions_text env id digits p.basis
  have hreset : p.basis.toAction.additionalActions = Encapsulations.none.toAdditional := by
    cases p.basis <;> rfl
  by_cases hnil : p.encapsulations.document env = []
  · rw [Plan.document, if_pos hnil]
    refine (bind_of_ok hbasic _).trans ?_
    show Except.ok p.basis.toAction = _
    rw [Plan.toAction, Encapsulations.document_eq_nil hnil, ← hreset]
  · rw [Plan.document, if_neg hnil]
    refine (bind_of_ok hbasic _).trans ?_
    have haddi := @transAddiActions_text env id text p.encapsulations
    rw [← hreset, ← ofEntries_encapsulations] at haddi
    exact bind_of_ok haddi _

/-! ## Requests -/

/-- The id of a key as the C functions get it. -/
def passedId (env : Env) (index : PyStr) : Except Exc Int := intStr env index >>= cArg

/-- The action of an id is a plan that was stored. -/
def Planned (env : Env) (s : Conf) (id : Int) : Prop :=
  ∃ p : Plan env, p.toAction.stored = some (s.actions id.toNat)

theorem mem_keys_set {d : Dict PyStr Reason} {k key : PyStr} (v : Reason) :
    key ∈ Dict.keys (d.set k v) ↔ key = k ∨ key ∈ Dict.keys d := by
  rw [Dict.keys_set]
  split
  next h =>
    refine ⟨.inr, ?_⟩
    rintro (rfl | hkey)
    · exact h
    · exact hkey
  next => rw [List.mem_append, List.mem_singleton, or_comm]

/-- A round of `update_action_content`, with the refusals before and after it. -/
inductive Round (env : Env) (s : Conf) (index : PyStr) (data : Json) (refused : Dict PyStr Reason) :
    Conf → Dict PyStr Reason → Prop where
  | refused {refused'} (hmem : index ∈ Dict.keys refused') :
      Round env s index data refused s refused'
  | stored {id actionId a u ret refused'} (hid : intStr env index = .ok id)
      (harg : cArg id = .ok actionId)
      (haction : transDictToActionStruct env id data resetActionConfigStruct = .ok a)
      (hput : putActionConfig s a actionId = some (u, ret))
      (hmem : isValidActionId id = false ∨ isdigit env index = false → index ∈ Dict.keys refused') :
      Round env s index data refused u refused'

/-- What is refused stays so, and the rounds follow each other. -/
theorem updateActions_cons {method : String} {index : PyStr} {data : Json}
    {rest : List (PyStr × Json)} {s t : Conf} {refused final : Dict PyStr Reason}
    (h : updateActions env method ((index, data) :: rest) s refused = some (t, .ok final)) :
    ∃ u refused', Round env s index data refused u refused' ∧
      (∀ key ∈ Dict.keys refused, key ∈ Dict.keys refused') ∧
      updateActions env method rest u refused' = some (t, .ok final) := by
  have hset (d : Dict PyStr Reason) (v : Reason) : index ∈ Dict.keys (d.set index v) :=
    (mem_keys_set v).mpr (.inl rfl)
  have hkept (d : Dict PyStr Reason) (v : Reason) {key : PyStr} (hkey : key ∈ Dict.keys d) :
      key ∈ Dict.keys (d.set index v) := (mem_keys_set v).mpr (.inr hkey)
  rw [updateActions] at h
  dsimp only at h
  split at h
  next => cases (Prod.mk.inj (Option.some.inj h)).2
  next id hid =>
    generalize hdigit : (if isdigit env index then refused
      else refused.set index ⟨"invalid action id : {0}", [.str index]⟩) = refused₁ at h
    generalize hrange : (if id ≤ 0 ∨ id > MAX_ACTION_NUM then
      refused₁.set index ⟨"action id out of range : {0}", [.str index]⟩ else refused₁) =
        refused₂ at h
    have hinvalid : isValidActionId id = false ∨ isdigit env index = false →
        index ∈ Dict.keys refused₂ := by
      subst hdigit hrange
      rintro (hid' | hfalse)
      · have hout : id ≤ 0 ∨ id > MAX_ACTION_NUM := by
          have hnot := mt isValidActionId_iff.mpr (Bool.eq_false_iff.mp hid')
          omega
        rw [if_pos hout]
        exact hset _ _
      · rw [hfalse]
        split
        · exact hset _ _
        · exact hset _ _
    have hold : ∀ key ∈ Dict.keys refused, key ∈ Dict.keys refused₂ := by
      intro key hkey
      have hfirst : key ∈ Dict.keys refused₁ := by
        subst hdigit
        split
        · exact hkey
        · exact hkept _ _ hkey
      subst hrange
      split
      · exact hkept _ _ hfirst
      · exact hfirst
    split at h
    next => cases (Prod.mk.inj (Option.some.inj h)).2
    next => exact ⟨s, _, .refused (hset _ _), fun key hkey => hkept _ _ (hold key hkey), h⟩
    next =>
      split at h
      next => exact ⟨s, _, .refused (hset _ _), fun key hkey => hkept _ _ (hold key hkey), h⟩
      next => cases (Prod.mk.inj (Option.some.inj h)).2
      next a ha =>
        split at h
        next => cases (Prod.mk.inj (Option.some.inj h)).2
        next actionId harg =>
          split at h
          next => cases h
          next u ret hput =>
            refine ⟨u, _, .stored hid harg ha hput ?_, ?_, h⟩
            · intro hbad
              split
              · exact hset _ _
              · exact hinvalid hbad
            · intro key hkey
              split
              · exact hkept _ _ (hold key hkey)
              · exact hold key hkey

/-- A round leaves a plan at every id that had one. -/
theorem Round.planned (pton : Acl.InetPtonLength env.rest.acl) {s u : Conf} {index : PyStr}
    {data : Json} {refused refused' : Dict PyStr Reason}
    (h : Round env s index data refused u refused') {id : Int}
    (hfit : passedId env index = .ok id → WeightsFit env data)
    (hvalid : isValidActionId id = true) (hplan : Planned env s id) : Planned env u id := by
  cases h with
  | refused => exact hplan
  | @stored _ id' a _ _ _ hid harg haction hput hmem =>
      obtain ⟨hvalid', -, b, hb, rfl⟩ | ⟨-, -, rfl⟩ := putActionConfig_ok hput
      · by_cases heq : id' = id
        · subst heq
          have hpassed : passedId env index = .ok id' := (bind_of_ok hid _).trans harg
          obtain ⟨p, rfl⟩ := transDictToActionStruct_ok pton (hfit hpassed) haction
          exact ⟨p, hb.trans (congrArg some (Function.update_self (β := fun _ => Action) ..).symm)⟩
        · obtain ⟨p, hp⟩ := hplan
          have hne : id.toNat ≠ id'.toNat := by
            have hpos := (isValidActionId_iff.mp hvalid).1
            have hpos' := (isValidActionId_iff.mp hvalid').1
            omega
          exact ⟨p, hp.trans (congrArg some (Function.update_of_ne hne ..).symm)⟩
      · exact hplan

/-- A body that is not refused is stored as a plan. -/
theorem Round.accepted (pton : Acl.InetPtonLength env.rest.acl) {s u : Conf} {index : PyStr}
    {data : Json} {refused refused' : Dict PyStr Reason}
    (h : Round env s index data refused u refused') (hfit : WeightsFit env data)
    (haccepted : index ∉ Dict.keys refused') :
    ∃ id, intStr env index = .ok id ∧ isValidActionId id = true ∧ Planned env u id := by
  cases h with
  | refused hmem => exact absurd hmem haccepted
  | @stored id _ _ _ _ _ hid harg haction hput hmem =>
      have hvalid : isValidActionId id = true := by
        by_contra hnot
        exact haccepted (hmem (.inl (Bool.eq_false_iff.mpr hnot)))
      obtain rfl := Except.ok.inj ((cArg_valid hvalid).symm.trans harg)
      obtain ⟨-, -, b, hb, rfl⟩ | ⟨hnot, -, -⟩ := putActionConfig_ok hput
      · obtain ⟨p, rfl⟩ := transDictToActionStruct_ok pton hfit haction
        exact ⟨_, hid, hvalid, p,
          hb.trans (congrArg some (Function.update_self (β := fun _ => Action) ..).symm)⟩
      · rw [hvalid] at hnot
        cases hnot

section Run

variable {method : String} {entries : List (PyStr × Json)} {s t : Conf}
variable {refused final : Dict PyStr Reason}

theorem updateActions_refused (h : updateActions env method entries s refused =
    some (t, .ok final)) :
    ∀ key ∈ Dict.keys refused, key ∈ Dict.keys final := by
  induction entries generalizing s refused with
  | nil =>
      obtain rfl := Except.ok.inj (Prod.mk.inj (Option.some.inj h)).2
      exact fun _ hkey => hkey
  | cons e entries ih =>
      obtain ⟨u, refused', -, hkept, hrest⟩ := updateActions_cons h
      exact fun key hkey => ih hrest key (hkept key hkey)

/-- A request leaves a plan at every id that had one. -/
theorem updateActions_planned (pton : Acl.InetPtonLength env.rest.acl)
    (hfit : ∀ e ∈ entries, passedId env e.1 = .ok id → WeightsFit env e.2)
    (hvalid : isValidActionId id = true)
    (h : updateActions env method entries s refused = some (t, .ok final))
    (hplan : Planned env s id) : Planned env t id := by
  induction entries generalizing s refused with
  | nil =>
      obtain rfl := (Prod.mk.inj (Option.some.inj h)).1
      exact hplan
  | cons e entries ih =>
      obtain ⟨u, refused', hround, -, hrest⟩ := updateActions_cons h
      obtain ⟨hhead, htail⟩ := List.forall_mem_cons.mp hfit
      exact ih htail hrest (hround.planned pton hhead hvalid hplan)

/-- Every body of a request that is not refused is stored as a plan, and stays so. -/
theorem updateActions_accepted (pton : Acl.InetPtonLength env.rest.acl) {index : PyStr}
    {data : Json}
    (hfit : ∀ e ∈ entries, passedId env e.1 = passedId env index → WeightsFit env e.2)
    (h : updateActions env method entries s refused = some (t, .ok final))
    (hmem : (index, data) ∈ entries) (haccepted : index ∉ Dict.keys final) :
    ∃ id, intStr env index = .ok id ∧ isValidActionId id = true ∧ Planned env t id := by
  induction entries generalizing s refused with
  | nil => cases hmem
  | cons e entries ih =>
      obtain ⟨u, refused', hround, -, hrest⟩ := updateActions_cons h
      obtain ⟨hhead, htail⟩ := List.forall_mem_cons.mp hfit
      obtain rfl | hmem := List.mem_cons.mp hmem
      · have hnot : index ∉ Dict.keys refused' := mt (updateActions_refused hrest index) haccepted
        obtain ⟨id, hid, hvalid, hplan⟩ := hround.accepted pton (hhead rfl) hnot
        have hpassed : passedId env index = .ok id := (bind_of_ok hid _).trans (cArg_valid hvalid)
        refine ⟨id, hid, hvalid, updateActions_planned pton (fun e he heq => ?_) hvalid hrest hplan⟩
        exact htail e he (heq.trans hpassed.symm)
      · exact ih htail hrest hmem

end Run

/-- A request with the document of the plan that is stored changes nothing. -/
theorem updateActionContent_document (text : Acl.AddressText env.rest.acl env.inetNtop)
    (digits : TakesDigits env.rest.python) {s : Conf} {index : PyStr} {p : Plan env}
    (hdigit : isdigit env index = true) (hid : intStr env index = .ok id)
    (hvalid : isValidActionId id = true)
    (hplan : p.toAction.stored = some (s.actions id.toNat)) :
    updateActionContent env "put" s (.object [(index, p.document)]) = some (s, .ok []) := by
  have hrange := isValidActionId_iff.mp hvalid
  have hput : putActionConfig s p.toAction id = some (s, 0) := by
    rw [putActionConfig, if_pos hvalid, hplan, Option.map_some, Function.update_eq_self]
  show updateActions env "put" [(index, p.document)] s [] = _
  rw [updateActions]
  dsimp only
  rw [hid]
  dsimp only
  rw [if_neg (by decide)]
  dsimp only
  rw [hdigit, if_pos rfl, if_neg (by omega), transDictToActionStruct_text text digits]
  dsimp only
  rw [cArg_valid hvalid]
  dsimp only
  rw [hput]
  rfl

/-- An action that was accepted is shown as a document with which a PUT request is accepted
again and leaves the store as it is, the counter of the action included. The weights fit in all
bodies that are put under its id, also those whose own id is out of range. -/
theorem get_put_identity (text : Acl.AddressText env.rest.acl env.inetNtop)
    (digits : TakesDigits env.rest.python) {method : String} {s t : Conf} {body : Json}
    {d : Dict PyStr Json} {refused : Dict PyStr Reason} {index : PyStr} {data : Json}
    (hbody : body.dict = .ok d)
    (hupdate : updateActionContent env method s body = some (t, .ok refused))
    (hmem : (index, data) ∈ d) (haccepted : refused.get? index = none)
    (hfit : ∀ e ∈ d, passedId env e.1 = passedId env index → WeightsFit env e.2) :
    ∃ id doc, intStr env index = .ok id ∧ getSingleActionContent env t id = .ok doc ∧
      ∀ index', isdigit env index' = true → intStr env index' = .ok id →
        updateActionContent env "put" t (.object [(index', doc)]) = some (t, .ok []) := by
  have hnot : index ∉ Dict.keys refused := by
    intro h
    have hsome := Dict.get?_isSome.mpr h
    rw [haccepted] at hsome
    cases hsome
  rw [updateActionContent, hbody] at hupdate
  obtain ⟨id, hid, hvalid, p, hplan⟩ := updateActions_accepted text.length hfit hupdate hmem hnot
  refine ⟨id, p.document, hid, getSingleActionContent_eq hvalid hplan, ?_⟩
  intro index' hdigit' hid'
  exact updateActionContent_document text digits hdigit' hid' hvalid hplan

/-- Four interfaces, and digits and spaces of ASCII. -/
def fourPorts : Env where
  rest := hostsEnv
  chars :=
    { digit := fun c => (samplePython.decimal c).isSome
      space := fun c => c = 32
      digit_of_decimal := fun _ h => h
      space_of_decimal := by
        intro c h
        apply decide_eq_false
        rintro rfl
        cases h }
  inetNtop := Acl.inetNtop
  interfacesCnt := 4
  interfacesCnt_le := by decide

/-- A weighted balance between two interfaces, with a VXLAN header. -/
def balanceBody : Json :=
  .object
    [(py "basis_actions", .object
      [(py "type", .str (py "load_balance")), (py "load_balance_mode", .str (py "wrr")),
        (py "load_balance_weight", .str (py "2:1")),
        (py "interfaces", .array [.str (py "G1"), .str (py "G3")])]),
      (py "additional_actions", .object
        [(py "vxlan_encapsulation", .object
          [(py "switch", .int 1), (py "vxlan_dmac", .str (py "02:00:00:00:00:0A")),
            (py "vxlan_dip", .str (py "10.0.0.1")), (py "vxlan_dport", .int 4789)])])]

/-- Whether every body of a request was accepted. -/
def allAccepted : Option (Conf × Except Fault (Dict PyStr Reason)) → Bool
  | some (_, .ok []) => true
  | _ => false

theorem of_allAccepted {r : Option (Conf × Except Fault (Dict PyStr Reason))}
    (h : allAccepted r = true) : ∃ t, r = some (t, .ok []) := by
  unfold allAccepted at h
  split at h
  next t => exact ⟨t, rfl⟩
  next => cases h

theorem takesDigits_sample : TakesDigits samplePython := by
  intro n hn
  obtain rfl : 4300 = n := Option.some.inj hn
  decide

/-- A balance is shown and written back. -/
theorem get_put_balance : ∃ t doc,
    updateActionContent fourPorts "post" ⟨fun _ => resetActionConfigStruct⟩
      (.object [(py "1", balanceBody)]) = some (t, .ok []) ∧
    getSingleActionContent fourPorts t 1 = .ok doc ∧
    updateActionContent fourPorts "put" t (.object [(py "1", doc)]) = some (t, .ok []) := by
  obtain ⟨t, ht⟩ : ∃ t, updateActionContent fourPorts "post" ⟨fun _ => resetActionConfigStruct⟩
      (.object [(py "1", balanceBody)]) = some (t, .ok []) :=
    of_allAccepted (by decide +kernel)
  have hfit : ∀ e ∈ [(py "1", balanceBody)],
      passedId fourPorts e.1 = passedId fourPorts (py "1") → WeightsFit fourPorts e.2 := by
    intro e he _ members basis hmembers hbasis members' weight hmembers' hweight text htext
      w hw i hi
    obtain rfl := List.mem_singleton.mp he
    obtain rfl := Json.object.inj hmembers
    obtain rfl := Option.some.inj hbasis
    obtain rfl := Json.object.inj hmembers'
    obtain rfl := Option.some.inj hweight
    obtain rfl := Json.str.inj htext
    have hw : w = py "2" ∨ w = py "1" := List.mem_pair.mp hw
    obtain rfl | rfl := hw
    · obtain rfl : 2 = i := Except.ok.inj hi
      decide
    · obtain rfl : 1 = i := Except.ok.inj hi
      decide
  obtain ⟨id, doc, hid, hget, hput⟩ := get_put_identity (Acl.addressText _) takesDigits_sample
    rfl ht List.mem_cons_self rfl hfit
  obtain rfl : 1 = id := Except.ok.inj hid
  exact ⟨t, doc, ht, hget, hput (py "1") rfl rfl⟩

end Tapplet.Actions
