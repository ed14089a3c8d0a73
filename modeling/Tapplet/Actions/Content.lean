import Tapplet.Actions.Basic
import Tapplet.Rest.AclStored

/-!
# Actions over the REST interface

`action_utils.py`: the dictionary that a request carries is checked and turned into an
`sf_action_t`, and an action is turned into such a dictionary for a GET request. A check that
fails ends with a reason; the reasons are kept as the format and the values that it is filled
with.
-/

namespace Tapplet.Actions

open Rest

/-! ## Python -/

instance : LawfulBEq PyStr := inferInstance

/-- The tables of Unicode for `str.isdigit` and for the spaces that `int` skips. -/
structure CharTables (p : Python) where
  digit : Nat → Bool
  space : Nat → Bool
  digit_of_decimal : ∀ c, (p.decimal c).isSome → digit c = true
  space_of_decimal : ∀ c, (p.decimal c).isSome → space c = false

/-- The Python installation, the C library and the number of interfaces, which lie in arrays
of `MAX_INTERFACE_CNT` entries. -/
structure Env where
  rest : Rest.Env
  chars : CharTables rest.python
  inetNtop : Bool → List UInt8 → String
  interfacesCnt : Nat
  interfacesCnt_le : interfacesCnt ≤ MAX_INTERFACE_CNT

variable (env : Env)

/-- `int` of a string. -/
def intStr (s : PyStr) : Except Exc Int :=
  let s := ((s.dropWhile env.chars.space).reverse.dropWhile env.chars.space).reverse
  let digits := if s.head? = some 43 ∨ s.head? = some 45 then s.tail else s
  if (digits.splitOn 95).all (isdecimal env.rest.python) then
    (int env.rest.python (digits.filter (· ≠ 95))).map fun (n : Nat) =>
      if s.head? = some 45 then -(n : Int) else (n : Int)
  else .error .valueError

/-- `str.isdigit` -/
def isdigit (s : PyStr) : Bool := s ≠ [] && s.all env.chars.digit

/-- `str(v).isdigit()`: the text of any other value has more than digits in it. -/
def strIsdigit : Json → Bool
  | .int i => 0 ≤ i
  | .str s => isdigit env s
  | _ => false

/-- `int(v)` for a value whose text consists of digits. -/
def intOf : Json → Except Exc Int
  | .int i => .ok i
  | .str s => intStr env s
  | _ => .error .typeError

/-- `v == s` for a string of the source. -/
def isStr (v : Json) (s : String) : Bool :=
  match v with
  | .str t => t = py s
  | _ => false

/-- A reason: a format of the source and what it is filled with. -/
structure Reason where
  format : String
  args : List Json

/-- What ends a conversion early: a check, or an exception. -/
inductive Fault where
  | refused (reason : Reason)
  | raised (e : Exc)
  | indexError

def raises {α : Type} (x : Except Exc α) : Except Fault α := x.mapError .raised

def refuse {α : Type} (format : String) (actionId : Int) (args : List Json) : Except Fault α :=
  .error (.refused ⟨format, .int actionId :: args⟩)

/-- `add_array_value` -/
def addArrayValue {α : Type} (array values : List α) : Except Fault (List α) :=
  if values.length ≤ array.length then .ok (values ++ array.drop values.length)
  else .error .indexError

/-- Assigning to a `c_int`. -/
def cInt (i : Int) : Int := i.bmod (2 ^ 32)

/-- An `int` that `ctypes` passes as a C `int`. -/
def cArg (i : Int) : Except Exc Int :=
  if -2 ^ 63 ≤ i ∧ i < 2 ^ 64 then .ok (cInt i) else .error .argumentError

/-! ## Interfaces -/

/-- `"G{0}".format(i)` -/
def interfaceName (i : Nat) : PyStr := py ("G" ++ toString i)

/-- `trans_interface_name_to_index`: a list or dictionary has no hash. -/
def transInterfaceNameToIndex : Json → Except Exc Nat
  | .str name =>
      .ok (((List.range' 1 env.interfacesCnt).find? fun i => interfaceName i = name).getD 0)
  | .array _ | .object _ => .error .typeError
  | _ => .ok 0

/-- `trans_interface_index_to_name` -/
def transInterfaceIndexToName (i : Nat) : PyStr :=
  if 1 ≤ i ∧ i ≤ env.interfacesCnt then interfaceName i else py "Not found"

/-! ## Addresses -/

def isHex (c : Nat) : Bool :=
  (48 ≤ c && c ≤ 57) || (65 ≤ c && c ≤ 70) || (97 ≤ c && c ≤ 102)

/-- The match of `([A-Fa-f0-9]{2}:){n}[A-Fa-f0-9]{2}` with the whole string. -/
def matchesMac : Nat → PyStr → Bool
  | 0, [a, b] => isHex a && isHex b
  | n + 1, a :: b :: 58 :: rest => isHex a && isHex b && matchesMac n rest
  | _, _ => false

/-- `check_mac_sting` -/
def checkMacSting (v : Json) : Except Exc Bool := (asStr v).map (matchesMac 5)

def hexValue (c : Nat) : Nat := if c ≤ 57 then c - 48 else if c ≤ 70 then c - 55 else c - 87

/-- `trans_mac_to_bytes` for a text that has been checked. -/
def transMacToBytes (macAddr : PyStr) : List UInt8 :=
  (macAddr.splitOn 58).map fun h => .ofNat (h.foldl (fun n c => n * 16 + hexValue c) 0)

/-- `trans_ubytes_to_mac_addr` -/
def transUbytesToMacAddr (macBytes : List UInt8) : PyStr :=
  [58].intercalate (macBytes.map fun b =>
    [(Nat.digitChar (b.toNat / 16)).toNat, (Nat.digitChar (b.toNat % 16)).toNat])

/-- `trans_ip_to_bytes` for an address that has been checked: the bytes go to the front. -/
def transIpToBytes (dst : List UInt8) (isIpv6 : Bool) (address : PyStr) : List UInt8 :=
  match pyInetPton env.rest isIpv6 address with
  | some bytes => bytes ++ dst.drop bytes.length
  | none => dst

/-- `tran_ubytes_to_ip` -/
def tranUbytesToIp (src : List UInt8) (ipversion : UInt8) : Json :=
  if ipversion = 4 then .str (py (env.inetNtop false (src.take 4)))
  else if ipversion = 6 then .str (py (env.inetNtop true (src.take 16)))
  else .null

/-! ## From a dictionary to an action -/

section Decode

variable (actionId : Int)

/-- A number from `lo` to `hi`. -/
def readNumber (format : String) (v : Json) (lo hi : Int) : Except Fault Nat := do
  if strIsdigit env v = false then refuse format actionId []
  else
    let i ← raises (intOf env v)
    if i < lo ∨ i > hi then refuse format actionId [] else .ok i.toNat

/-- The destination and the DSCP of an encapsulation: `gre`, `vxlan` or `erspan`. The keys of
the destination are there. -/
def readTunnel (name : String) (d : Dict PyStr Json) : Except Fault Tunnel := do
  let dip ← raises (item d (name ++ "_dip"))
  let dmac ← raises (item d (name ++ "_dmac"))
  let dscp := (d.get? (py (name ++ "_dscp"))).getD (.int 0)
  let address ← raises (asStr dip)
  let ret ← raises (checkIpString env.rest address)
  if ret = -1 then refuse ("action {0} : invalid " ++ name ++ "_encap ip") actionId []
  else
    let isMac ← raises (checkMacSting dmac)
    if isMac = false then refuse ("action {0} : invalid " ++ name ++ "_encap mac") actionId []
    else
      let macAddr ← raises (asStr dmac)
      let value ← readNumber env actionId ("action {0} : invalid " ++ name ++ "_encap dscp") dscp
        0 63
      .ok { dmac := transMacToBytes macAddr
            dipType := if ret = 0 then 4 else 6
            dip := transIpToBytes env zeroTunnel.dip (ret ≠ 0) address
            dscp := .ofNat (value <<< 2) }

/-- The keys of an encapsulation: no others than `valid`, and those that have to be there. -/
def checkKeys (name : String) (d : Dict PyStr Json) (valid : List String)
    (needed : List (String × String)) : Except Fault Unit :=
  if ¬(Dict.keys d).all (· ∈ valid.map py) then
    refuse ("action {0} : invalid " ++ name ++ "_encap cfg") actionId []
  else
    match needed.find? fun n => py n.1 ∉ Dict.keys d with
    | some n => refuse ("action {0} : no " ++ name ++ "_encap " ++ n.2) actionId []
    | none => .ok ()

def requestAddiGreEncapKeys : List String := ["switch", "gre_dmac", "gre_dip", "gre_dscp"]

def requestAddiVxlanEncapKeys : List String :=
  ["switch", "vxlan_dmac", "vxlan_dip", "vxlan_dscp", "vxlan_dport", "vxlan_vni"]

def requestAddiErspanEncapKeys : List String :=
  ["switch", "erspan_dmac", "erspan_dip", "erspan_dscp", "erspan_type", "erspan_session_id"]

def typeOfErspanList : List String := ["ERSPAN_I", "ERSPAN_II", "ERSPAN_III"]

/-- The branch of `gre_encapsulation`. -/
def transGre (d : Dict PyStr Json) (a : AdditionalActions) : Except Fault AdditionalActions := do
  checkKeys actionId "gre" d requestAddiGreEncapKeys [("gre_dip", "ip"), ("gre_dmac", "dmac")]
  let gre ← readTunnel env actionId "gre" d
  .ok { a with gre := gre, flagGreEncapsulation := true }

/-- The branch of `vxlan_encapsulation`. -/
def transVxlan (d : Dict PyStr Json) (a : AdditionalActions) : Except Fault AdditionalActions := do
  checkKeys actionId "vxlan" d requestAddiVxlanEncapKeys
    [("vxlan_dip", "ip"), ("vxlan_dmac", "dmac"), ("vxlan_dport", "dport")]
  let vxlan ← readTunnel env actionId "vxlan" d
  let vni ← readNumber env actionId "action {0} : invalid vxlan_encap vxlan_vni"
    ((d.get? (py "vxlan_vni")).getD (.int 0)) 0 0xFFFFFF
  let dportValue ← raises (item d "vxlan_dport")
  let dport ← readNumber env actionId "action {0} : invalid vxlan_encap vxlan_dport" dportValue
    0 65535
  .ok { (({ a with vxlan := vxlan }).setVxlanVni vni).setVxlanDport dport with
    flagVxlanEncapsulation := true }

/-- The branch of `erspan_encapsulation`. -/
def transErspan (d : Dict PyStr Json) (a : AdditionalActions) : Except Fault AdditionalActions := do
  checkKeys actionId "erspan" d requestAddiErspanEncapKeys
    [("erspan_dip", "ip"), ("erspan_dmac", "dmac")]
  let erspan ← readTunnel env actionId "erspan" d
  let sessionId ← readNumber env actionId "action {0} : invalid erspan_encap erspan_session_id"
    ((d.get? (py "erspan_session_id")).getD (.int 0)) 0 0x3FF
  let type := (d.get? (py "erspan_type")).getD (.str (py "ERSPAN_I"))
  match typeOfErspanList.findIdx? (isStr type) with
  | none => refuse "action {0} : invalid erspan_encap erspan_type" actionId []
  | some index =>
      .ok { a with
        erspan := erspan
        erspanSessionId := .ofNat sessionId
        erspanType := .ofNat (index + 1)
        flagErspanEncapsulation := true }

def requestAddiActionKeys : List String :=
  ["gre_encapsulation", "vxlan_encapsulation", "erspan_encapsulation"]

/-- One round of the loop of `trans_action_content_addi_actions`. -/
def transAddiAction (a : AdditionalActions) (e : PyStr × Json) : Except Fault AdditionalActions :=
  let key := e.1
  if key ∉ requestAddiActionKeys.map py then
    refuse "action {0} : invalid key {1}" actionId [.str key]
  else
    match e.2 with
    | .object members =>
        let d := Dict.ofEntries members
        match d.get? (py "switch") with
        | none => refuse "action {0} : no switch in:  {1}" actionId [.str key]
        | some switch =>
            if switch.integral ≠ some 1 then .ok a
            else if key = py "gre_encapsulation" then transGre env actionId d a
            else if key = py "vxlan_encapsulation" then transVxlan env actionId d a
            else transErspan env actionId d a
    | _ => refuse "action {0} : invalid content :  {1}" actionId [.str key]

/-- `trans_action_content_addi_actions` -/
def transActionContentAddiActions (data : Json) (a : AdditionalActions) :
    Except Fault AdditionalActions :=
  match data with
  | .object members => (Dict.ofEntries members).foldlM (transAddiAction env actionId) a
  | _ => refuse "action {0} : invalid additional_actions" actionId []

def requestLoadBalance : List String :=
  ["", "round_robin", "wrr", "outer_src_dst_ip", "outer_src_ip", "outer_dst_ip",
    "inner_src_dst_ip", "inner_src_ip", "inner_dst_ip"]

/-- `load_balance_mode_map_to_rest`, by the numbers of the modes. -/
def loadBalanceModes : List String :=
  ["", "round_robin", "wrr", "outer_src_dst_ip", "outer_src_ip", "outer_dst_ip"]

/-- One weight of `load_balance_weight`. -/
def readWeight (weight : PyStr) : Except Fault Int := do
  if isdigit env weight = false then
    refuse "action {0} : invalid load_balance_weight" actionId []
  else
    let i ← raises (intStr env weight)
    if i ≤ 0 then refuse "action {0} : invalid load_balance_weight" actionId [] else .ok i

/-- `trans_action_content_basic_load_balance`; a weight that is not there is `None`. -/
def transActionContentBasicLoadBalance (a : Action) (intfCnt : Nat)
    (loadBalanceMode loadBalanceWeight : Json) : Except Fault Action :=
  match requestLoadBalance.find? (isStr loadBalanceMode) with
  | none => refuse "action {0} : invalid load_balance_mode" actionId []
  | some name =>
      match loadBalanceModes.findIdx? (· = name) with
      | none => .error (.raised .keyError)
      | some mode =>
          let a := { a with loadBalanceMode := (mode : Int) }
          if name = "wrr" then
            match loadBalanceWeight with
            | .null => refuse "action {0} : no load_balance_weight" actionId []
            | .str weight =>
                let weightArray := weight.splitOn 58
                if weightArray.length ≠ intfCnt then
                  refuse "action {0} : interface cnt does not match load_balance_weight" actionId []
                else do
                  let weightIntArray ← weightArray.mapM (readWeight env actionId)
                  let weights ← addArrayValue a.loadBalanceWeight (weightIntArray.map cInt)
                  .ok { a with loadBalanceWeight := weights }
            | _ => refuse "action {0} : invalid load_balance_weight" actionId []
          else
            match loadBalanceWeight with
            | .null => .ok a
            | v =>
                if isStr v "" then .ok a
                else refuse "action {0} : invalid load_balance_weight" actionId []

/-- The value of a key has to be empty, if the key is there. -/
def checkEmpty (d : Dict PyStr Json) (key : String) (isEmpty : Json → Bool) : Except Fault Unit :=
  match d.get? (py key) with
  | none => .ok ()
  | some v =>
      if isEmpty v then .ok ()
      else refuse ("action {0} : invalid '" ++ key ++ "' in basis_actions") actionId []

/-- `v == []` -/
def isEmptyList : Json → Bool
  | .array [] => true
  | _ => false

/-- The index of an interface that has to exist. -/
def readInterface (intfName : Json) : Except Fault Nat := do
  let i ← raises (transInterfaceNameToIndex env intfName)
  if i = 0 then refuse "action {0} : invalid interfaces '{1}'" actionId [intfName] else .ok i

def requestBasicActionKeys : List String :=
  ["type", "interfaces", "load_balance_weight", "load_balance_mode"]

def requestActionType : List String := ["forward", "load_balance", "drop"]

/-- `trans_action_content_basic_actions` -/
def transActionContentBasicActions (data : Json) (a : Action) : Except Fault Action :=
  match data with
  | .object members =>
      let d := Dict.ofEntries members
      match (Dict.keys d).find? fun key => key ∉ requestBasicActionKeys.map py with
      | some key => refuse "action {0} : unknown key '{1}'" actionId [.str key]
      | none =>
          match d.get? (py "type") with
          | none => refuse "action {0} : no 'type' in basis_actions" actionId []
          | some v =>
              match requestActionType.find? (isStr v) with
              | none => refuse "action {0} : invalid 'type' in basis_actions" actionId []
              | some "drop" => do
                  checkEmpty actionId d "interfaces" isEmptyList
                  checkEmpty actionId d "load_balance_weight" (isStr · "")
                  checkEmpty actionId d "load_balance_mode" (isStr · "")
                  .ok { a with type := ACTION_TYPE_DROP }
              | some type =>
                  match d.get? (py "interfaces") with
                  | none => refuse "action {0} : no 'interfaces' in basis_actions" actionId []
                  | some (.array (first :: others)) => do
                      let ids ← (first :: others).mapM (readInterface env actionId)
                      if type = "forward" then
                        checkEmpty actionId d "load_balance_weight" (isStr · "")
                        checkEmpty actionId d "load_balance_mode" (isStr · "")
                        if ids.length ≠ 1 then
                          refuse "action {0} : too many 'interfaces' in basis_actions" actionId []
                        else
                          .ok { a with
                            type := ACTION_TYPE_FORWARD_INTERFACE
                            forwardInterfaceId := .ofNat (ids.headD 0) }
                      else
                        let mode := (d.get? (py "load_balance_mode")).getD (.str [])
                        if isStr mode "" then
                          refuse "action {0} : no 'load_balance_mode' " actionId []
                        else
                          let a := { a with type := ACTION_TYPE_LOAD_BALANCE_INTERFACES }
                          let a ← transActionContentBasicLoadBalance env actionId a ids.length mode
                            ((d.get? (py "load_balance_weight")).getD .null)
                          let array ← addArrayValue a.loadBalanceInterfaceArray
                            (ids.map UInt8.ofNat)
                          .ok { a with
                            loadBalanceInterfaceArray := array
                            loadBalanceInterfacesNum := .ofNat ids.length }
                  | some _ =>
                      refuse "action {0} : invalid 'interfaces' in basis_actions" actionId []
  | _ => refuse "action {0} : invalid basis_actions" actionId []

/-- `trans_dict_to_action_struct` -/
def transDictToActionStruct (data : Json) (a : Action) : Except Fault Action :=
  match data with
  | .object members =>
      let d := Dict.ofEntries members
      match (Dict.keys d).find? fun key => key ∉ ["basis_actions", "additional_actions"].map py with
      | some key => refuse "action {0} : unknown key {1}" actionId [.str key]
      | none =>
          match d.get? (py "basis_actions") with
          | none => refuse "action {0} : no basis_actions" actionId []
          | some basis => do
              let a ← transActionContentBasicActions env actionId basis a
              match d.get? (py "additional_actions") with
              | none => .ok a
              | some addi => do
                  let additional ←
                    transActionContentAddiActions env actionId addi a.additionalActions
                  .ok { a with additionalActions := additional }
  | _ => refuse "action {0} : invalid config" actionId []

end Decode

/-- `check_action_exists` -/
def checkActionExists (s : Conf) (actionId : Int) : Except Exc Bool :=
  (cArg actionId).map fun i => checkActionIfExist s i > 0

/-- The loop of `update_action_content`. `none` is the end of the process. A body whose id is
refused is converted and put all the same. -/
def updateActions (method : String) :
    List (PyStr × Json) → Conf → Dict PyStr Reason →
      Option (Conf × Except Fault (Dict PyStr Reason))
  | [], s, resultDict => some (s, .ok resultDict)
  | (index, data) :: rest, s, resultDict =>
      let resultDict := if isdigit env index then resultDict
        else resultDict.set index ⟨"invalid action id : {0}", [.str index]⟩
      match intStr env index with
      | .error e => some (s, .error (.raised e))
      | .ok id =>
          let resultDict := if id ≤ 0 ∨ id > MAX_ACTION_NUM then
              resultDict.set index ⟨"action id out of range : {0}", [.str index]⟩
            else resultDict
          match if method = "post" then checkActionExists s id else .ok false with
          | .error e => some (s, .error (.raised e))
          | .ok true =>
              updateActions method rest s
                (resultDict.set index ⟨"action {0} already exist", [.str index]⟩)
          | .ok false =>
              match transDictToActionStruct env id data resetActionConfigStruct with
              | .error (.refused reason) =>
                  updateActions method rest s (resultDict.set index reason)
              | .error e => some (s, .error e)
              | .ok action =>
                  match cArg id with
                  | .error e => some (s, .error (.raised e))
                  | .ok actionId =>
                      match putActionConfig s action actionId with
                      | none => none
                      | some (s, ret) =>
                          updateActions method rest s
                            (if ret < 0 then resultDict.set index ⟨"Internal Error", []⟩
                              else resultDict)

/-- `update_action_content`: an empty dictionary stands for `None`. -/
def updateActionContent (method : String) (s : Conf) (data : Json) :
    Option (Conf × Except Fault (Dict PyStr Reason)) :=
  match data.dict with
  | .error e => some (s, .error (.raised e))
  | .ok d => updateActions env method d s []

/-! ## From an action to a dictionary -/

/-- `list[i]` and `array[i]` -/
def element {α : Type} (xs : List α) (i : Nat) : Except Fault α :=
  match xs[i]? with
  | some x => .ok x
  | none => .error .indexError

/-- A key of a map, the number of an entry of the list. -/
def mapEntry (names : List String) (i : Int) : Except Fault String :=
  if 0 ≤ i then
    match names[i.toNat]? with
    | some name => .ok name
    | none => .error (.raised .keyError)
  else .error (.raised .keyError)

/-- `action_type_map_to_rest`, by the numbers of the types. -/
def actionTypes : List String := ["", "drop", "forward", "load_balance"]

/-- `format_action_basic_action` -/
def formatActionBasicAction (a : Action) : Except Fault (Dict PyStr Json) := do
  let type ← mapEntry actionTypes a.type
  let resultDict : Dict PyStr Json := [(py "type", .str (py type))]
  if type = "forward" then
    let name := transInterfaceIndexToName env a.forwardInterfaceId.toNat
    .ok (resultDict.set (py "interfaces") (.array [.str name]))
  else if type = "load_balance" then
    let indices := List.range a.loadBalanceInterfacesNum.toNat
    let intfArray ← indices.mapM fun i => do
      let id ← element a.loadBalanceInterfaceArray i
      pure (Json.str (transInterfaceIndexToName env id.toNat))
    let mode ← mapEntry loadBalanceModes a.loadBalanceMode
    let resultDict : Dict PyStr Json := resultDict.set (py "load_balance_mode") (.str (py mode))
    let resultDict : Dict PyStr Json ←
      if mode = "wrr" then do
        let weights ← indices.mapM fun i => do
          let w ← element a.loadBalanceWeight i
          pure (py (toString w))
        pure (resultDict.set (py "load_balance_weight") (.str ([58].intercalate weights)))
      else pure resultDict
    .ok (if intfArray.length ≠ 0 then resultDict.set (py "interfaces") (.array intfArray)
      else resultDict)
  else .ok resultDict

/-- The destination and the DSCP of an encapsulation. -/
def formatTunnel (name : String) (t : Tunnel) : Dict PyStr Json :=
  [(py "switch", .int 1), (py (name ++ "_dmac"), .str (transUbytesToMacAddr t.dmac)),
    (py (name ++ "_dip"), tranUbytesToIp env t.dip t.dipType),
    (py (name ++ "_dscp"), .int (t.dscp >>> 2).toNat)]

/-- The name of an ERSPAN type, `None` when it is none. -/
def erspanTypeName (type : UInt8) : Json :=
  if type = 0 then .null
  else match typeOfErspanList[type.toNat - 1]? with
    | some name => .str (py name)
    | none => .null

/-- `format_action_addi_action` -/
def formatActionAddiAction (a : AdditionalActions) : Dict PyStr Json :=
  (if a.flagGreEncapsulation then
      [(py "gre_encapsulation", Json.object (formatTunnel env "gre" a.gre))] else []) ++
    (if a.flagVxlanEncapsulation then
      [(py "vxlan_encapsulation", Json.object (formatTunnel env "vxlan" a.vxlan ++
        [(py "vxlan_vni", .int a.getVxlanVni), (py "vxlan_dport", .int a.getVxlanDport)]))]
      else []) ++
    if a.flagErspanEncapsulation then
      [(py "erspan_encapsulation", Json.object (formatTunnel env "erspan" a.erspan ++
        [(py "erspan_session_id", .int a.erspanSessionId.toNat),
          (py "erspan_type", erspanTypeName a.erspanType)]))]
    else []

/-- `get_single_action_content` -/
def getSingleActionContent (s : Conf) (actionId : Int) : Except Fault Json := do
  match getActionConfig s (← raises (cArg actionId)) with
  | none => .ok (.str (py "Internal Error"))
  | some a =>
      let basisAction ← formatActionBasicAction env a
      let addiAction := formatActionAddiAction env a.additionalActions
      .ok (.object ((py "basis_actions", .object basisAction) ::
        if addiAction = [] then [] else [(py "additional_actions", .object addiAction)]))

end Tapplet.Actions
