import Tapplet.Rest.Python
import Tapplet.Acl.Calls

/-!
# Rules over the REST interface

`acl_handler.py` and `tuple_tools.py`: a POST or PUT request carries a dictionary of groups,
each a dictionary of rules. The rules are checked and handed to `tuple_try_map_new_rule` one
after the other, and the outcome of each is recorded in a dictionary of the same shape. A POST
request of type atomic stops at the first rule that fails, and the rules recorded as created
are then deleted.

A function that reaches the store returns the store even when it raises. `none` means that a
search of the store does not end within `fuel` rounds. The store is linked, as `try_link_shm`
has found, and the identity of the user has been checked.
-/

namespace Tapplet.Rest

open Acl

/-- The Python installation and the library that the store is linked with. -/
structure Env where
  python : Python
  acl : Acl.Env

variable (env : Env)

/-- `check_ip_string`: 0 for an IPv4 address, 1 for an IPv6 address, else -1. The string goes
to `inet_pton`, which refuses an embedded 0. -/
def checkIpString (address : PyStr) : Except Exc Int := do
  let s ← utf8 address
  if 0 ∈ address then .error .valueError
  else if (env.acl.inetPton false s).isSome then .ok 0
  else if (env.acl.inetPton true s).isSome then .ok 1
  else .ok (-1)

def maxIpStrLen : Nat := 46

/-- A value that is used as a string. -/
def asStr : Json → Except Exc PyStr
  | .str s => .ok s
  | _ => .error .typeError

/-- Assigning to a `c_char` array, which takes the bytes before the first 0. -/
def cChars (v : Json) : Except Exc String := do
  let s := cString (← utf8 (← asStr v))
  if maxIpStrLen < s.utf8ByteSize then .error .valueError else .ok s

/-- The value of a key that is there is converted and assigned. -/
def setField {α : Type} (d : Dict PyStr Json) (key : String) (conv : Json → Except Exc α)
    (set : RuleCfg → α → RuleCfg) (cfg : RuleCfg) : Except Exc RuleCfg :=
  match d.get? (py key) with
  | none => .ok cfg
  | some v => (conv v).map (set cfg)

/-- `rule_cfg_dict[key]` -/
def item (d : Dict PyStr Json) (key : String) : Except Exc Json :=
  match d.get? (py key) with
  | none => .error .keyError
  | some v => .ok v

/-- `TupleRuleCfg()` -/
def zeroRuleCfg : RuleCfg := ⟨0, 0, 0, 0, 0, 0, 0, "", 0, "", 0⟩

/-- The fields of `TupleRuleCfg` -/
def tupleRuleCfgFields : List String :=
  ["is_ipv6", "sport_min", "sport_max", "dport_min", "dport_max", "proto_min", "proto_max",
    "sip", "sip_mask", "dip", "dip_mask"]

/-- `trans_dict_to_tuple_rule_cfg`. The version of the destination is taken from the key
`sip`, too. -/
def transDictToTupleRuleCfg (d : Dict PyStr Json) : Except Exc RuleCfg := do
  let cfg ← setField d "sport_min" (cUint 16) (fun c v => { c with sportMin := ⟨v⟩ }) zeroRuleCfg
  let cfg ← setField d "sport_max" (cUint 16) (fun c v => { c with sportMax := ⟨v⟩ }) cfg
  let cfg ← setField d "dport_min" (cUint 16) (fun c v => { c with dportMin := ⟨v⟩ }) cfg
  let cfg ← setField d "dport_max" (cUint 16) (fun c v => { c with dportMax := ⟨v⟩ }) cfg
  let cfg ← setField d "proto_min" (cUint 8) (fun c v => { c with protoMin := ⟨v⟩ }) cfg
  let cfg ← setField d "proto_max" (cUint 8) (fun c v => { c with protoMax := ⟨v⟩ }) cfg
  let cfg ← setField d "sip_mask" (cUint 8) (fun c v => { c with sipMask := ⟨v⟩ }) cfg
  let cfg ← setField d "dip_mask" (cUint 8) (fun c v => { c with dipMask := ⟨v⟩ }) cfg
  let newSipFlag := (d.get? (py "sip")).isSome
  let newDipFlag := (d.get? (py "dip")).isSome
  let cfg ← setField d "sip" cChars (fun c v => { c with sip := v }) cfg
  let newSipIsIpv6 ← if newSipFlag then checkIpString env (← asStr (← item d "sip")) else .ok 0
  let cfg ← setField d "dip" cChars (fun c v => { c with dip := v }) cfg
  let newDipIsIpv6 ← if newDipFlag then checkIpString env (← asStr (← item d "sip")) else .ok 0
  if newSipFlag ∧ newDipFlag then
    .ok { cfg with isIpv6 := if newSipIsIpv6 ≠ newDipIsIpv6 then 2 else UInt8.ofInt newSipIsIpv6 }
  else if newSipFlag ∧ ¬newDipFlag then
    .ok (if newSipIsIpv6 ≠ cfg.isIpv6.toNat then { cfg with isIpv6 := 2 } else cfg)
  else if newDipIsIpv6 = 0 ∧ newDipFlag then
    .ok (if newSipIsIpv6 ≠ cfg.isIpv6.toNat then { cfg with isIpv6 := 2 } else cfg)
  else .ok cfg

/-- `check_tuple_rule_config`: whether the result is `Httplib.OK`. -/
def checkTupleRuleConfig (data : Json) (isIpv6 : UInt8) : Except Exc Bool := do
  let d ← data.dict
  if ¬(Dict.keys d).all (· ∈ tupleRuleCfgFields.map py) then .ok false
  else if ¬(tupleRuleCfgFields.tail.map py).all (· ∈ Dict.keys d) then .ok false
  else
    let tupleRuleCfg ← transDictToTupleRuleCfg env d
    .ok (tupleRuleCfg.isIpv6 = isIpv6 ∧ checkTupleRuleCfg env.acl tupleRuleCfg = 0)

/-! ## Results -/

/-- What is recorded of a rule that fails. -/
inductive RuleError where
  | reason (reason : String)
  | result (reason : String) (detail : Option Int)
deriving DecidableEq

/-- `acl_new_rule_error_to_str`, for the results that the store returns. -/
def aclNewRuleErrorToStr (result : Int) : String :=
  if result > 0 then "duplicate rule"
  else if result = FAIL_REASON_INTERNAL_ERROR then "server error"
  else if result = FAIL_REASON_OLD_RULE_EXIST then "old rule exist"
  else if result = FAIL_REASON_INVALID_ID then "invalid id"
  else if result = FAIL_REASON_INVALID_CFG then "invalid rule cfg"
  else if result = FAIL_REASON_RULE_FULL then "rule full"
  else "(" ++ toString result ++ ") ???"

/-- The values of `group_result_dict`. -/
inductive RuleResult where
  | none
  | error (e : RuleError)
  | flag (b : Bool)
deriving DecidableEq

/-- The values of `result_dict`. -/
inductive GroupResult where
  | flag (b : Bool)
  | invalid (reason : String)
  | rules (d : Dict PyStr RuleResult)

/-! ## Creating rules -/

/-- The first two calls of `update_single_tuple_config`: the configuration that goes to the
store, `none` when it is refused before. -/
def tupleRequest (data : Json) (isIpv6 : UInt8) : Except Exc (Option RuleCfg) := do
  if ¬(← checkTupleRuleConfig env data isIpv6) then return none
  return some (← transDictToTupleRuleCfg env (← data.dict))

/-- `update_single_tuple_config`: `none` stands for success. -/
def updateSingleTupleConfig (fuel : Nat) (s : Conf) (groupId outerRuleId : Nat) (data : Json)
    (isIpv6 : UInt8) (checkOld : Bool) : Option (Conf × Except Exc (Option RuleError)) :=
  match tupleRequest env data isIpv6 with
  | .error e => some (s, .error e)
  | .ok none => some (s, .ok (some (.reason "Invalid rule cfg")))
  | .ok (some tupleRuleCfg) =>
      (tupleTryMapNewRule env.acl fuel s groupId outerRuleId tupleRuleCfg checkOld).map fun r =>
        (r.1, .ok (
          if r.2 = 0 then none
          else some (.result (aclNewRuleErrorToStr r.2) (if 0 < r.2 then some r.2 else none))))

/-- `rule_type_map[v]`, `none` when the value is no key. A list or dictionary has no hash. -/
def ruleTypeMap : Json → Except Exc (Option (Sum Nat String))
  | .str s =>
      .ok (if s = py "tuple4" then some (.inl 1) else if s = py "tuple6" then some (.inl 2)
        else none)
  | .int i | .float (.finite i true) =>
      .ok (if i = 1 then some (.inr "tuple4") else if i = 2 then some (.inr "tuple6") else none)
  | .bool b => .ok (if b then some (.inr "tuple4") else none)
  | .null | .float _ => .ok none
  | .array _ | .object _ => .error .typeError

/-- One round of the loop of `update_single_acl_config`. -/
def updateRule (fuel : Nat) (s : Conf) (groupId : Nat) (rule : PyStr) (tmpdict : Json)
    (isPost : Bool) : Option (Conf × Except Exc (Option RuleError)) :=
  let fail (reason : String) := some (s, .ok (some (.reason reason)))
  if isdecimal env.python rule = false then fail "Invalid rule id"
  else
    match int env.python rule with
    | .error e => some (s, .error e)
    | .ok id =>
        if id = 0 ∨ id > MAX_RULE_PER_GROUP then fail "Invalid rule id"
        else
          match tmpdict with
          | .object members =>
              let d := Dict.ofEntries members
              match d.get? (py "rule_type") with
              | none => fail "No rule_type"
              | some ruleType =>
                  match ruleTypeMap ruleType with
                  | .error e => some (s, .error e)
                  | .ok none => fail "Invalid rule_type"
                  | .ok (some type) =>
                      match d.get? (py "rule_cfg") with
                      | none => fail "No rule_cfg"
                      | some ruleCfg =>
                          if type = .inl 1 then
                            updateSingleTupleConfig env fuel s groupId id ruleCfg 0 isPost
                          else if type = .inl 2 then
                            updateSingleTupleConfig env fuel s groupId id ruleCfg 1 isPost
                          else fail "?what?"
          | _ => fail "Invalid rule data"

/-- The loop of `update_single_acl_config`. -/
def updateRules (fuel : Nat) (groupId : Nat) (isPost atomicOp : Bool) :
    List (PyStr × Json) → Conf → Dict PyStr RuleResult →
      Option (Conf × Except Exc (Dict PyStr RuleResult))
  | [], s, d => some (s, .ok d)
  | (rule, tmpdict) :: rules, s, d =>
      let d := d.set rule .none
      match updateRule env fuel s groupId rule tmpdict isPost with
      | none => none
      | some (s, .error e) => some (s, .error e)
      | some (s, .ok none) => updateRules fuel groupId isPost atomicOp rules s d
      | some (s, .ok (some e)) =>
          let d := (d.set rule (.error e)).set (py "has_fail") (.flag true)
          if atomicOp then some (s, .ok d)
          else updateRules fuel groupId isPost atomicOp rules s d

/-- `update_single_acl_config`, on the dictionary that `update_acl_config` has made. -/
def updateSingleAclConfig (fuel : Nat) (s : Conf) (groupId : Nat) (data : Json)
    (isPost atomicOp : Bool) : Option (Conf × Except Exc (Dict PyStr RuleResult)) :=
  match data.dict with
  | .error e => some (s, .error e)
  | .ok d => updateRules env fuel groupId isPost atomicOp d s [(py "has_fail", .flag false)]

/-- `decode_group_id` -/
def decodeGroupId (groupName : PyStr) : Except Exc (Option Nat) :=
  match findGroup env.python groupName with
  | none => .ok none
  | some digits => (int env.python digits).map some

/-- `check_group_index` for one id -/
def checkGroupIndex (groupId : Nat) : Bool := groupId > MAX_RULE_GROUP_CNT || groupId = 0

/-- `group_result_dict["has_fail"]` -/
def fails (d : Dict PyStr RuleResult) : Bool := d.get? (py "has_fail") = some (.flag true)

/-- The loop of `update_acl_config` over the groups. -/
def updateGroups (fuel : Nat) (isPost atomicOp : Bool) :
    List (PyStr × Json) → Conf → Dict PyStr GroupResult →
      Option (Conf × Except Exc (Dict PyStr GroupResult))
  | [], s, d => some (s, .ok d)
  | (group, data) :: groups, s, d =>
      let invalid (reason : String) :=
        let d := (d.set group (.invalid reason)).set (py "has_fail") (.flag true)
        if atomicOp then some (s, .ok d) else updateGroups fuel isPost atomicOp groups s d
      match decodeGroupId env group with
      | .error e => some (s, .error e)
      | .ok none => invalid "invalid group"
      | .ok (some groupId) =>
          if checkGroupIndex groupId then invalid "invalid group id"
          else
            match updateSingleAclConfig env fuel s groupId data isPost atomicOp with
            | none => none
            | some (s, .error e) => some (s, .error e)
            | some (s, .ok r) =>
                let d := d.set group (.rules r)
                if fails r then
                  let d := d.set (py "has_fail") (.flag true)
                  if atomicOp then some (s, .ok d)
                  else updateGroups fuel isPost atomicOp groups s d
                else updateGroups fuel isPost atomicOp groups s d

/-! ## Taking rules back -/

/-- The rules of one group that are recorded as created are deleted, one after the other. -/
def deleteCreated (groupId : Option Nat) :
    List (PyStr × RuleResult) → Conf → Conf × Except Exc Unit
  | [], s => (s, .ok ())
  | (rule, .none) :: rules, s =>
      match groupId, int env.python rule with
      | none, _ => (s, .error .typeError)
      | some _, .error e => (s, .error e)
      | some g, .ok id => deleteCreated groupId rules (aclDeleteOldMap env.acl s g id false).1
  | _ :: rules, s => deleteCreated groupId rules s

/-- The end of `update_acl_config` after a failure: the created rules of an atomic request are
deleted, and what is left of the dictionary tells the failures. -/
def takeBack (atomicOp : Bool) :
    List (PyStr × GroupResult) → Conf → Conf × Except Exc (Dict PyStr GroupResult)
  | [], s => (s, .ok [])
  | (group, .rules rules) :: groups, s =>
      match decodeGroupId env group with
      | .error e => (s, .error e)
      | .ok groupId =>
          match if atomicOp then deleteCreated env groupId rules s else (s, .ok ()) with
          | (s, .error e) => (s, .error e)
          | (s, .ok ()) =>
              let left : Dict PyStr RuleResult := rules.filter fun r => r.2 ≠ .none
              let r := takeBack atomicOp groups s
              (r.1, r.2.map fun d =>
                if fails left then (group, .rules (left.erase (py "has_fail"))) :: d else d)
  | (key, value) :: groups, s =>
      let r := takeBack atomicOp groups s
      (r.1, r.2.map ((key, value) :: ·))

/-- The values of `update_acl_config`. -/
inductive Outcome where
  /-- a PUT request cannot be atomic -/
  | unsupported
  | ok
  | badRequest (d : Dict PyStr GroupResult)

/-- `result_dict["has_fail"]` -/
def hasFail (d : Dict PyStr GroupResult) : Bool :=
  match d.get? (py "has_fail") with
  | some (.flag b) => b
  | _ => false

def updateAclConfig (fuel : Nat) (s : Conf) (data : Json) (isPost atomicOp : Bool) :
    Option (Conf × Except Exc Outcome) :=
  if isPost = false ∧ atomicOp then some (s, .ok .unsupported)
  else
    match data.dict with
    | .error e => some (s, .error e)
    | .ok d =>
        (updateGroups env fuel isPost atomicOp d s [(py "has_fail", .flag false)]).map fun r =>
          match r with
          | (s, .error e) => (s, .error e)
          | (s, .ok d) =>
              if hasFail d then
                let r := takeBack env atomicOp d s
                (r.1, r.2.map fun d => .badRequest (d.erase (py "has_fail")))
              else (s, .ok .ok)

/-- What a POST request is answered with. -/
inductive Reply where
  | created
  | badRequest (d : Dict PyStr GroupResult)
  | unknownType
  | internalServerError (e : Exc)

/-- `AclConfigHandler.post`, for the argument `type` and the value that `json.loads` makes of
the body, or its exception. -/
def post (fuel : Nat) (s : Conf) (type : Option String) (request : Except Exc Json) :
    Option (Conf × Reply) :=
  match request with
  | .error e => some (s, .internalServerError e)
  | .ok request =>
      if ∃ t ∈ type, t ≠ "atomic" then some (s, .unknownType)
      else
        (updateAclConfig env fuel s request true (type = some "atomic")).map fun r =>
          match r with
          | (s, .error e) => (s, .internalServerError e)
          | (s, .ok (.badRequest d)) => (s, .badRequest d)
          -- a POST request is never unsupported
          | (s, .ok _) => (s, .created)

end Tapplet.Rest
