import Tapplet.Intf.Basic

/-!
# Interfaces over the REST interface

`interface_handler.py`: an interface is read into a dictionary key by key, and a dictionary is
written to an interface key by key. A key whose value is refused ends the request, and so does an
exception; what has been written stays.
-/

namespace Tapplet.Intf

open Rest Actions

/-- The status codes of `Httplib` that the functions return. -/
inductive Status where
  | ok
  | badRequest
  | notFound
  | internalServerError
deriving DecidableEq

/-- The exceptions. -/
inductive Raised where
  | py (e : Exc)
  | unicodeDecodeError

def getMaxRuleId : Nat := 2048

def interfaceConfigKeys : List PyStr :=
  ["admin_status", "port_id", "alias", "interface_type", "mac", "ipaddr_mask", "ipv4_addr",
    "ipv6_addr", "ipv4_gateway", "ipv6_gateway", "ingress_config", "ip_reass_config"].map py

def ingressConfigKeys : List PyStr :=
  ["acl_rule_group", "default_action_id", "rule_to_action"].map py

def ipReassConfigKeys : List PyStr := ["ip_reass_layers", "ip_reass_output_enable"].map py

/-! ## Reading -/

/-- What a function that reads a key returns. -/
abbrev Answer := Except Raised (Status × Dict PyStr Json)

/-- `tmpdict.update({name : result})`, unless the result is -1. -/
def answer (tmpdict : Dict PyStr Json) (name : String) (result : Int) (value : Json) : Answer :=
  if result = -1 then .ok (.internalServerError, []) else .ok (.ok, tmpdict.set (py name) value)

/-- The keys are read one after the other, as long as each is there. -/
def readKeys (read : PyStr → Dict PyStr Json → Answer) : List PyStr → Dict PyStr Json → Answer
  | [], tmpdict => .ok (.ok, tmpdict)
  | key :: keys, tmpdict =>
      match read key tmpdict with
      | .ok (.ok, tmpdict) => readKeys read keys tmpdict
      | .ok (status, _) => .ok (status, [])
      | .error e => .error e

/-- `str(temp_str.value, encoding="utf-8")` -/
def decodeUtf8 (bytes : List UInt8) : Except Raised PyStr :=
  match String.fromUTF8? ⟨bytes.toArray⟩ with
  | some s => .ok (py s)
  | none => .error .unicodeDecodeError

variable (env : Env)

section Reading

variable (s : Conf) (index : Nat)

def getSingleInterfaceIpReassConfig (key : PyStr) (tmpdict : Dict PyStr Json) : Answer :=
  if key = py "ip_reass_layers" then
    let result := ipReassGetMaxLayer s index
    answer tmpdict "ip_reass_layers" result (.int result)
  else if key = py "ip_reass_output_enable" then
    let result := ipReassGetReassOutput s index
    answer tmpdict "ip_reass_output_enable" result (.int result)
  else .ok (.notFound, [])

/-- The rules that have an action, up to `get_max_rule_id()`. -/
def readRules : List Nat → Dict PyStr Json → Answer
  | [], tmpRuleDict => .ok (.ok, tmpRuleDict)
  | i :: rest, tmpRuleDict =>
      let result := getIngressRuleToAction s index i
      if result = -1 then .ok (.internalServerError, [])
      else if result ≠ 0 then readRules rest (tmpRuleDict.set (py (toString i)) (.int result))
      else readRules rest tmpRuleDict

def getSingleInterfaceIngressConfig (key : PyStr) (tmpdict : Dict PyStr Json) : Answer :=
  if key = py "acl_rule_group" then
    let result := getIngressAclRuleGroup s index
    answer tmpdict "acl_rule_group" result (.int result)
  else if key = py "default_action_id" then
    let result := getIngressDefaultActionId s index
    answer tmpdict "default_action_id" result (.int result)
  else if key = py "rule_to_action" then
    match readRules s index (List.range' 1 getMaxRuleId) [] with
    | .ok (.ok, rules) => .ok (.ok, tmpdict.set (py "rule_to_action") (.object rules))
    | r => r
  else .ok (.notFound, [])

def getSingleInterfaceConfig (key : PyStr) (tmpdict : Dict PyStr Json) : Answer :=
  if key = py "admin_status" then
    let result := getInterfaceAdminStatus s index
    answer tmpdict "admin_status" result (.int result)
  else if key = py "port_id" then .ok (.ok, tmpdict.set (py "port_id") (.int index))
  else if key = py "alias" then
    let result := getInterfaceAliasName s index
    if result.1 = -1 then .ok (.internalServerError, [])
    else do
      let name ← decodeUtf8 result.2
      .ok (.ok, tmpdict.set (py "alias") (.str name))
  else if key = py "interface_type" then
    let result := getInterfaceInterfaceType s index
    if result = -1 then .ok (.internalServerError, [])
    else if result = 0 then .ok (.ok, tmpdict.set (py "interface_type") (.str (py "normal")))
    else if result = 1 then .ok (.ok, tmpdict.set (py "interface_type") (.str (py "loopback")))
    else if result = 2 then .ok (.ok, tmpdict.set (py "interface_type") (.str (py "force_tx")))
    else if result = 3 then
      .ok (.ok, tmpdict.set (py "interface_type") (.str (py "normal_and_check")))
    else if result = 4 then .ok (.ok, tmpdict.set (py "interface_type") (.str (py "tunnel")))
    else .ok (.ok, tmpdict)
  else if key = py "mac" then
    let result := getInterfaceMacAddr s index
    answer tmpdict "mac" result.1 (.str (py result.2))
  else if key = py "ipv4_addr" then
    let result := getInterfaceIpv4 s index
    answer tmpdict "ipv4_addr" result.1 (.str (py result.2))
  else if key = py "ipv6_addr" then
    let result := getInterfaceIpv6 env s index
    answer tmpdict "ipv6_addr" result.1 (.str (py result.2))
  else if key = py "ipaddr_mask" then
    let result := getInterfaceIpaddrMask s index
    answer tmpdict "ipaddr_mask" result (.int result)
  else if key = py "ipv4_gateway" then
    let result := getInterfaceIpv4Gateway s index
    answer tmpdict "ipv4_gateway" result.1 (.str (py result.2))
  else if key = py "ipv6_gateway" then
    let result := getInterfaceIpv6Gateway env s index
    answer tmpdict "ipv6_gateway" result.1 (.str (py result.2))
  else if key = py "ingress_config" then
    match readKeys (getSingleInterfaceIngressConfig s index) ingressConfigKeys [] with
    | .ok (.ok, tmp) => .ok (.ok, tmpdict.set (py "ingress_config") (.object tmp))
    | r => r
  else if key = py "ip_reass_config" then
    match readKeys (getSingleInterfaceIpReassConfig s index) ipReassConfigKeys [] with
    | .ok (.ok, tmp) => .ok (.ok, tmpdict.set (py "ip_reass_config") (.object tmp))
    | r => r
  else .ok (.notFound, [])

end Reading

/-- The interfaces are read one after the other. -/
def readInterfaces (s : Conf) : List Nat → Dict PyStr Json → Answer
  | [], resultDict => .ok (.ok, resultDict)
  | i :: rest, resultDict =>
      match readKeys (getSingleInterfaceConfig env s i) interfaceConfigKeys [] with
      | .ok (.ok, tmpdict) =>
          readInterfaces s rest (resultDict.set (interfaceName i) (.object tmpdict))
      | .ok (status, _) => .ok (status, [])
      | .error e => .error e

/-- `get_interfaces_config(None, None)` -/
def getInterfacesConfig (s : Conf) : Answer :=
  readInterfaces env s (List.range' 1 env.interfacesCnt) []

/-! ## Writing -/

/-- What a function that writes leaves and returns. -/
abbrev Written := Conf × Except Raised Status

/-- `int(v)` -/
def pyInt : Json → Except Exc Int
  | .int i => .ok i
  | .bool b => .ok (if b then 1 else 0)
  | .float f => f.toInt
  | .str s => intStr env.toEnv s
  | _ => .error .typeError

/-- `value.encode("utf-8")` as the C string that is passed. -/
def encodeUtf8 (v : Json) : Except Raised String :=
  match v with
  | .str a => ((utf8 a).map cString).mapError .py
  | _ => .error (.py .attributeError)

/-- The status for the result of a setter. -/
def Written.ofResult (r : Conf × Int) : Written :=
  (r.1, .ok (if r.2 ≠ 0 then .badRequest else .ok))

/-- `so.set_…(int(index), int(value))` -/
def writeNumber (s : Conf) (v : Json) (set : Int → Conf × Int) : Written :=
  match (pyInt env v >>= cArg).mapError .py with
  | .ok i => .ofResult (set i)
  | .error e => (s, .error e)

/-- `so.set_…(int(index), value.encode("utf-8"))` -/
def writeText (s : Conf) (v : Json) (set : String → Conf × Int) : Written :=
  match encodeUtf8 v with
  | .ok text => .ofResult (set text)
  | .error e => (s, .error e)

/-- The keys are written one after the other, as long as each is accepted. -/
def writeKeys (write : Conf → PyStr → Json → Written) : Conf → List (PyStr × Json) → Written
  | s, [] => (s, .ok .ok)
  | s, (key, v) :: rest =>
      match write s key v with
      | (s, .ok .ok) => writeKeys write s rest
      | r => r

/-- A dictionary whose keys are written. -/
def writeDict (write : Conf → PyStr → Json → Written) (s : Conf) (v : Json) : Written :=
  match v with
  | .object members => writeKeys write s (Dict.ofEntries members)
  | _ => (s, .ok .badRequest)

section Writing

variable (index : Nat)

def updateSingleIpReassConfigInternal (s : Conf) (key : PyStr) (value : Json) : Written :=
  if key = py "ip_reass_layers" then writeNumber env s value (ipReassSetMaxLayer s index)
  else if key = py "ip_reass_output_enable" then
    writeNumber env s value (ipReassSetReassOutput s index)
  else (s, .ok .notFound)

/-- Every action up to `get_max_rule_id()` is set to 0. -/
def clearRules (s : Conf) : List Nat → Written
  | [] => (s, .ok .ok)
  | i :: rest =>
      let r := setIngressRuleToAction s index i 0
      if r.2 ≠ 0 then (r.1, .ok .internalServerError) else clearRules r.1 rest

/-- `int(rule_id)` and `int(value[rule_id])` as they are passed. -/
def ruleArgs (ruleId : PyStr) (value : Json) : Except Exc (Int × Int) := do
  let i ← intStr env.toEnv ruleId
  let v ← pyInt env value
  let i ← cArg i
  let v ← cArg v
  .ok (i, v)

/-- `so.set_ingress_rule_to_action(int(index), int(rule_id), int(value[rule_id]))` -/
def writeRule (s : Conf) (ruleId : PyStr) (value : Json) : Written :=
  match (ruleArgs env ruleId value).mapError .py with
  | .ok (i, v) => .ofResult (setIngressRuleToAction s index i v)
  | .error e => (s, .error e)

def updateSingleIngressConfigInternal (s : Conf) (key : PyStr) (value : Json) : Written :=
  if key = py "acl_rule_group" then writeNumber env s value (setIngressAclRuleGroup s index)
  else if key = py "default_action_id" then
    writeNumber env s value (setIngressDefaultActionId s index)
  else if key = py "rule_to_action" then
    match value with
    | .object [] => clearRules index s (List.range' 1 getMaxRuleId)
    | _ => writeDict (writeRule env index) s value
  else (s, .ok .notFound)

/-- `intf_type_dict` -/
def intfTypeDict : Dict PyStr Int :=
  [(py "normal", 0), (py "loopbak", 1), (py "force_tx", 2), (py "normal_and_check", 3),
    (py "tunnel", 4)]

/-- `intf_type_dict[value]`: a list or dictionary has no hash. -/
def intfTypeOf : Json → Except Raised Int
  | .str name => match intfTypeDict.get? name with
      | some i => .ok i
      | none => .error (.py .keyError)
  | .array _ | .object _ => .error (.py .typeError)
  | _ => .error (.py .keyError)

def updateSingleInterfaceConfigInternal (s : Conf) (key : PyStr) (value : Json) : Written :=
  if key = py "admin_status" then writeNumber env s value (setInterfaceAdminStatus s index)
  else if key = py "port_id" then (s, .ok .ok)
  else if key = py "alias" then
    writeText s value fun name => setInterfaceAliasName s index name.toByteArray.data.toList
  else if key = py "interface_type" then
    match intfTypeOf value with
    | .ok i => .ofResult (setInterfaceInterfaceType s index i)
    | .error e => (s, .error e)
  else if key = py "mac" then writeText s value (setInterfaceMacAddr env s index)
  else if key = py "ipv4_addr" then writeText s value (setInterfaceIpv4 env s index)
  else if key = py "ipv6_addr" then writeText s value (setInterfaceIpv6 env s index)
  else if key = py "ipaddr_mask" then
    writeNumber env s value (setInterfaceIpaddrMask s index)
  else if key = py "ipv4_gateway" then writeText s value (setInterfaceIpv4Gateway env s index)
  else if key = py "ipv6_gateway" then writeText s value (setInterfaceIpv6Gateway env s index)
  else if key = py "ingress_config" then
    writeDict (updateSingleIngressConfigInternal env index) s value
  else if key = py "ip_reass_config" then
    writeDict (updateSingleIpReassConfigInternal env index) s value
  else (s, .ok .notFound)

end Writing

/-- `check_interface_index` for one index. -/
def checkInterfaceIndex (index : Nat) : Bool := env.interfacesCnt < index || index = 0

def updateSingleInterfaceConfig (s : Conf) (index : Nat) (config : Json) : Written :=
  if config.isDict = false then (s, .ok .badRequest)
  else if checkInterfaceIndex env index then (s, .ok .notFound)
  else writeDict (updateSingleInterfaceConfigInternal env index) s config

/-- `update_interface_config` of a dictionary; `index` is `trans_interface_name_to_index`. -/
def updateInterfaceConfig (s : Conf) (config : Dict PyStr Json) : Written :=
  let index (name : PyStr) : Nat :=
    ((List.range' 1 env.interfacesCnt).find? fun i => interfaceName i = name).getD 0
  if config.any fun e => checkInterfaceIndex env (index e.1) then (s, .ok .notFound)
  else writeKeys (fun s name v => updateSingleInterfaceConfig env s (index name) v) s config

end Tapplet.Intf
