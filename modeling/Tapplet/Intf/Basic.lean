import Tapplet.Actions.Content

/-!
# The configuration of the interfaces in shared memory

`sf_intf_api.c` and the part of `ip_reass_api.c` that is about an interface: the accessors that
`ctypes` calls. They return -1 for an index outside the array. Texts cross as C strings; numbers
are cut to the type of the parameter.
-/

namespace Tapplet.Intf

open Rest Actions

def MAX_ACL_RULE_COUNT : Nat := 4096
def MAX_ACTION_COUNT : Nat := 128
def INTERFACE_ALIAS_MAX_LEN : Nat := 20

/-- `alias_name` as `strncpy` leaves it: the bytes before the zeros that fill it up. -/
structure Alias where
  text : List UInt8
  length_le : text.length ≤ INTERFACE_ALIAS_MAX_LEN
  zero_notMem : 0 ∉ text

theorem zero_notMem_cut (name : List UInt8) (n : Nat) :
    0 ∉ (name.takeWhile (· ≠ 0)).take n := by
  intro h
  simpa using List.mem_takeWhile_imp (List.mem_of_mem_take h)

/-- `strncpy(alias_name, alias, INTERFACE_ALIAS_MAX_LEN)` -/
def Alias.strncpy (name : List UInt8) : Alias where
  text := (name.takeWhile (· ≠ 0)).take INTERFACE_ALIAS_MAX_LEN
  length_le := List.length_take_le _ _
  zero_notMem := zero_notMem_cut name _

theorem Alias.ext {a b : Alias} (h : a.text = b.text) : a = b := by
  cases a
  cases b
  congr

theorem Alias.strncpy_text (a : Alias) : Alias.strncpy a.text = a := by
  apply Alias.ext
  have hall : a.text.takeWhile (· ≠ 0) = a.text := by
    rw [List.takeWhile_eq_self_iff]
    intro b hb
    apply decide_eq_true
    rintro rfl
    exact a.zero_notMem hb
  show (a.text.takeWhile (· ≠ 0)).take INTERFACE_ALIAS_MAX_LEN = a.text
  rw [hall, List.take_of_length_le a.length_le]

/-- An interface: its `sf_inferface_t`, and its elements of `admin_status`, `ip_reass_layers` and
`ip_reass_output_enable`. -/
structure Interface where
  adminStatus : UInt8
  interfaceType : UInt8
  mac : Fin 6 → UInt8
  ipaddrMask : UInt8
  ipv4Addr : Fin 4 → UInt8
  ipv6Addr : Fin 16 → UInt8
  ipv4Gateway : Fin 4 → UInt8
  ipv6Gateway : Fin 16 → UInt8
  aliasName : Alias
  aclRuleGroup : UInt8
  defaultActionId : UInt8
  ruleToAction : Fin MAX_ACL_RULE_COUNT → UInt8
  ipReassLayers : UInt8
  ipReassOutputEnable : UInt8

/-- The interfaces by their index, which starts at 1. -/
abbrev Conf := Nat → Interface

/-- An interface after `init_single_interface_config`, which keeps its MAC address when it resets
it, and after the initialisation of the reassembly. -/
def initSingleInterfaceConfig (mac : Fin 6 → UInt8) : Interface where
  adminStatus := 1
  interfaceType := 0
  mac := mac
  ipaddrMask := 0
  ipv4Addr _ := 0
  ipv6Addr _ := 0
  ipv4Gateway _ := 0
  ipv6Gateway _ := 0
  aliasName := .strncpy []
  aclRuleGroup := 1
  defaultActionId := 0
  ruleToAction _ := 0
  ipReassLayers := 1
  ipReassOutputEnable := 0

def resetConfig (s : Conf) : Conf := fun i => initSingleInterfaceConfig (s i).mac

/-- `index <= 0 || index >= MAX_INTERFACE_CNT + 1` -/
def outside (index : Int) : Bool := index ≤ 0 || MAX_INTERFACE_CNT + 1 ≤ index

/-- A getter, whose body is `f`. -/
def getAt {α : Type} (s : Conf) (index : Int) (f : Interface → Int × α) (none : α) : Int × α :=
  if outside index then (-1, none) else f (s index.toNat)

/-- A setter, whose body is `f`. -/
def setAt (s : Conf) (index : Int) (f : Interface → Interface × Int) : Conf × Int :=
  if outside index then (s, -1)
  else (Function.update s index.toNat (f (s index.toNat)).1, (f (s index.toNat)).2)

/-! ## Numbers -/

/-- A parameter of type `uint8_t`. -/
def uint8 (value : Int) : UInt8 := UInt8.ofInt value

def getNumber (s : Conf) (index : Int) (f : Interface → UInt8) : Int :=
  (getAt s index (fun i => ((f i).toNat, ())) ()).1

def setNumber (s : Conf) (index value : Int) (f : Interface → UInt8 → Interface) : Conf × Int :=
  setAt s index fun i => (f i (uint8 value), 0)

def getInterfaceAdminStatus (s : Conf) (index : Int) : Int := getNumber s index (·.adminStatus)

def setInterfaceAdminStatus (s : Conf) (index value : Int) : Conf × Int :=
  setNumber s index value fun i v => { i with adminStatus := v }

def getInterfaceInterfaceType (s : Conf) (index : Int) : Int := getNumber s index (·.interfaceType)

def setInterfaceInterfaceType (s : Conf) (index value : Int) : Conf × Int :=
  setNumber s index value fun i v => { i with interfaceType := v }

def getInterfaceIpaddrMask (s : Conf) (index : Int) : Int := getNumber s index (·.ipaddrMask)

def setInterfaceIpaddrMask (s : Conf) (index value : Int) : Conf × Int :=
  setNumber s index value fun i v => { i with ipaddrMask := v }

def getIngressAclRuleGroup (s : Conf) (index : Int) : Int := getNumber s index (·.aclRuleGroup)

def setIngressAclRuleGroup (s : Conf) (index value : Int) : Conf × Int :=
  setNumber s index value fun i v => { i with aclRuleGroup := v }

def getIngressDefaultActionId (s : Conf) (index : Int) : Int :=
  getNumber s index (·.defaultActionId)

def setIngressDefaultActionId (s : Conf) (index value : Int) : Conf × Int :=
  setNumber s index value fun i v => { i with defaultActionId := v }

/-- The accessors of the reassembly do not look at the index. -/
def ipReassGetMaxLayer (s : Conf) (index : Int) : Int := (s index.toNat).ipReassLayers.toNat

def ipReassSetMaxLayer (s : Conf) (index layers : Int) : Conf × Int :=
  (Function.update s index.toNat { s index.toNat with ipReassLayers := uint8 layers }, 0)

def ipReassGetReassOutput (s : Conf) (index : Int) : Int :=
  (s index.toNat).ipReassOutputEnable.toNat

def ipReassSetReassOutput (s : Conf) (index enable : Int) : Conf × Int :=
  (Function.update s index.toNat
    { s index.toNat with ipReassOutputEnable := if enable ≠ 0 then 1 else 0 }, 0)

/-! ## Rules -/

def getIngressRuleToAction (s : Conf) (index ruleId : Int) : Int :=
  (getAt s index (fun i =>
    if h : 1 ≤ ruleId ∧ ruleId ≤ MAX_ACL_RULE_COUNT then
      ((i.ruleToAction ⟨(ruleId - 1).toNat, by omega⟩).toNat, ())
    else (-1, ())) ()).1

def setIngressRuleToAction (s : Conf) (index ruleId actionId : Int) : Conf × Int :=
  setAt s index fun i =>
    if h : 1 ≤ ruleId ∧ ruleId ≤ MAX_ACL_RULE_COUNT then
      if MAX_ACTION_COUNT < (uint8 actionId).toNat then (i, -1)
      else
        ({ i with
          ruleToAction :=
            Function.update i.ruleToAction ⟨(ruleId - 1).toNat, by omega⟩ (uint8 actionId) }, 0)
    else (i, -1)

/-! ## Texts -/

/-- What the C library and the stack have to do with a request: the Python installation and the
library functions, and the `temp` that `set_interface_mac_addr` has not written yet, by the
interface that it is called for. -/
structure Env extends Actions.Env where
  temp : Int → Fin 6 → UInt32

def getInterfaceAliasName (s : Conf) (index : Int) : Int × List UInt8 :=
  getAt s index (fun i => (0, i.aliasName.text)) []

def setInterfaceAliasName (s : Conf) (index : Int) (name : List UInt8) : Conf × Int :=
  setAt s index fun i => ({ i with aliasName := .strncpy name }, 0)

/-- `sprintf` with `%02x` for each byte. -/
def macText (mac : Fin 6 → UInt8) : String :=
  Acl.joinParts ':' ((List.ofFn mac).map Acl.hexText)

/-- `%02x` of `sscanf`: at most two characters behind white space, of which the first may be a
sign. -/
def scanHex2 (text : List Char) : Option (UInt32 × List Char) :=
  let value (c : Char) : Option Nat := if isHex c.toNat then some (hexValue c.toNat) else none
  match text.dropWhile fun c => c = ' ' ∨ 9 ≤ c.toNat ∧ c.toNat ≤ 13 with
  | [] => none
  | c :: rest =>
    match value c, rest with
    | some high, d :: tail =>
        match value d with
        | some low => some (UInt32.ofNat (16 * high + low), tail)
        | none => if c = '0' ∧ (d = 'x' ∨ d = 'X') then none else some (UInt32.ofNat high, rest)
    | some low, [] => some (UInt32.ofNat low, [])
    | none, d :: tail =>
        match value d with
        | some low =>
            if c = '-' then some (0 - UInt32.ofNat low, tail)
            else if c = '+' then some (UInt32.ofNat low, tail) else none
        | none => none
    | none, [] => none

/-- `sscanf` with `n` more groups to read, from group `k` on: how many it has read, and `temp`. -/
def scanMac : Nat → Nat → List Char → (Nat → UInt32) → Nat × (Nat → UInt32)
  | 0, k, _, temp => (k, temp)
  | n + 1, k, text, temp =>
      match scanHex2 text with
      | none => (k, temp)
      | some (x, rest) =>
          let temp := Function.update temp k x
          match n, rest with
          | 0, _ => (k + 1, temp)
          | n + 1, ':' :: rest => scanMac (n + 1) (k + 1) rest temp
          | _ + 1, _ => (k + 1, temp)

def getInterfaceMacAddr (s : Conf) (index : Int) : Int × String :=
  getAt s index (fun i => (0, macText i.mac)) ""

/-- The address is written before it is known whether all of it was read. -/
def setInterfaceMacAddr (env : Env) (s : Conf) (index : Int) (macStr : String) : Conf × Int :=
  setAt s index fun i =>
    let r := scanMac 6 0 macStr.toList fun k => if h : k < 6 then env.temp index ⟨k, h⟩ else 0
    ({ i with mac := fun k => (r.2 k &&& 0xff).toUInt8 }, if r.1 ≠ 6 then -1 else 0)

/-- `sprintf(ip_str, "%d.%d.%d.%d", …)` -/
def dottedText (a : Fin 4 → UInt8) : String :=
  Acl.joinParts '.' ((List.ofFn a).map Acl.decimalText)

def getIpv4 (s : Conf) (index : Int) (f : Interface → Fin 4 → UInt8) : Int × String :=
  getAt s index (fun i => (0, dottedText (f i))) ""

/-- `inet_ntop` into a buffer of 40 bytes. -/
def getIpv6 (env : Env) (s : Conf) (index : Int) (f : Interface → Fin 16 → UInt8) : Int × String :=
  getAt s index (fun i =>
    let text := env.inetNtop true (List.ofFn (f i))
    if text.utf8ByteSize < 40 then (0, text) else (-1, "")) ""

/-- `inet_pton` to an address in place. -/
def setIp {n : Nat} (env : Env) (s : Conf) (index : Int) (isIpv6 : Bool) (ipStr : String)
    (f : Interface → (Fin n → UInt8) → Interface) : Conf × Int :=
  setAt s index fun i =>
    match env.rest.acl.inetPton isIpv6 ipStr with
    | some bytes => (f i fun k => bytes.getD k 0, 0)
    | none => (i, -1)

def getInterfaceIpv4 (s : Conf) (index : Int) : Int × String := getIpv4 s index (·.ipv4Addr)

def setInterfaceIpv4 (env : Env) (s : Conf) (index : Int) (ipStr : String) : Conf × Int :=
  setIp env s index false ipStr fun i a => { i with ipv4Addr := a }

def getInterfaceIpv4Gateway (s : Conf) (index : Int) : Int × String :=
  getIpv4 s index (·.ipv4Gateway)

def setInterfaceIpv4Gateway (env : Env) (s : Conf) (index : Int) (ipStr : String) : Conf × Int :=
  setIp env s index false ipStr fun i a => { i with ipv4Gateway := a }

def getInterfaceIpv6 (env : Env) (s : Conf) (index : Int) : Int × String :=
  getIpv6 env s index (·.ipv6Addr)

def setInterfaceIpv6 (env : Env) (s : Conf) (index : Int) (ipStr : String) : Conf × Int :=
  setIp env s index true ipStr fun i a => { i with ipv6Addr := a }

def getInterfaceIpv6Gateway (env : Env) (s : Conf) (index : Int) : Int × String :=
  getIpv6 env s index (·.ipv6Gateway)

def setInterfaceIpv6Gateway (env : Env) (s : Conf) (index : Int) (ipStr : String) : Conf × Int :=
  setIp env s index true ipStr fun i a => { i with ipv6Gateway := a }

end Tapplet.Intf
