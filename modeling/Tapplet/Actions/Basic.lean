import Mathlib.Algebra.GroupWithZero.Nat
import Mathlib.Algebra.Ring.Int.Defs
import Mathlib.Logic.Function.Basic
import Mathlib.Tactic.Common

/-!
# Actions in the shared memory

`sf_action_t` and the functions of `action_api.c`. An action says where a packet goes and which
headers it gets. The three encapsulations have a destination and a DSCP each, in fields of
their own, and what they have in common is a structure here. The shared memory is linked, and
numbers lie in it with the low byte first.
-/

namespace Tapplet.Actions

def MAX_ACTION_NUM : Nat := 128
def MAX_INTERFACE_CNT : Nat := 63
def MAX_LOAD_BALANCE_NODE : Nat := 64

def ACTION_TYPE_DROP : Int := 1
def ACTION_TYPE_FORWARD_INTERFACE : Int := 2
def ACTION_TYPE_LOAD_BALANCE_INTERFACES : Int := 3

def LOAD_BALANCE_MODE_WRR : Int := 2

/-- `gre_dmac`, `gre_dip_type`, `gre_dip`, `gre_dscp` and their namesakes: 6 bytes, 4 or 6,
16 bytes, and a DSCP in its place in the traffic class. -/
structure Tunnel where
  dmac : List UInt8
  dipType : UInt8
  dip : List UInt8
  dscp : UInt8
deriving DecidableEq

/-- `additional_action_t`. The port and the VNI are kept in network order. -/
structure AdditionalActions where
  flagGreEncapsulation : Bool
  flagVxlanEncapsulation : Bool
  flagErspanEncapsulation : Bool
  gre : Tunnel
  vxlan : Tunnel
  vxlanDport : UInt16
  vxlanVni : UInt32
  erspan : Tunnel
  erspanType : UInt8
  erspanSessionId : UInt16
deriving DecidableEq

/-- `load_balance_weight_t` -/
structure LoadBalanceWeight where
  cw : Int
  gcd : Int
  mw : Int
deriving DecidableEq

/-- `sf_action_t` -/
structure Action where
  refCounter : UInt32
  type : Int
  forwardInterfaceId : UInt8
  loadBalanceInterfacesNum : UInt8
  loadBalanceInterfaceArray : List UInt8
  additionalActions : AdditionalActions
  loadBalanceMode : Int
  weightData : LoadBalanceWeight
  loadBalanceIndex : UInt32
  loadBalanceWeight : List Int
deriving DecidableEq

def zeroTunnel : Tunnel := ⟨.replicate 6 0, 0, .replicate 16 0, 0⟩

/-- `reset_action_config_struct` -/
def resetActionConfigStruct : Action where
  refCounter := 0
  type := 0
  forwardInterfaceId := 0
  loadBalanceInterfacesNum := 0
  loadBalanceInterfaceArray := .replicate MAX_INTERFACE_CNT 0
  additionalActions := ⟨false, false, false, zeroTunnel, zeroTunnel, 0, 0, zeroTunnel, 0, 0⟩
  loadBalanceMode := 0
  weightData := ⟨0, 0, 0⟩
  loadBalanceIndex := 0
  loadBalanceWeight := .replicate MAX_LOAD_BALANCE_NODE 0

/-- `htons` and `ntohs` -/
def htons (x : UInt16) : UInt16 := .ofNat (x.toNat % 256 * 256 + x.toNat / 256)

/-- `htonl` and `ntohl` -/
def htonl (x : UInt32) : UInt32 :=
  .ofNat (x.toNat % 256 * 16777216 + x.toNat / 256 % 256 * 65536 +
    x.toNat / 65536 % 256 * 256 + x.toNat / 16777216)

/-- `set_additional_vxlan_vni` -/
def AdditionalActions.setVxlanVni (a : AdditionalActions) (value : Nat) : AdditionalActions :=
  { a with vxlanVni := htonl (.ofNat (value % 2 ^ 24 * 2 ^ 8)) }

/-- `set_additional_vxlan_dport` -/
def AdditionalActions.setVxlanDport (a : AdditionalActions) (value : Nat) : AdditionalActions :=
  { a with vxlanDport := htons (.ofNat (value % 2 ^ 16)) }

/-- `get_additional_vxlan_vni` -/
def AdditionalActions.getVxlanVni (a : AdditionalActions) : Nat := (htonl a.vxlanVni).toNat / 2 ^ 8

/-- `get_additional_vxlan_dport` -/
def AdditionalActions.getVxlanDport (a : AdditionalActions) : Nat := (htons a.vxlanDport).toNat

/-! ## Storing -/

/-- The loop of `calc_gcd`. A division by 0 ends the process. -/
def calcGcdLoop : Nat → Int → Int → Option Int
  | fuel, a, b =>
      if b = 0 then none
      else
        let c := a.tmod b
        if c = 0 then some b
        else match fuel with
          | 0 => none
          | fuel + 1 => calcGcdLoop fuel b c

/-- `calc_gcd`: the second number gets nearer to 0 in every round. -/
def calcGcd (a b : Int) : Option Int := calcGcdLoop b.natAbs a b

/-- `weight_calc_max` for the first `num` weights: the divisor and the greatest weight. -/
def weightCalcMax (weight : List Int) (num : Nat) : Option (Int × Int) :=
  let first := weight.headD 0
  ((weight.take num).drop 1).foldlM (fun r w => do
    let gcd ← calcGcd w r.1
    some (gcd, if w > r.2 then w else r.2)) (first, first)

/-- `action_config_ptr`, by the ids of the actions. -/
structure Conf where
  actions : Nat → Action

def isValidActionId (id : Int) : Bool := 1 ≤ id && id ≤ MAX_ACTION_NUM

/-- `get_action_config`: `none` stands for -1. -/
def getActionConfig (s : Conf) (actionId : Int) : Option Action :=
  if isValidActionId actionId then some (s.actions actionId.toNat) else none

/-- What `put_action_config` makes of an action. -/
def Action.stored (action : Action) : Option Action := do
  let weightData ←
    if action.loadBalanceMode = LOAD_BALANCE_MODE_WRR then do
      let r ← weightCalcMax action.loadBalanceWeight action.loadBalanceInterfacesNum.toNat
      pure ⟨0, r.1, r.2⟩
    else pure action.weightData
  some { action with weightData := weightData, refCounter := action.refCounter + 1 }

/-- `put_action_config`: the store and the value. `none` stands for the end of the process. -/
def putActionConfig (s : Conf) (action : Action) (actionId : Int) : Option (Conf × Int) :=
  if isValidActionId actionId then
    action.stored.map fun a => (⟨Function.update s.actions actionId.toNat a⟩, 0)
  else some (s, -1)

/-- `check_action_if_exist` -/
def checkActionIfExist (s : Conf) (actionId : Int) : Int :=
  if isValidActionId actionId then if (s.actions actionId.toNat).refCounter > 0 then 1 else 0
  else -1

theorem isValidActionId_iff {id : Int} :
    isValidActionId id = true ↔ 1 ≤ id ∧ id ≤ MAX_ACTION_NUM := by
  rw [isValidActionId, Bool.and_eq_true, decide_eq_true_eq, decide_eq_true_eq]

/-- What `put_action_config` does, by its value. -/
theorem putActionConfig_ok {s t : Conf} {a : Action} {id ret : Int}
    (h : putActionConfig s a id = some (t, ret)) :
    (isValidActionId id = true ∧ ret = 0 ∧ ∃ b, a.stored = some b ∧
      t = ⟨Function.update s.actions id.toNat b⟩) ∨
    (isValidActionId id = false ∧ ret = -1 ∧ t = s) := by
  rw [putActionConfig] at h
  split at h
  next hvalid =>
    obtain ⟨b, hb, heq⟩ := Option.map_eq_some_iff.mp h
    obtain ⟨rfl, rfl⟩ := Prod.mk.inj heq
    exact .inl ⟨hvalid, rfl, b, hb, rfl⟩
  next hvalid =>
    obtain ⟨rfl, rfl⟩ := Prod.mk.inj (Option.some.inj h)
    exact .inr ⟨Bool.eq_false_iff.mpr hvalid, rfl, rfl⟩

/-! ## Network order -/

theorem toNat_htons {a b : Nat} (ha : a < 256) (hb : b < 256) {x : UInt16}
    (hx : x.toNat = b * 256 + a) : (htons x).toNat = a * 256 + b := by
  rw [htons, UInt16.toNat_ofNat', hx]
  have hlow : (b * 256 + a) % 256 = a := by omega
  have hhigh : (b * 256 + a) / 256 = b := by omega
  rw [hlow, hhigh]
  exact Nat.mod_eq_of_lt (show a * 256 + b < 65536 by omega)

theorem htons_htons (x : UInt16) : htons (htons x) = x := by
  have hx := x.toNat_lt
  have ha : x.toNat % 256 < 256 := Nat.mod_lt _ (by decide)
  have hb : x.toNat / 256 < 256 := by omega
  have hsum : x.toNat = x.toNat / 256 * 256 + x.toNat % 256 := by omega
  apply UInt16.toNat_inj.mp
  rw [toNat_htons hb ha (toNat_htons ha hb hsum), ← hsum]

theorem toNat_htonl {a b c d : Nat} (ha : a < 256) (hb : b < 256) (hc : c < 256)
    (hd : d < 256) {x : UInt32}
    (hx : x.toNat = d * 16777216 + c * 65536 + b * 256 + a) :
    (htonl x).toNat = a * 16777216 + b * 65536 + c * 256 + d := by
  rw [htonl, UInt32.toNat_ofNat', hx]
  have hfirst : (d * 16777216 + c * 65536 + b * 256 + a) % 256 = a := by omega
  have hsecond : (d * 16777216 + c * 65536 + b * 256 + a) / 256 % 256 = b := by omega
  have hthird : (d * 16777216 + c * 65536 + b * 256 + a) / 65536 % 256 = c := by omega
  have hfourth : (d * 16777216 + c * 65536 + b * 256 + a) / 16777216 = d := by omega
  rw [hfirst, hsecond, hthird, hfourth]
  exact Nat.mod_eq_of_lt
    (show a * 16777216 + b * 65536 + c * 256 + d < 4294967296 by omega)

theorem htonl_htonl (x : UInt32) : htonl (htonl x) = x := by
  have hx := x.toNat_lt
  have ha : x.toNat % 256 < 256 := Nat.mod_lt _ (by decide)
  have hb : x.toNat / 256 % 256 < 256 := Nat.mod_lt _ (by decide)
  have hc : x.toNat / 65536 % 256 < 256 := Nat.mod_lt _ (by decide)
  have hd : x.toNat / 16777216 < 256 := by omega
  have hsum : x.toNat = x.toNat / 16777216 * 16777216 + x.toNat / 65536 % 256 * 65536 +
      x.toNat / 256 % 256 * 256 + x.toNat % 256 := by omega
  apply UInt32.toNat_inj.mp
  rw [toNat_htonl hd hc hb ha (toNat_htonl ha hb hc hd hsum), ← hsum]

/-- The VNI is read as it was set. -/
theorem getVxlanVni_set (a : AdditionalActions) {value : Nat} (h : value < 2 ^ 24) :
    (a.setVxlanVni value).getVxlanVni = value := by
  rw [AdditionalActions.getVxlanVni, AdditionalActions.setVxlanVni, htonl_htonl,
    UInt32.toNat_ofNat']
  omega

theorem getVxlanDport_set (a : AdditionalActions) {value : Nat} (h : value < 2 ^ 16) :
    (a.setVxlanDport value).getVxlanDport = value := by
  rw [AdditionalActions.getVxlanDport, AdditionalActions.setVxlanDport, htons_htons,
    UInt16.toNat_ofNat']
  omega

end Tapplet.Actions
