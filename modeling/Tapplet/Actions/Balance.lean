import Tapplet.Actions.Basic

/-!
# Load balancing

`action_tools.h` and `load_balance_interface.c`: the member of a load balance that a packet
goes to. The round-robin modes keep their state in the action itself; the hash modes keep the
members that are up in a table of the node. A signed overflow has no defined result.
-/

namespace Tapplet.Actions

def LOAD_BALANCE_MODE_ROUND_ROBIN : Int := 1
def LOAD_BALANCE_MODE_OUTER_SRCDSTIP : Int := 3
def LOAD_BALANCE_MODE_OUTER_SRCIP : Int := 4
def LOAD_BALANCE_MODE_OUTER_DSTIP : Int := 5

def INVALID_INTERFACE_ID : Nat := 0

/-! ## The data of a packet -/

/-- The two words of `ip_addr_t`. -/
structure IpAddr where
  value0 : UInt64
  value1 : UInt64
deriving DecidableEq

/-- What is read of the metadata: the version and the addresses of the outer header. -/
structure OuterWdata where
  version : UInt8
  sip : IpAddr
  dip : IpAddr
deriving DecidableEq

def IP_VERSION_4 : UInt8 := 4

/-- `load_balance_data_t`. The inner header has no fields of its own in the metadata, and no
mode reads it. -/
structure LoadBalanceData where
  srcIp : IpAddr
  dstIp : IpAddr
deriving DecidableEq

section Addresses

/-! `clib_net_to_host_u64` is not in the repository; nothing below depends on what it does. -/

variable (netToHost : UInt64 → UInt64)

/-- An address as it is filled in. -/
def hostWords (version : UInt8) (ip : IpAddr) : IpAddr :=
  if version = IP_VERSION_4 then ⟨netToHost (ip.value0 <<< 32), netToHost (ip.value1 <<< 32)⟩
  else ⟨netToHost ip.value0, netToHost ip.value1⟩

/-- `fill_load_balance_data` -/
def fillLoadBalanceData (w : OuterWdata) : LoadBalanceData :=
  ⟨hostWords netToHost w.version w.sip, hostWords netToHost w.version w.dip⟩

end Addresses

/-! ## Selecting a member -/

/-- Why a selection has no result: `cw + gcd` leaves the `int`, or the rounds that are counted
are used up. -/
inductive Stop where
  | overflow
  | outOfRounds
deriving DecidableEq

/-- The addition of two `int`. -/
def addInt (a b : Int) : Except Stop Int :=
  if a + b < 2 ^ 31 ∧ -2 ^ 31 ≤ a + b then .ok (a + b) else .error .overflow

/-- What a round of `load_balance_get_weight_index` does before it compares. -/
def weightStep (data : LoadBalanceWeight) (num : Nat) (index : UInt32) :
    Except Stop (LoadBalanceWeight × UInt32) :=
  let index := (index + 1) % .ofNat num
  if index = 0 ∨ data.cw = 0 then do
    let cw ← addInt data.cw data.gcd
    .ok ({ data with cw := if cw > data.mw then data.gcd else cw }, index)
  else .ok (data, index)

/-- `load_balance_get_weight_index` -/
def loadBalanceGetWeightIndex (weight : List Int) (num : Nat) :
    Nat → LoadBalanceWeight → UInt32 → Except Stop (LoadBalanceWeight × UInt32)
  | 0, _, _ => .error .outOfRounds
  | fuel + 1, data, index => do
      let s ← weightStep data num index
      if weight.getD s.2.toNat 0 ≥ s.1.cw then .ok s
      else loadBalanceGetWeightIndex weight num fuel s.1 s.2

/-- `action_get_load_balance_index`: the action and the index. -/
def actionGetLoadBalanceIndex (fuel : Nat) (action : Action) (data : LoadBalanceData) (num : Nat) :
    Except Stop (Action × Nat) :=
  if num = 0 then .ok (action, 0)
  else if action.loadBalanceMode = LOAD_BALANCE_MODE_WRR then do
    let s ← loadBalanceGetWeightIndex action.loadBalanceWeight num fuel action.weightData
      action.loadBalanceIndex
    .ok ({ action with weightData := s.1, loadBalanceIndex := s.2 }, s.2.toNat)
  else if action.loadBalanceMode = LOAD_BALANCE_MODE_OUTER_SRCDSTIP then
    .ok (action, (data.srcIp.value0 + data.srcIp.value1 + data.dstIp.value0 +
      data.dstIp.value1).toNat % num)
  else if action.loadBalanceMode = LOAD_BALANCE_MODE_OUTER_SRCIP then
    .ok (action, (data.srcIp.value0 + data.srcIp.value1).toNat % num)
  else if action.loadBalanceMode = LOAD_BALANCE_MODE_OUTER_DSTIP then
    .ok (action, (data.dstIp.value0 + data.dstIp.value1).toNat % num)
  else
    let index := (action.loadBalanceIndex + 1) % .ofNat num
    .ok ({ action with loadBalanceIndex := index }, index.toNat)

/-! ## Avoiding members that are down -/

/-- The states of the interfaces. -/
structure Links where
  adminStatus : UInt8 → Bool
  link : UInt8 → Bool

def Links.up (l : Links) (interfaceId : UInt8) : Bool :=
  l.adminStatus interfaceId && l.link interfaceId

/-- The tables of the node for an action: `interface_update_load_balance`,
`interface_num_real_load_balance` and `interface_array_real_load_balance`. -/
structure RealTable where
  update : UInt16
  num : UInt16
  array : List UInt16
deriving DecidableEq

def RealTable.zero : RealTable := ⟨0, 0, .replicate MAX_INTERFACE_CNT 0⟩

/-- `action->load_balance_interface_array[index]` -/
def Action.member (action : Action) (index : Nat) : UInt8 :=
  action.loadBalanceInterfaceArray.getD index 0

/-- The loop over the selector for a member that is up, with the rounds that are left. -/
def selectUp (fuel : Nat) (l : Links) (data : LoadBalanceData) (num : Nat) :
    Nat → Action → Except Stop (Action × Nat)
  | 0, action => .ok (action, INVALID_INTERFACE_ID)
  | rounds + 1, action => do
      let r ← actionGetLoadBalanceIndex fuel action data num
      if l.up (r.1.member r.2) then .ok (r.1, (r.1.member r.2).toNat)
      else selectUp fuel l data num rounds r.1

/-- The members that are up, at the front of the table. -/
def RealTable.rebuild (t : RealTable) (l : Links) (action : Action) : RealTable :=
  let up := (List.range action.loadBalanceInterfacesNum.toNat).filterMap fun i =>
    if l.up (action.member i) then some (UInt16.ofNat (action.member i).toNat) else none
  ⟨1, .ofNat up.length, up ++ t.array.drop up.length⟩

/-- `load_balance_interfaces` -/
def loadBalanceInterfaces (netToHost : UInt64 → UInt64) (fuel : Nat) (l : Links) (w : OuterWdata)
    (action : Action) (t : RealTable) : Except Stop (Action × RealTable × Nat) := do
  let data := fillLoadBalanceData netToHost w
  let num := action.loadBalanceInterfacesNum.toNat
  let r ← actionGetLoadBalanceIndex fuel action data num
  let action := r.1
  let interfaceId := action.member r.2
  if l.up interfaceId then .ok (action, t, interfaceId.toNat)
  else if action.loadBalanceMode = LOAD_BALANCE_MODE_ROUND_ROBIN ∨
      action.loadBalanceMode = LOAD_BALANCE_MODE_WRR then do
    let r ← selectUp fuel l data num MAX_LOAD_BALANCE_NODE action
    .ok (r.1, t, r.2)
  else
    let t := if t.update ≠ 0xff then t.rebuild l action else t
    if t.num = 0 then .ok (action, t, INVALID_INTERFACE_ID)
    else do
      let r ← actionGetLoadBalanceIndex fuel action data t.num.toNat
      .ok (r.1, t, (t.array.getD r.2 0).toNat)

end Tapplet.Actions
