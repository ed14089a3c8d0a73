import Tapplet.Actions.Balance
import Tapplet.Lib.Fallible
import Mathlib.Data.List.GetD

/-!
# Load balancing by addresses

In three modes the member is chosen by the addresses of the outer header. The action has no
state then, and the table of the members that are up is made anew whenever it is needed. So
what was forwarded before has no influence on the choice.
-/

namespace Tapplet.Actions

open Fallible

/-! ## What a packet leaves behind -/

/-- An action without the state of its selector. -/
def Action.config (a : Action) : Action :=
  { a with weightData := ⟨0, 0, 0⟩, loadBalanceIndex := 0 }

variable {netToHost : UInt64 → UInt64} {fuel : Nat} {l l' : Links} {w w' : OuterWdata} {a : Action}
variable {t : RealTable}

variable {b : Action}

theorem member_of_config (h : a.config = b.config) : a.member = b.member := by
  show a.config.member = b.config.member
  rw [h]

theorem mode_of_config (h : a.config = b.config) : a.loadBalanceMode = b.loadBalanceMode := by
  show a.config.loadBalanceMode = b.config.loadBalanceMode
  rw [h]

theorem num_of_config (h : a.config = b.config) :
    a.loadBalanceInterfacesNum = b.loadBalanceInterfacesNum := by
  show a.config.loadBalanceInterfacesNum = b.config.loadBalanceInterfacesNum
  rw [h]

theorem weight_of_config (h : a.config = b.config) :
    a.loadBalanceWeight = b.loadBalanceWeight := by
  show a.config.loadBalanceWeight = b.config.loadBalanceWeight
  rw [h]

theorem actionGetLoadBalanceIndex_config {data : LoadBalanceData} {num : Nat} {r : Action × Nat}
    (h : actionGetLoadBalanceIndex fuel a data num = .ok r) : r.1.config = a.config := by
  unfold actionGetLoadBalanceIndex at h
  split_ifs at h
  · cases h
    rfl
  · obtain ⟨s, -, h⟩ := bind_ok h
    cases h
    rfl
  · cases h
    rfl
  · cases h
    rfl
  · cases h
    rfl
  · cases h
    rfl

/-- What every selection keeps is kept by the loop. -/
theorem selectUp_induct {data : LoadBalanceData} {num : Nat} {keeps : Action → Prop}
    (hstep : ∀ a r, keeps a → actionGetLoadBalanceIndex fuel a data num = .ok r → keeps r.1)
    {rounds : Nat} {r : Action × Nat} (ha : keeps a)
    (h : selectUp fuel l data num rounds a = .ok r) : keeps r.1 := by
  induction rounds generalizing a with
  | zero =>
      cases h
      exact ha
  | succ rounds ih =>
      rw [selectUp] at h
      obtain ⟨s, hs, h⟩ := bind_ok h
      have hkeeps := hstep a s ha hs
      split at h
      next =>
        cases h
        exact hkeeps
      next => exact ih hkeeps h

/-- The table is made anew whenever it is needed. -/
def RealTable.Renewed (t : RealTable) : Prop := t.update = 0 ∨ t.update = 1

theorem RealTable.Renewed.ne (h : t.Renewed) : t.update ≠ 0xff := by
  obtain h | h := h <;> rw [h] <;> decide

theorem loadBalanceInterfaces_kept {r : Action × RealTable × Nat} (ht : t.Renewed)
    (h : loadBalanceInterfaces netToHost fuel l w a t = .ok r) :
    r.1.config = a.config ∧ r.2.1.Renewed := by
  rw [loadBalanceInterfaces] at h
  obtain ⟨s, hs, h⟩ := bind_ok h
  have hconfig := actionGetLoadBalanceIndex_config hs
  dsimp only at h
  split at h
  next =>
    cases h
    exact ⟨hconfig, ht⟩
  next =>
    split at h
    next =>
      obtain ⟨s', hs', h⟩ := bind_ok h
      have hstep (b : Action) (r : Action × Nat) (hb : b.config = a.config)
          (hr : actionGetLoadBalanceIndex fuel b (fillLoadBalanceData netToHost w)
            a.loadBalanceInterfacesNum.toNat = .ok r) : r.1.config = a.config :=
        (actionGetLoadBalanceIndex_config hr).trans hb
      have hloop := selectUp_induct hstep hconfig hs'
      cases h
      exact ⟨hloop, ht⟩
    next =>
      rw [if_pos ht.ne] at h
      split at h
      next =>
        cases h
        exact ⟨hconfig, .inr rfl⟩
      next =>
        obtain ⟨s', hs', h⟩ := bind_ok h
        cases h
        exact ⟨(actionGetLoadBalanceIndex_config hs').trans hconfig, .inr rfl⟩

/-! ## The member of a flow -/

/-- The modes that choose by addresses. -/
def IsHashMode (mode : Int) : Prop :=
  mode = LOAD_BALANCE_MODE_OUTER_SRCDSTIP ∨ mode = LOAD_BALANCE_MODE_OUTER_SRCIP ∨
    mode = LOAD_BALANCE_MODE_OUTER_DSTIP

instance (mode : Int) : Decidable (IsHashMode mode) := inferInstanceAs (Decidable (_ ∨ _))

/-- The sum of the address words that a mode looks at. -/
def hashOf (mode : Int) (data : LoadBalanceData) : Nat :=
  if mode = LOAD_BALANCE_MODE_OUTER_SRCDSTIP then
    (data.srcIp.value0 + data.srcIp.value1 + data.dstIp.value0 + data.dstIp.value1).toNat
  else if mode = LOAD_BALANCE_MODE_OUTER_SRCIP then (data.srcIp.value0 + data.srcIp.value1).toNat
  else (data.dstIp.value0 + data.dstIp.value1).toNat

def hashIndex (hash num : Nat) : Nat := if num = 0 then 0 else hash % num

/-- The member that a flow goes to while it is up. -/
def primaryMember (netToHost : UInt64 → UInt64) (a : Action) (w : OuterWdata) : UInt8 :=
  a.member (hashIndex (hashOf a.loadBalanceMode (fillLoadBalanceData netToHost w))
    a.loadBalanceInterfacesNum.toNat)

/-- The members that are up, in their order. -/
def upMembers (l : Links) (a : Action) : List UInt8 :=
  ((List.range a.loadBalanceInterfacesNum.toNat).map a.member).filter l.up

/-- The interface of a flow. -/
def hashedMember (netToHost : UInt64 → UInt64) (l : Links) (a : Action) (w : OuterWdata) : Nat :=
  if l.up (primaryMember netToHost a w) then (primaryMember netToHost a w).toNat
  else ((upMembers l a).getD (hashIndex (hashOf a.loadBalanceMode (fillLoadBalanceData netToHost w))
    (upMembers l a).length) 0).toNat

theorem actionGetLoadBalanceIndex_hashed (hmode : IsHashMode a.loadBalanceMode)
    (data : LoadBalanceData) (num : Nat) :
    actionGetLoadBalanceIndex fuel a data num =
      .ok (a, hashIndex (hashOf a.loadBalanceMode data) num) := by
  rw [actionGetLoadBalanceIndex, hashIndex]
  by_cases hnum : num = 0
  · rw [if_pos hnum, if_pos hnum]
  · rw [if_neg hnum, if_neg hnum]
    obtain h | h | h := hmode <;> rw [h] <;> rfl

/-- The table that is made holds the members that are up. -/
theorem rebuild_members (l : Links) (a : Action) (t : RealTable) :
    (t.rebuild l a).num.toNat = (upMembers l a).length ∧
    ∀ i < (upMembers l a).length,
      ((t.rebuild l a).array.getD i 0).toNat = ((upMembers l a).getD i 0).toNat := by
  have hfilter (is : List Nat) : (is.filterMap fun i =>
      if l.up (a.member i) then some (UInt16.ofNat (a.member i).toNat) else none) =
        ((is.map a.member).filter l.up).map fun m => UInt16.ofNat m.toNat := by
    induction is with
    | nil => rfl
    | cons i is ih =>
        rw [List.map_cons, List.filterMap_cons, List.filter_cons]
        split_ifs
        · rw [List.map_cons, ← ih]
        · exact ih
  have hle : (upMembers l a).length ≤ a.loadBalanceInterfacesNum.toNat := by
    refine Nat.le_trans (List.length_filter_le ..) (Nat.le_of_eq ?_)
    rw [List.length_map, List.length_range]
  have hlt := a.loadBalanceInterfacesNum.toNat_lt
  rw [RealTable.rebuild, hfilter]
  constructor
  · show (UInt16.ofNat ((upMembers l a).map _).length).toNat = _
    rw [List.length_map, UInt16.toNat_ofNat']
    exact Nat.mod_eq_of_lt (by omega)
  · intro i hi
    have hbound := ((upMembers l a)[i]).toNat_lt
    show (((upMembers l a).map (fun m => UInt16.ofNat m.toNat) ++ _).getD i 0).toNat = _
    rw [List.getD_append _ _ _ _ (by rwa [List.length_map]),
      List.getD_eq_getElem _ _ (by rwa [List.length_map]), List.getElem_map,
      List.getD_eq_getElem _ _ hi, UInt16.toNat_ofNat']
    exact Nat.mod_eq_of_lt (by omega)

/-- In a hash mode the interface depends on nothing but the flow and the links. -/
theorem loadBalanceInterfaces_hashed (hmode : IsHashMode a.loadBalanceMode) (ht : t.Renewed) :
    ∃ t', loadBalanceInterfaces netToHost fuel l w a t =
      .ok (a, t', hashedMember netToHost l a w) := by
  have hindex := @actionGetLoadBalanceIndex_hashed fuel a hmode (fillLoadBalanceData netToHost w)
  have hretry : ¬(a.loadBalanceMode = LOAD_BALANCE_MODE_ROUND_ROBIN ∨
      a.loadBalanceMode = LOAD_BALANCE_MODE_WRR) := by
    obtain h | h | h := hmode <;> rw [h] <;> decide
  rw [loadBalanceInterfaces, hashedMember]
  by_cases hup : l.up (primaryMember netToHost a w) = true
  · refine ⟨t, (bind_of_ok (hindex _) _).trans ?_⟩
    rw [if_pos hup]
    exact if_pos hup
  · obtain ⟨hnum, harray⟩ := rebuild_members l a t
    refine ⟨t.rebuild l a, (bind_of_ok (hindex _) _).trans ?_⟩
    dsimp only
    rw [if_neg hup, if_neg hretry, if_pos ht.ne]
    refine (if_neg hup).trans ?_
    split
    next hzero =>
      rw [hzero] at hnum
      have hnil : upMembers l a = [] := List.length_eq_zero_iff.mp hnum.symm
      rw [hnil]
      rfl
    next hne =>
      refine (bind_of_ok (hindex _) _).trans ?_
      rw [hnum]
      have hpos : 0 < (upMembers l a).length := by
        rw [← hnum]
        exact Nat.pos_of_ne_zero fun h => hne (UInt16.toNat_inj.mp h)
      rw [harray]
      rw [hashIndex, if_neg (Nat.ne_of_gt hpos)]
      exact Nat.mod_lt _ hpos

/-! ## Flows -/

/-- The part of an address that is used: an IPv4 address is in the low half of a word. -/
def usedAddress (version : UInt8) (ip : IpAddr) : IpAddr :=
  if version = IP_VERSION_4 then ⟨ip.value0 &&& 0xffffffff, ip.value1 &&& 0xffffffff⟩ else ip

/-- Two packets have the addresses that a mode looks at in common. -/
structure SameFlow (mode : Int) (w w' : OuterWdata) : Prop where
  version : w.version = w'.version
  sip : mode ≠ LOAD_BALANCE_MODE_OUTER_DSTIP →
    usedAddress w.version w.sip = usedAddress w'.version w'.sip
  dip : mode ≠ LOAD_BALANCE_MODE_OUTER_SRCIP →
    usedAddress w.version w.dip = usedAddress w'.version w'.dip

/-- The answer to a packet. -/
def OuterWdata.reply (w : OuterWdata) : OuterWdata := { w with sip := w.dip, dip := w.sip }

theorem shiftLeft_low (x : UInt64) : (x &&& 0xffffffff) <<< 32 = x <<< 32 := by
  apply UInt64.toNat_inj.mp
  rw [UInt64.toNat_shiftLeft, UInt64.toNat_shiftLeft, UInt64.toNat_and]
  show (x.toNat &&& 4294967295) <<< 32 % 2 ^ 64 = x.toNat <<< 32 % 2 ^ 64
  rw [Nat.shiftLeft_eq, Nat.shiftLeft_eq, Nat.and_two_pow_sub_one_eq_mod x.toNat 32]
  omega

theorem hostWords_used (version : UInt8) (ip : IpAddr) :
    hostWords netToHost version (usedAddress version ip) = hostWords netToHost version ip := by
  rw [hostWords, hostWords, usedAddress]
  split
  next => rw [shiftLeft_low, shiftLeft_low]
  next => rfl

theorem SameFlow.hashOf_eq {mode : Int} (hmode : IsHashMode mode) (h : SameFlow mode w w') :
    hashOf mode (fillLoadBalanceData netToHost w) =
      hashOf mode (fillLoadBalanceData netToHost w') := by
  have hwords {ip ip' : IpAddr} (hused : usedAddress w.version ip = usedAddress w'.version ip') :
      hostWords netToHost w.version ip = hostWords netToHost w'.version ip' := by
    rw [← hostWords_used, hused, h.version, hostWords_used]
  rw [fillLoadBalanceData, fillLoadBalanceData, hashOf, hashOf]
  obtain rfl | rfl | rfl := hmode
  · rw [hwords (h.sip (by decide)), hwords (h.dip (by decide))]
  · rw [if_neg (by decide), if_pos rfl, if_neg (by decide), if_pos rfl, hwords (h.sip (by decide))]
  · rw [if_neg (by decide), if_neg (by decide), if_neg (by decide), if_neg (by decide),
      hwords (h.dip (by decide))]

theorem sum_swap (a b c d : UInt64) : c + d + a + b = a + b + c + d := by
  rw [UInt64.add_assoc (c + d), UInt64.add_comm (c + d), UInt64.add_assoc (a + b)]

theorem fillLoadBalanceData_reply (w : OuterWdata) :
    fillLoadBalanceData netToHost w.reply =
      ⟨(fillLoadBalanceData netToHost w).dstIp, (fillLoadBalanceData netToHost w).srcIp⟩ := rfl

theorem hashOf_reply (w : OuterWdata) :
    hashOf LOAD_BALANCE_MODE_OUTER_SRCDSTIP (fillLoadBalanceData netToHost w.reply) =
      hashOf LOAD_BALANCE_MODE_OUTER_SRCDSTIP (fillLoadBalanceData netToHost w) := by
  rw [fillLoadBalanceData_reply, hashOf, hashOf, if_pos rfl, if_pos rfl]
  rw [sum_swap]

theorem hashedMember_congr (hup : l.up = l'.up)
    (hhash : hashOf a.loadBalanceMode (fillLoadBalanceData netToHost w) =
      hashOf a.loadBalanceMode (fillLoadBalanceData netToHost w')) :
    hashedMember netToHost l a w = hashedMember netToHost l' a w' := by
  rw [hashedMember, hashedMember, primaryMember, primaryMember, upMembers, upMembers, hup, hhash]

theorem hashedMember_down (h : l.up (primaryMember netToHost a w) = false) :
    hashedMember netToHost l a w =
      ((upMembers l a).getD (hashIndex (hashOf a.loadBalanceMode (fillLoadBalanceData netToHost w))
        (upMembers l a).length) 0).toNat := by
  rw [hashedMember, if_neg (by rw [h]; exact Bool.false_ne_true)]

theorem primaryMember_config (a : Action) (w : OuterWdata) :
    primaryMember netToHost a.config w = primaryMember netToHost a w := rfl

theorem hashedMember_config (l : Links) (a : Action) (w : OuterWdata) :
    hashedMember netToHost l a.config w = hashedMember netToHost l a w := rfl

/-- The bytes of a word in the other order, which is what `clib_net_to_host_u64` makes of it where
the lowest byte comes first. -/
def swapBytes (x : UInt64) : UInt64 :=
  (x &&& 0xff) <<< 56 ||| (x >>> 8 &&& 0xff) <<< 48 ||| (x >>> 16 &&& 0xff) <<< 40 |||
    (x >>> 24 &&& 0xff) <<< 32 ||| (x >>> 32 &&& 0xff) <<< 24 ||| (x >>> 40 &&& 0xff) <<< 16 |||
    (x >>> 48 &&& 0xff) <<< 8 ||| x >>> 56

end Tapplet.Actions
