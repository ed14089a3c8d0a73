import Mathlib.Logic.Function.Basic
import Mathlib.Tactic.Common
import Mathlib.Algebra.GroupWithZero.Nat

/-!
# The access-control rule store

The store that `sf_acl_api.c`, `sf_acl_tuple_api.c` and `sf_acl_hash.c` keep in shared
memory. An outer rule id is mapped to a tuple rule of one of two families, IPv4 or
IPv6; the family's rule points back to the outer id. Free rules are found in an
allocation bitmap and equal configurations through a chained hash over rule ids.

The two families have the same code on arrays of their own, so they are one table type
and the functions take the family as `isIpv6`, as the source does. The arrays are
indexed by the one-based ids themselves; 0 plays the part of a null pointer. The store
is taken to be mapped, so the tests for a null `SF_CONF_PTR` are left out.
-/

namespace Tapplet.Acl

def MAX_TUPLE4_RULE_PER_GROUP : Nat := 2048
def MAX_TUPLE6_RULE_PER_GROUP : Nat := 2048
def MAX_RULE_GROUP_CNT : Nat := 1
def MAX_RULE_PER_GROUP : Nat := MAX_TUPLE4_RULE_PER_GROUP + MAX_TUPLE6_RULE_PER_GROUP

def FAIL_REASON_INTERNAL_ERROR : Int := -1
def FAIL_REASON_OLD_RULE_EXIST : Int := -2
def FAIL_REASON_INVALID_ID : Int := -3
def FAIL_REASON_INVALID_CFG : Int := -4
def FAIL_REASON_RULE_FULL : Int := -5

/-- `tuple_bitmap_get_total_cnt`. -/
def tupleBitmapGetTotalCnt (isIpv6 : Bool) : Nat :=
  if isIpv6 then MAX_TUPLE6_RULE_PER_GROUP else MAX_TUPLE4_RULE_PER_GROUP

/-- `TUPLE4_RULE_BITMAP_CNT` and `TUPLE6_RULE_BITMAP_CNT`. -/
def tupleRuleBitmapCnt (isIpv6 : Bool) : Nat := tupleBitmapGetTotalCnt isIpv6 / 64

/-- `TUPLE4_RULE_HASH_BUCKET_CNT` and `TUPLE6_RULE_HASH_BUCKET_CNT`. -/
def tupleRuleHashBucketCnt (isIpv6 : Bool) : Nat := tupleBitmapGetTotalCnt isIpv6 / 8

/-! ## Data -/

/-- `sf_acl_hash_bucket_t`: an 8-bit counter and the first rule id of the chain. -/
structure HashBucket where
  nodeCnt : UInt8
  hashNextRule : Nat
deriving DecidableEq, Inhabited

/-- `sf_acl_hash_node_t`. -/
structure HashNode where
  hashPrev : Nat
  hashNext : Nat
deriving DecidableEq, Inhabited

inductive RuleType where
  | none
  | tuple4
  | tuple6
deriving DecidableEq, Inhabited

/-- The number that stands for a rule type in the source's enumeration. -/
def RuleType.code : RuleType → Int
  | .none => 0
  | .tuple4 => 1
  | .tuple6 => 2

def RuleType.ofFamily (isIpv6 : Bool) : RuleType := if isIpv6 then .tuple6 else .tuple4

/-- `sf_rule_map_t`. -/
structure RuleMap where
  ruleType : RuleType
  actualRuleId : Nat
deriving DecidableEq, Inhabited

/-- `sf_map_rule_t`. -/
structure MapRule where
  outerIdValid : Bool
  outerGroupId : Nat
  outerRuleId : Nat
deriving DecidableEq, Inhabited

/-- `sf_tuple_rule_cfg_t`: a configuration as the user gives it. -/
structure RuleCfg where
  isIpv6 : UInt8
  sportMin : UInt16
  sportMax : UInt16
  dportMin : UInt16
  dportMax : UInt16
  protoMin : UInt8
  protoMax : UInt8
  sip : String
  sipMask : UInt8
  dip : String
  dipMask : UInt8

/-- `sf_tuple4_rule_cfg_t` and `sf_tuple6_rule_cfg_t`; the addresses hold 4 or 16 bytes. -/
structure TupleRuleCfg where
  sportMin : UInt16
  sportMax : UInt16
  dportMin : UInt16
  dportMax : UInt16
  protoMin : UInt8
  protoMax : UInt8
  sipMask : UInt8
  dipMask : UInt8
  sip : List UInt8
  dip : List UInt8
deriving DecidableEq, Inhabited

/-- A 16-bit field in little-endian memory. -/
def le16 (x : UInt16) : List UInt8 := [x.toUInt8, (x >>> 8).toUInt8]

/-- The configuration as memory; the structure has no padding. -/
def TupleRuleCfg.bytes (c : TupleRuleCfg) : List UInt8 :=
  le16 c.sportMin ++ le16 c.sportMax ++ le16 c.dportMin ++ le16 c.dportMax ++
    [c.protoMin, c.protoMax, c.sipMask, c.dipMask] ++ c.sip ++ c.dip

/-- The buckets and nodes of one family's hash. -/
structure TupleHash where
  bucket : Nat → HashBucket
  node : Nat → HashNode

/-- The arrays of one family in one group. -/
structure TupleTable where
  bitmap : Nat → BitVec 64
  hash : TupleHash
  mapRule : Nat → MapRule
  ruleCfg : Nat → TupleRuleCfg

/-- `SF_CONF_T`. -/
structure Conf where
  aclSyncFlag : Int
  aclSyncTimes : Int
  ruleMap : Nat → Nat → RuleMap
  tuple : Nat → Bool → TupleTable

/-- The code that the store calls and that is not part of it: the hash function, which
depends on the processor, and the parser of addresses in the C library. -/
structure Env where
  getHashIndexNshell : List UInt8 → UInt32
  inetPton : Bool → String → Option (List UInt8)

/-! ## Hash chains -/

def aclHashIndex (env : Env) (key : List UInt8) (hashBucketCnt : Nat) : Nat :=
  (env.getHashIndexNshell key).toNat % hashBucketCnt

/-- The loop of `acl_hash_find`: the first rule id of the chain whose configuration
equals the key, 0 at the end of the chain. `none` when it does not end within `fuel`
rounds. -/
def aclHashFindLoop (node : Nat → HashNode) (cmp : Nat → Bool) : Nat → Nat → Option Nat
  | _, 0 => some 0
  | 0, _ + 1 => none
  | fuel + 1, id + 1 =>
      if cmp (id + 1) then some (id + 1)
      else aclHashFindLoop node cmp fuel (node (id + 1)).hashNext

def aclHashFind (env : Env) (fuel : Nat) (h : TupleHash) (hashBucketCnt : Nat)
    (key : List UInt8) (ruleCfgCmp : Nat → Bool) : Option Nat :=
  let bucket := h.bucket (aclHashIndex env key hashBucketCnt)
  if bucket.nodeCnt = 0 then some 0
  else aclHashFindLoop h.node ruleCfgCmp fuel bucket.hashNextRule

def aclHashInsert (env : Env) (h : TupleHash) (hashBucketCnt : Nat) (key : List UInt8)
    (actualRuleId : Nat) : TupleHash :=
  let hashIndex := aclHashIndex env key hashBucketCnt
  let bucket := h.bucket hashIndex
  let node := Function.update h.node actualRuleId ⟨0, bucket.hashNextRule⟩
  { bucket := Function.update h.bucket hashIndex
      { nodeCnt := if bucket.nodeCnt ≠ 0xFF then bucket.nodeCnt + 1 else bucket.nodeCnt
        hashNextRule := actualRuleId }
    node :=
      if bucket.hashNextRule ≠ 0 then
        Function.update node bucket.hashNextRule
          { node bucket.hashNextRule with hashPrev := actualRuleId }
      else node }

/-- `acl_hash_free` as it is written: both local variables are read from `hash_prev`,
and every link it writes is a `hash_prev`. -/
def aclHashFree (env : Env) (h : TupleHash) (hashBucketCnt : Nat) (key : List UInt8)
    (actualRuleId : Nat) : TupleHash :=
  let hashIndex := aclHashIndex env key hashBucketCnt
  let bucket := h.bucket hashIndex
  let hashRulePrev := (h.node actualRuleId).hashPrev
  let hashRuleNext := (h.node actualRuleId).hashPrev
  let node := Function.update h.node actualRuleId { h.node actualRuleId with hashPrev := 0 }
  let nextRule := if hashRulePrev = 0 then hashRuleNext else bucket.hashNextRule
  let node :=
    if hashRulePrev = 0 then node
    else Function.update node hashRulePrev { node hashRulePrev with hashPrev := hashRuleNext }
  let node :=
    if hashRuleNext ≠ 0 then
      Function.update node hashRuleNext { node hashRuleNext with hashPrev := hashRulePrev }
    else node
  { bucket := Function.update h.bucket hashIndex
      { nodeCnt := if bucket.nodeCnt ≠ 0xFF then bucket.nodeCnt - 1 else bucket.nodeCnt
        hashNextRule := nextRule }
    node := node }

/-! ## Allocation bitmap -/

/-- The loop of `calculate_used_cnt`, with `i` rounds left. -/
def calculateUsedCntLoop : Nat → BitVec 64 → Nat → Nat
  | 0, _, cnt => cnt
  | i + 1, bitmap, cnt =>
      let cnt := if bitmap &&& 1 ≠ 0 then cnt + 1 else cnt
      let bitmap := bitmap >>> 1
      if bitmap = 0 then cnt else calculateUsedCntLoop i bitmap cnt

def calculateUsedCnt (bitmap : BitVec 64) : Nat :=
  if bitmap = 0 then 0
  else if bitmap = -1 then 64
  else calculateUsedCntLoop 64 bitmap 0

def tupleBitmapGetUsedCnt (s : Conf) (groupId : Nat) (isIpv6 : Bool) : Nat :=
  (List.range (tupleRuleBitmapCnt isIpv6)).foldl
    (fun totalCnt i => totalCnt + calculateUsedCnt ((s.tuple groupId isIpv6).bitmap i)) 0

/-- The inner loop of `tuple_bitmap_get_first_unused`: the first clear bit. -/
def firstClear : Nat → Nat → BitVec 64 → Option Nat
  | 0, _, _ => none
  | left + 1, innerIndex, temp =>
      if temp &&& 1 = 0 then some innerIndex else firstClear left (innerIndex + 1) (temp >>> 1)

/-- `tuple_bitmap_get_first_unused`: the id of the first clear bit, 0 when there is none. -/
def tupleBitmapGetFirstUnused (s : Conf) (groupId : Nat) (isIpv6 : Bool) : Nat :=
  let ptr := (s.tuple groupId isIpv6).bitmap
  match (List.range (tupleRuleBitmapCnt isIpv6)).find? (fun i => decide (ptr i ≠ -1)) with
  | none => 0
  | some bitmapIndex =>
      match firstClear 64 0 (ptr bitmapIndex) with
      | none => 0
      | some innerIndex => bitmapIndex * 64 + innerIndex + 1

def bitmapGetIndex (index : Nat) : Nat := index / 64

def bitmapGetMask (index : Nat) : BitVec 64 := (1 : BitVec 64) <<< (index % 64)

def TupleTable.setUsedFlag (t : TupleTable) (actualRuleId : Nat) : TupleTable :=
  let index := bitmapGetIndex (actualRuleId - 1)
  { t with bitmap :=
      Function.update t.bitmap index (t.bitmap index ||| bitmapGetMask (actualRuleId - 1)) }

def TupleTable.unsetUsedFlag (t : TupleTable) (actualRuleId : Nat) : TupleTable :=
  let index := bitmapGetIndex (actualRuleId - 1)
  { t with bitmap :=
      Function.update t.bitmap index (t.bitmap index &&& ~~~ bitmapGetMask (actualRuleId - 1)) }

namespace Conf

/-- Write one family's table of one group. -/
def setTable (s : Conf) (groupId : Nat) (isIpv6 : Bool) (t : TupleTable) : Conf :=
  { s with tuple :=
      Function.update s.tuple groupId (Function.update (s.tuple groupId) isIpv6 t) }

/-- Write the entry of one outer rule. -/
def setRuleMap (s : Conf) (groupId outerRuleId : Nat) (m : RuleMap) : Conf :=
  { s with ruleMap :=
      Function.update s.ruleMap groupId (Function.update (s.ruleMap groupId) outerRuleId m) }

end Conf

def tupleBitmapSetUsedFlag (s : Conf) (groupId actualRuleId : Nat) (isIpv6 : Bool) : Conf :=
  s.setTable groupId isIpv6 ((s.tuple groupId isIpv6).setUsedFlag actualRuleId)

def tupleBitmapUnsetUsedFlag (s : Conf) (groupId actualRuleId : Nat) (isIpv6 : Bool) : Conf :=
  s.setTable groupId isIpv6 ((s.tuple groupId isIpv6).unsetUsedFlag actualRuleId)

/-! ## Configurations -/

def checkTupleRuleCfg (env : Env) (ruleCfg : RuleCfg) : Int :=
  let isIpv6 := decide (ruleCfg.isIpv6 ≠ 0)
  let ipMaskMax : UInt8 := if isIpv6 then 128 else 32
  if ruleCfg.isIpv6 > 1 then -1
  else if ruleCfg.sportMin > ruleCfg.sportMax then -1
  else if ruleCfg.dportMin > ruleCfg.dportMax then -1
  else if ruleCfg.protoMin > ruleCfg.protoMax then -1
  else if ruleCfg.sipMask > ipMaskMax ∨ ruleCfg.dipMask > ipMaskMax then -1
  else if env.inetPton isIpv6 ruleCfg.sip = none then -1
  else if env.inetPton isIpv6 ruleCfg.dip = none then -1
  else 0

/-- `copy_tuple_cfg_to_tuple4` and `copy_tuple_cfg_to_tuple6`: the destination and the
return value. A failed parse leaves the destination half written. -/
def copyTupleCfg (env : Env) (isIpv6 : Bool) (tupleRuleCfg : TupleRuleCfg)
    (ruleCfg : RuleCfg) : TupleRuleCfg × Int :=
  let shared := { tupleRuleCfg with
    sportMin := ruleCfg.sportMin
    sportMax := ruleCfg.sportMax
    dportMin := ruleCfg.dportMin
    dportMax := ruleCfg.dportMax
    protoMin := ruleCfg.protoMin
    protoMax := ruleCfg.protoMax
    sipMask := ruleCfg.sipMask
    dipMask := ruleCfg.dipMask }
  match env.inetPton isIpv6 ruleCfg.sip with
  | none => (shared, -1)
  | some sip =>
      match env.inetPton isIpv6 ruleCfg.dip with
      | none => ({ shared with sip := sip }, -1)
      | some dip => ({ shared with sip := sip, dip := dip }, 0)

/-- `tuple_rule_cfg_cmp_v4` and `tuple_rule_cfg_cmp_v6`: whether `memcmp` answers 0. -/
def tupleRuleCfgCmp (t : TupleTable) (key : List UInt8) (actualRuleId : Nat) : Bool :=
  decide (key = (t.ruleCfg actualRuleId).bytes)

/-- `tuple_hash_find_actual`, with its value stored in a `uint32_t`. -/
def tupleHashFindActual (env : Env) (fuel : Nat) (s : Conf) (groupId : Nat)
    (ruleCfg : RuleCfg) : Option Nat :=
  let isIpv6 := decide (ruleCfg.isIpv6 ≠ 0)
  let tmpCfg := copyTupleCfg env isIpv6 default ruleCfg
  let t := s.tuple groupId isIpv6
  if tmpCfg.2 ≠ 0 then some (2 ^ 32 - 1)
  else aclHashFind env fuel t.hash (tupleRuleHashBucketCnt isIpv6) tmpCfg.1.bytes
    (tupleRuleCfgCmp t tmpCfg.1.bytes)

def tupleHashFindOuter (s : Conf) (groupId actualRuleId : Nat) (isIpv6 : Bool) : Nat :=
  if actualRuleId ≠ 0 then
    let mapRule := (s.tuple groupId isIpv6).mapRule actualRuleId
    if mapRule.outerIdValid then mapRule.outerRuleId else 0
  else 0

def tupleHashInsert (env : Env) (s : Conf) (groupId actualRuleId : Nat) (isIpv6 : Bool) : Conf :=
  let t := s.tuple groupId isIpv6
  let hash := aclHashInsert env t.hash (tupleRuleHashBucketCnt isIpv6)
    (t.ruleCfg actualRuleId).bytes actualRuleId
  s.setTable groupId isIpv6 { t with hash := hash }

def tupleHashFree (env : Env) (s : Conf) (groupId actualRuleId : Nat) (isIpv6 : Bool) : Conf :=
  let t := s.tuple groupId isIpv6
  let hash := aclHashFree env t.hash (tupleRuleHashBucketCnt isIpv6)
    (t.ruleCfg actualRuleId).bytes actualRuleId
  s.setTable groupId isIpv6 { t with hash := hash }

/-- `set_tuple_rule_cfg`, with `set_tuple4_rule_cfg` and `set_tuple6_rule_cfg`. The value
of the copy is not looked at. -/
def setTupleRuleCfg (env : Env) (s : Conf) (groupId : Int) (actualRuleId : Nat)
    (ruleCfg : RuleCfg) (isIpv6 : Bool) : Conf × Int :=
  if groupId ≤ 0 ∨ groupId > MAX_RULE_GROUP_CNT then (s, -1)
  else if actualRuleId = 0 ∨ actualRuleId > tupleBitmapGetTotalCnt isIpv6 then (s, -1)
  else if decide (ruleCfg.isIpv6 ≠ 0) ≠ isIpv6 then (s, -1)
  else
    let t := s.tuple groupId.toNat isIpv6
    let tupleRuleCfg := (copyTupleCfg env isIpv6 (t.ruleCfg actualRuleId) ruleCfg).1
    (s.setTable groupId.toNat isIpv6
      { t with ruleCfg := Function.update t.ruleCfg actualRuleId tupleRuleCfg }, 0)

/-! ## The map -/

def aclGetRuleMapType (s : Conf) (groupId outerRuleId : Int) : Int :=
  if groupId ≤ 0 ∨ groupId > MAX_RULE_GROUP_CNT then -1
  else if outerRuleId ≤ 0 ∨ outerRuleId > MAX_RULE_PER_GROUP then -1
  else (s.ruleMap groupId.toNat outerRuleId.toNat).ruleType.code

def tupleMapRuleMap (s : Conf) (groupId outerRuleId actualRuleId : Nat) (isIpv6 : Bool) : Conf :=
  let s := s.setRuleMap groupId outerRuleId ⟨.ofFamily isIpv6, actualRuleId⟩
  let t := s.tuple groupId isIpv6
  s.setTable groupId isIpv6 { t with
    mapRule := Function.update t.mapRule actualRuleId ⟨true, groupId, outerRuleId⟩ }

def tupleDeleteOldMap (env : Env) (s : Conf) (groupId : Int) (actualRuleId : Nat)
    (isIpv6 : Bool) : Conf × Int :=
  if groupId ≤ 0 ∨ groupId > MAX_RULE_GROUP_CNT then (s, -1)
  else if actualRuleId = 0 ∨ actualRuleId > tupleBitmapGetTotalCnt isIpv6 then (s, -1)
  else
    let g := groupId.toNat
    let t := s.tuple g isIpv6
    let s := s.setTable g isIpv6
      { t with mapRule := Function.update t.mapRule actualRuleId ⟨false, 0, 0⟩ }
    let s := tupleHashFree env s g actualRuleId isIpv6
    (tupleBitmapUnsetUsedFlag s g actualRuleId isIpv6, 0)

def aclDeleteOldMap (env : Env) (s : Conf) (groupId outerRuleId : Int) (noCheck : Bool) :
    Conf × Int :=
  if groupId ≤ 0 ∨ groupId > MAX_RULE_GROUP_CNT then (s, -1)
  else if outerRuleId ≤ 0 ∨ outerRuleId > MAX_RULE_PER_GROUP then (s, -1)
  else
    let g := groupId.toNat
    let o := outerRuleId.toNat
    let ruleMap := s.ruleMap g o
    match ruleMap.ruleType with
    | .tuple4 =>
        let r := tupleDeleteOldMap env s groupId ruleMap.actualRuleId false
        (r.1.setRuleMap g o ⟨.none, 0⟩, r.2)
    | .tuple6 =>
        let r := tupleDeleteOldMap env s groupId ruleMap.actualRuleId true
        (r.1.setRuleMap g o ⟨.none, 0⟩, r.2)
    | .none => if noCheck then (s.setRuleMap g o ⟨.none, 0⟩, 0) else (s, -2)

/-- The end of `tuple_try_map_new_rule`, once the inner id is known to be free. -/
def mapNewRule (env : Env) (s : Conf) (groupId outerRuleId : Int) (actualRuleId : Nat)
    (isIpv6 checkOld : Bool) : Conf × Int :=
  let deleted := if checkOld then (s, 0) else aclDeleteOldMap env s groupId outerRuleId true
  if deleted.2 < 0 then (deleted.1, FAIL_REASON_INTERNAL_ERROR)
  else
    let s := tupleMapRuleMap deleted.1 groupId.toNat outerRuleId.toNat actualRuleId isIpv6
    let s := tupleBitmapSetUsedFlag s groupId.toNat actualRuleId isIpv6
    (tupleHashInsert env s groupId.toNat actualRuleId isIpv6, 0)

/-- `tuple_try_map_new_rule`. `none` when the search of the hash does not end within
`fuel` rounds. -/
def tupleTryMapNewRule (env : Env) (fuel : Nat) (s : Conf) (groupId outerRuleId : Int)
    (ruleCfg : RuleCfg) (checkOld : Bool) : Option (Conf × Int) :=
  if groupId ≤ 0 ∨ groupId > MAX_RULE_GROUP_CNT then some (s, FAIL_REASON_INVALID_ID)
  else if outerRuleId ≤ 0 ∨ outerRuleId > MAX_RULE_PER_GROUP then some (s, FAIL_REASON_INVALID_ID)
  else if checkOld ∧ 0 < aclGetRuleMapType s groupId outerRuleId then
    some (s, FAIL_REASON_OLD_RULE_EXIST)
  else if checkTupleRuleCfg env ruleCfg ≠ 0 then some (s, FAIL_REASON_INVALID_CFG)
  else
    let isIpv6 := decide (ruleCfg.isIpv6 ≠ 0)
    (tupleHashFindActual env fuel s groupId.toNat ruleCfg).map fun actualRuleId =>
      if actualRuleId = 0 then
        let actualRuleId := tupleBitmapGetFirstUnused s groupId.toNat isIpv6
        if actualRuleId = 0 then (s, FAIL_REASON_RULE_FULL)
        else
          let set := setTupleRuleCfg env s groupId actualRuleId ruleCfg isIpv6
          if set.2 ≠ 0 then (set.1, FAIL_REASON_INTERNAL_ERROR)
          else mapNewRule env set.1 groupId outerRuleId actualRuleId isIpv6 checkOld
      else
        let outerRuleIdDuplicate := tupleHashFindOuter s groupId.toNat actualRuleId isIpv6
        if 0 < outerRuleIdDuplicate then
          if outerRuleIdDuplicate = outerRuleId then (s, 0) else (s, outerRuleIdDuplicate)
        else mapNewRule env s groupId outerRuleId actualRuleId isIpv6 checkOld

/-! ## The store over time -/

/-- Everything is zero, as after the memory has been cleared. -/
def zeroTable : TupleTable :=
  { bitmap := fun _ => 0
    hash := ⟨fun _ => ⟨0, 0⟩, fun _ => ⟨0, 0⟩⟩
    mapRule := fun _ => ⟨false, 0, 0⟩
    ruleCfg := fun _ => ⟨0, 0, 0, 0, 0, 0, 0, 0, [], []⟩ }

/-- The cleared store with the given synchronisation fields. -/
def Conf.empty (aclSyncFlag aclSyncTimes : Int) : Conf :=
  ⟨aclSyncFlag, aclSyncTimes, fun _ _ => ⟨.none, 0⟩, fun _ _ => zeroTable⟩

/-- The function defined by `INIT_CONFIG_FUNC_DEFINITION`, called for a reset. -/
def resetConfig (s : Conf) : Conf × Int :=
  if s.aclSyncFlag > 0 then (s, -1) else (.empty s.aclSyncFlag s.aclSyncTimes, 0)

inductive Call where
  | tryMap (groupId outerRuleId : Int) (ruleCfg : RuleCfg) (checkOld : Bool)
  | delete (groupId outerRuleId : Int) (noCheck : Bool)
  | reset

/-- The outcome of a call: the store and the return value. -/
def Call.run (env : Env) (fuel : Nat) (s : Conf) : Call → Option (Conf × Int)
  | .tryMap groupId outerRuleId ruleCfg checkOld =>
      tupleTryMapNewRule env fuel s groupId outerRuleId ruleCfg checkOld
  | .delete groupId outerRuleId noCheck => some (aclDeleteOldMap env s groupId outerRuleId noCheck)
  | .reset => some (resetConfig s)

/-- A call that returns, with its return value. -/
def Step (env : Env) (s : Conf) (e : Call × Int) (t : Conf) : Prop :=
  ∃ fuel, e.1.run env fuel s = some (t, e.2)

/-- The store after a call, for the evaluation of concrete calls. -/
def Call.after (env : Env) (fuel : Nat) (s : Conf) (call : Call) : Conf :=
  ((call.run env fuel s).getD (s, 0)).1

theorem Step.after {env : Env} (fuel : Nat) {s : Conf} {call : Call} {ret : Int}
    (h : (call.run env fuel s).map Prod.snd = some ret) :
    Step env s (call, ret) (call.after env fuel s) := by
  obtain ⟨r, hrun, rfl⟩ := Option.map_eq_some_iff.mp h
  exact ⟨fuel, by simp [Call.after, hrun]⟩

end Tapplet.Acl
