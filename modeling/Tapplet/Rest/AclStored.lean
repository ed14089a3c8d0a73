import Tapplet.Rest.Atomic
import Tapplet.Acl.Address
import Tapplet.Lib.Fallible
import Mathlib.Data.List.TakeWhile

/-!
# What a GET request gives of a stored rule

The value of a rule goes through a dictionary of Python, a structure of `ctypes` and the store,
and a GET request leads it back. An assignment to a field of the structure cuts an integer to
the width of the field, and the checks of the store come after that. Only the source address is
checked as a string of Python, so a destination address may go on behind a 0.
-/

namespace Tapplet.Rest

open Acl Transition Fallible

/-! ## Reading -/

section Model

variable (inetNtop : Bool → List UInt8 → String)

/-- `trans_tuple_cfg_to_dict` -/
def transTupleCfgToDict (c : RuleCfg) : Dict PyStr Json :=
  [(py "sport_min", .int c.sportMin.toNat), (py "sport_max", .int c.sportMax.toNat),
    (py "dport_min", .int c.dportMin.toNat), (py "dport_max", .int c.dportMax.toNat),
    (py "proto_min", .int c.protoMin.toNat), (py "proto_max", .int c.protoMax.toNat),
    (py "sip_mask", .int c.sipMask.toNat), (py "dip_mask", .int c.dipMask.toNat),
    (py "sip", .str (py c.sip)), (py "dip", .str (py c.dip))]

/-- The codes that a query of a rule can end with, besides OK. -/
inductive QueryError where
  | internalServerError
  | notFound
deriving DecidableEq

/-- `rule_type_map[rule_type]` for the numbers of the rule types. -/
def ruleTypeName (ruleType : Nat) : String := if ruleType = 1 then "tuple4" else "tuple6"

/-- `get_single_tuple_config` -/
def getSingleTupleConfig (s : Conf) (group outRuleId : Int) (ruleType : Nat) :
    Except QueryError Json :=
  match getTupleRuleCfg inetNtop s group outRuleId with
  | none => .error .internalServerError
  | some tupleRuleCfg =>
      .ok (.object [(py "rule_type", .str (py (ruleTypeName ruleType))),
        (py "rule_cfg", .object (transTupleCfgToDict tupleRuleCfg))])

/-- `get_single_acl_config`: `none` stands for `None`. -/
def getSingleAclConfig (s : Conf) (group rule : Int) (isRuleQuery : Bool) :
    Except QueryError (Option Json) :=
  let ruleType := aclGetRuleMapType s group rule
  if ruleType = -1 then .error .internalServerError
  else if ruleType ≠ 1 ∧ ruleType ≠ 2 then
    if isRuleQuery then .ok none else .error .notFound
  else if ruleType = 1 then (getSingleTupleConfig inetNtop s group rule 1).map some
  else if ruleType = 2 then (getSingleTupleConfig inetNtop s group rule 2).map some
  else .ok none

end Model

/-- What `get_single_acl_config` gives of a rule of a family. -/
def ruleDoc (f : Bool) (c : RuleCfg) : Json :=
  .object [(py "rule_type", .str (py (ruleTypeName (if f then 2 else 1)))),
    (py "rule_cfg", .object (transTupleCfgToDict c))]

variable {env : Env} {s t : Conf} {g o a : Nat} {f : Bool} {fuel : Nat} {data : Json}
variable {inetNtop : Bool → List UInt8 → String}

theorem getSingleAclConfig_mapped (inetNtop : Bool → List UInt8 → String) (inv : MapInv s)
    (hmap : s.ruleMap g o = ⟨.ofFamily f, a⟩) (isRuleQuery : Bool) :
    getSingleAclConfig inetNtop s g o isRuleQuery =
      .ok (some (ruleDoc f (textCfg inetNtop f ((s.tuple g f).ruleCfg a)))) := by
  simp only [getSingleAclConfig, aclGetRuleMapType_mapped inv hmap, getSingleTupleConfig,
    getTupleRuleCfg_mapped inv hmap]
  cases f <;> rfl

/-! ## What is compared -/

/-- The integer that a value equals in Python. -/
def Json.integral : Json → Option Int
  | .int i => some i
  | .bool b => some (if b then 1 else 0)
  | .float f => f.integral
  | _ => none

/-- A numeric field of a rule: its key, its width in bits and where it is kept. -/
structure NumField where
  key : String
  width : Nat
  get : RuleCfg → Nat

def numFields : List NumField :=
  [⟨"sport_min", 16, fun c => c.sportMin.toNat⟩, ⟨"sport_max", 16, fun c => c.sportMax.toNat⟩,
    ⟨"dport_min", 16, fun c => c.dportMin.toNat⟩, ⟨"dport_max", 16, fun c => c.dportMax.toNat⟩,
    ⟨"proto_min", 8, fun c => c.protoMin.toNat⟩, ⟨"proto_max", 8, fun c => c.protoMax.toNat⟩,
    ⟨"sip_mask", 8, fun c => c.sipMask.toNat⟩, ⟨"dip_mask", 8, fun c => c.dipMask.toNat⟩]

/-- `socket.inet_pton`, which takes no string with a 0 in it. -/
def pyInetPton (env : Env) (f : Bool) (address : PyStr) : Option (List UInt8) :=
  match utf8 address with
  | .error _ => none
  | .ok s => if 0 ∈ address then none else env.acl.inetPton f s

/-- Two values are strings that denote one address of the family. -/
def SameAddress (env : Env) (f : Bool) (v w : Option Json) : Prop :=
  ∃ a b bytes, v = some (.str a) ∧ w = some (.str b) ∧ pyInetPton env f a = some bytes ∧
    pyInetPton env f b = some bytes

/-- A GET request of the rule gives the numbers and the addresses of `data`, and the addresses
are of the family of the rule. -/
def Faithful (env : Env) (inetNtop : Bool → List UInt8 → String) (t : Conf) (g o : Nat)
    (data : Json) : Prop :=
  ∃ d f c, data.dict = .ok d ∧
    getSingleAclConfig inetNtop t g o false = .ok (some (ruleDoc f c)) ∧
    (∀ n ∈ numFields, ∃ i, (d.get? (py n.key)).bind Json.integral = some i ∧
      ((transTupleCfgToDict c).get? (py n.key)).bind Json.integral = some i) ∧
    ∀ key ∈ ["sip", "dip"],
      SameAddress env f (d.get? (py key)) ((transTupleCfgToDict c).get? (py key))

/-- Every number is in the range of its field. -/
def InRange (d : Dict PyStr Json) : Prop :=
  ∀ n ∈ numFields, ∃ i : Int, (d.get? (py n.key)).bind Json.integral = some i ∧
    0 ≤ i ∧ i < 2 ^ n.width

/-! ## Conversions -/

theorem cUint_ok {w : Nat} {v : Json} {x : BitVec w} (h : cUint w v = .ok x) :
    ∃ i, v.integral = some i ∧ (x.toNat : Int) = i % 2 ^ w := by
  have hpos : (0 : Int) < 2 ^ w := Int.pow_pos (by decide)
  cases v with
  | int i =>
      cases h
      refine ⟨i, rfl, ?_⟩
      rw [BitVec.toNat_ofInt, Nat.cast_pow, Nat.cast_ofNat, Int.toNat_of_nonneg]
      exact Int.emod_nonneg _ hpos.ne'
  | bool b =>
      cases h
      refine ⟨_, rfl, ?_⟩
      cases b with
      | false => simp
      | true => simp
  | null => cases h
  | float i => cases h
  | str a => cases h
  | array items => cases h
  | object members => cases h

/-- The strings of a C library are strings of Python, too. -/
theorem utf8_py (s : String) : utf8 (py s) = .ok s := by
  have hvalid : (py s).all fun c => c.isValidChar := by
    rw [List.all_eq_true]
    intro c hc
    obtain ⟨x, -, rfl⟩ := List.mem_map.mp hc
    exact decide_eq_true x.valid
  rw [utf8, if_pos hvalid, py, List.map_map]
  congr 1
  have hchars : s.toList.map (Char.ofNat ∘ Char.toNat) = s.toList := by
    refine (List.map_congr_left fun c _ => ?_).trans (List.map_id _)
    exact Char.ofNat_toNat c
  rw [hchars, String.ofList_toList]

theorem zero_mem_py {s : String} : 0 ∈ py s ↔ '\x00' ∈ s.toList := by
  rw [py, List.mem_map]
  constructor
  · rintro ⟨c, hc, hzero⟩
    obtain rfl : c = '\x00' := by rw [← Char.ofNat_toNat c, hzero]
    exact hc
  · intro h
    exact ⟨_, h, rfl⟩

theorem utf8_ok {a : PyStr} {s : String} (h : utf8 a = .ok s) : a = py s := by
  rw [utf8] at h
  split at h
  next hvalid =>
    cases h
    rw [py, String.toList_ofList, List.map_map]
    refine (List.map_id a).symm.trans (List.map_congr_left fun c hc => ?_)
    have hc := of_decide_eq_true (List.all_eq_true.mp hvalid c hc)
    show c = (Char.ofNat c).toNat
    rw [Char.ofNat, dif_pos hc]
    rfl
  next => cases h

/-- A string without a 0 is read whole. -/
theorem cString_of_noNul {s : String} (h : '\x00' ∉ s.toList) : cString s = s := by
  have hall : s.toList.takeWhile (· ≠ '\x00') = s.toList := by
    rw [List.takeWhile_eq_self_iff]
    intro c hc
    simp only [ne_eq, decide_not, Bool.not_eq_true', decide_eq_false_iff_not]
    rintro rfl
    exact h hc
  rw [cString, hall, String.ofList_toList]

theorem setField_ok {α : Type} {d : Dict PyStr Json} {key : String} {conv : Json → Except Exc α}
    {set : RuleCfg → α → RuleCfg} {c c' : RuleCfg} (hkey : (d.get? (py key)).isSome)
    (h : setField d key conv set c = .ok c') :
    ∃ v x, d.get? (py key) = some v ∧ conv v = .ok x ∧ c' = set c x := by
  obtain ⟨v, hv⟩ := Option.isSome_iff_exists.mp hkey
  rw [setField, hv] at h
  simp only at h
  cases hx : conv v with
  | error e =>
      rw [hx] at h
      cases h
  | ok x =>
      rw [hx] at h
      cases h
      exact ⟨v, x, hv, hx, rfl⟩

/-- A string that is assigned to an address. -/
theorem cChars_ok {v : Json} {x : String} (h : cChars v = .ok x) :
    ∃ a s, v = .str a ∧ utf8 a = .ok s ∧ x = cString s := by
  obtain ⟨a, ha, hrest⟩ := bind_ok h
  obtain ⟨s, hs, hrest⟩ := bind_ok hrest
  cases v with
  | str b =>
      cases ha
      dsimp only at hrest
      split at hrest
      next => cases hrest
      next =>
        cases hrest
        exact ⟨a, s, rfl, hs, rfl⟩
  | null => cases ha
  | bool b => cases ha
  | int i => cases ha
  | float i => cases ha
  | array items => cases ha
  | object members => cases ha

/-- What the conversion makes of a dictionary that has all the keys. -/
theorem transDictToTupleRuleCfg_ok {d : Dict PyStr Json} {c : RuleCfg}
    (hkeys : ∀ key ∈ tupleRuleCfgFields.tail, (d.get? (py key)).isSome)
    (h : transDictToTupleRuleCfg env d = .ok c) :
    (∀ n ∈ numFields, ∃ i, (d.get? (py n.key)).bind Json.integral = some i ∧
      (n.get c : Int) = i % 2 ^ n.width) ∧
    ∃ sip dip s s' v, d.get? (py "sip") = some (.str sip) ∧ d.get? (py "dip") = some (.str dip) ∧
      utf8 sip = .ok s ∧ c.sip = cString s ∧ utf8 dip = .ok s' ∧ c.dip = cString s' ∧
      checkIpString env sip = .ok v ∧ c.isIpv6 = UInt8.ofInt v := by
  have hsip := hkeys "sip" (by decide)
  have hdip := hkeys "dip" (by decide)
  simp only [transDictToTupleRuleCfg, hsip, hdip, if_true] at h
  obtain ⟨c₁, h₁, h⟩ := bind_ok h
  obtain ⟨c₂, h₂, h⟩ := bind_ok h
  obtain ⟨c₃, h₃, h⟩ := bind_ok h
  obtain ⟨c₄, h₄, h⟩ := bind_ok h
  obtain ⟨c₅, h₅, h⟩ := bind_ok h
  obtain ⟨c₆, h₆, h⟩ := bind_ok h
  obtain ⟨c₇, h₇, h⟩ := bind_ok h
  obtain ⟨c₈, h₈, h⟩ := bind_ok h
  obtain ⟨c₉, h₉, h⟩ := bind_ok h
  obtain ⟨y, hy, h⟩ := bind_ok h
  obtain ⟨a, ha, h⟩ := bind_ok h
  obtain ⟨v, hv, h⟩ := bind_ok h
  obtain ⟨c₁₀, h₁₀, h⟩ := bind_ok h
  obtain ⟨y', hy', h⟩ := bind_ok h
  obtain ⟨a', ha', h⟩ := bind_ok h
  obtain ⟨v', hv', h⟩ := bind_ok h
  obtain ⟨_, x₁, hd₁, hx₁, rfl⟩ := setField_ok (hkeys "sport_min" (by decide)) h₁
  obtain ⟨_, x₂, hd₂, hx₂, rfl⟩ := setField_ok (hkeys "sport_max" (by decide)) h₂
  obtain ⟨_, x₃, hd₃, hx₃, rfl⟩ := setField_ok (hkeys "dport_min" (by decide)) h₃
  obtain ⟨_, x₄, hd₄, hx₄, rfl⟩ := setField_ok (hkeys "dport_max" (by decide)) h₄
  obtain ⟨_, x₅, hd₅, hx₅, rfl⟩ := setField_ok (hkeys "proto_min" (by decide)) h₅
  obtain ⟨_, x₆, hd₆, hx₆, rfl⟩ := setField_ok (hkeys "proto_max" (by decide)) h₆
  obtain ⟨_, x₇, hd₇, hx₇, rfl⟩ := setField_ok (hkeys "sip_mask" (by decide)) h₇
  obtain ⟨_, x₈, hd₈, hx₈, rfl⟩ := setField_ok (hkeys "dip_mask" (by decide)) h₈
  obtain ⟨_, x₉, hd₉, hx₉, rfl⟩ := setField_ok hsip h₉
  obtain ⟨_, x₁₀, hd₁₀, hx₁₀, rfl⟩ := setField_ok hdip h₁₀
  obtain ⟨sip, s, rfl, hs, rfl⟩ := cChars_ok hx₉
  obtain ⟨dip, s', rfl, hs', rfl⟩ := cChars_ok hx₁₀
  -- the version of the destination is that of the source
  rw [item, hd₉] at hy hy'
  cases hy
  cases hy'
  cases ha
  cases ha'
  rw [hv] at hv'
  cases hv'
  simp only [ne_eq, not_true_eq_false, if_false, and_self, if_true] at h
  cases h
  refine ⟨?_, a, dip, s, s', v, hd₉, hd₁₀, hs, rfl, hs', rfl, hv, rfl⟩
  have conv {w : Nat} {key : String} {y : Json} {x : BitVec w} (hd : d.get? (py key) = some y)
      (hx : cUint w y = .ok x) : ∃ i, (d.get? (py key)).bind Json.integral = some i ∧
        (x.toNat : Int) = i % 2 ^ w := by
    rw [hd]
    exact cUint_ok hx
  simp only [numFields, List.forall_mem_cons]
  exact ⟨conv hd₁ hx₁, conv hd₂ hx₂, conv hd₃ hx₃, conv hd₄ hx₄, conv hd₅ hx₅, conv hd₆ hx₆,
    conv hd₇ hx₇, conv hd₈ hx₈, by simp⟩

/-- What an accepted request hands to the store. -/
theorem tupleRequest_ok {isIpv6 : UInt8} {c : RuleCfg}
    (h : tupleRequest env data isIpv6 = .ok (some c)) :
    ∃ d, data.dict = .ok d ∧ (∀ key ∈ tupleRuleCfgFields.tail, (d.get? (py key)).isSome) ∧
      transDictToTupleRuleCfg env d = .ok c ∧ checkTupleRuleCfg env.acl c = 0 := by
  obtain ⟨accepted, haccepted, h⟩ := bind_ok h
  cases accepted with
  | false => cases h
  | true =>
      obtain ⟨d, hd, h⟩ := bind_ok h
      obtain ⟨c', hc, h⟩ := bind_ok h
      cases h
      obtain ⟨d', hd', haccepted⟩ := bind_ok haccepted
      rw [hd] at hd'
      cases hd'
      split at haccepted
      next => cases haccepted
      next =>
      split at haccepted
      next => cases haccepted
      next hkeys =>
      obtain ⟨c', hc', haccepted⟩ := bind_ok haccepted
      rw [hc] at hc'
      cases hc'
      have hchecks := of_decide_eq_true (Except.ok.inj haccepted)
      refine ⟨d, hd, fun key hkey => ?_, hc, hchecks.2⟩
      rw [Dict.get?_isSome]
      have hall := List.all_eq_true.mp (not_not.mp hkeys) (py key) (List.mem_map_of_mem hkey)
      exact of_decide_eq_true hall

/-! ## The way back -/

theorem get?_numField (c : RuleCfg) : ∀ n ∈ numFields,
    ((transTupleCfgToDict c).get? (py n.key)).bind Json.integral = some (n.get c : Int) := by
  simp only [numFields, List.forall_mem_cons]
  exact ⟨rfl, rfl, rfl, rfl, rfl, rfl, rfl, rfl, by simp⟩

theorem get?_sip (c : RuleCfg) :
    (transTupleCfgToDict c).get? (py "sip") = some (.str (py c.sip)) := rfl

theorem get?_dip (c : RuleCfg) :
    (transTupleCfgToDict c).get? (py "dip") = some (.str (py c.dip)) := rfl

theorem ruleDoc_inj {f f' : Bool} {c c' : RuleCfg} (h : ruleDoc f c = ruleDoc f' c') :
    f = f' ∧ transTupleCfgToDict c = transTupleCfgToDict c' := by
  have hmembers := Json.object.inj h
  simp only [List.cons.injEq, Prod.mk.injEq, true_and, and_true, Json.str.injEq,
    Json.object.injEq] at hmembers
  refine ⟨?_, hmembers.2⟩
  have hname := hmembers.1
  cases f <;> cases f' <;> first | rfl | exact absurd hname (by decide)

/-- A remainder is the number itself when that is in range. -/
theorem eq_emod_iff {i : Int} {w : Nat} : i = i % 2 ^ w ↔ 0 ≤ i ∧ i < 2 ^ w := by
  have hpos : (0 : Int) < 2 ^ w := Int.pow_pos (by decide)
  constructor
  · intro h
    rw [h]
    exact ⟨Int.emod_nonneg _ hpos.ne', Int.emod_lt_of_pos _ hpos⟩
  · rintro ⟨hnonneg, hlt⟩
    exact (Int.emod_eq_of_lt hnonneg hlt).symm

/-- An address without a 0 is the string that the store parses. -/
theorem pyInetPton_eq {address : PyStr} {str : String} (hs : utf8 address = .ok str)
    (hzero : 0 ∉ address) : pyInetPton env f address = env.acl.inetPton f (cString str) := by
  obtain rfl := utf8_ok hs
  rw [pyInetPton, hs]
  simp only [if_neg hzero]
  rw [cString_of_noNul (mt zero_mem_py.mpr hzero)]

theorem pyInetPton_zero {address : PyStr} (hzero : 0 ∈ address) :
    pyInetPton env f address = none := by
  rw [pyInetPton]
  split
  · rfl
  · rw [if_pos hzero]

/-- The text of an address reads as the address. -/
theorem pyInetPton_ntop (text : AddressText env.acl inetNtop) {bytes : List UInt8}
    (hlen : bytes.length = if f then 16 else 4) :
    pyInetPton env f (py (inetNtop f bytes)) = some bytes := by
  have hnul := text.noNul f bytes hlen
  rw [pyInetPton_eq (utf8_py _) (mt zero_mem_py.mp hnul), cString_of_noNul hnul]
  exact text.pton_ntop f bytes hlen

theorem checkIpString_ntop (text : AddressText env.acl inetNtop) {bytes : List UInt8}
    (hlen : bytes.length = if f then 16 else 4) :
    checkIpString env (py (inetNtop f bytes)) = .ok (if f then 1 else 0) := by
  have hparse := text.pton_ntop f bytes hlen
  have hzero : 0 ∉ py (inetNtop f bytes) := mt zero_mem_py.mp (text.noNul f bytes hlen)
  rw [checkIpString]
  refine (bind_of_ok (utf8_py _) _).trans ?_
  rw [if_neg hzero]
  cases f with
  | false =>
      rw [hparse]
      rfl
  | true =>
      rw [text.family bytes hlen, hparse]
      rfl

/-- The source address is checked as a string of Python. -/
theorem checkIpString_ok {address : PyStr} {v : Int} (h : checkIpString env address = .ok v) :
    0 ∉ address := by
  obtain ⟨str, -, h⟩ := bind_ok h
  split at h
  next => cases h
  next hzero => exact hzero

/-! ## The rule that is stored -/

/-- An accepted request has mapped the rule to what the conversion makes of it. -/
theorem updateSingleTupleConfig_ok {isIpv6 : UInt8} {checkOld : Bool}
    (h : updateSingleTupleConfig env fuel s g o data isIpv6 checkOld = some (t, .ok none)) :
    ∃ c, tupleRequest env data isIpv6 = .ok (some c) ∧
      Step env.acl s (.tryMap g o c checkOld, 0) t := by
  rw [updateSingleTupleConfig] at h
  split at h
  next => cases h
  next => cases h
  next c hreq =>
    obtain ⟨⟨u, ret⟩, hrun, hr⟩ := Option.map_eq_some_iff.mp h
    obtain ⟨hstore, hval⟩ := Prod.mk.inj hr
    subst hstore
    have hret := Except.ok.inj hval
    split at hret
    next hzero =>
      obtain rfl : ret = 0 := hzero
      exact ⟨c, hreq, fuel, hrun⟩
    next => cases hret

/-- A GET request gives back what has been accepted if and only if every number was in the range
of its field and the destination address had no 0 in it. -/
theorem stored_faithfully_iff {flag times : Int} {es : List (Call × Int)}
    (text : AddressText env.acl inetNtop) (run : Run (Step env.acl) (Conf.empty flag times) es s)
    {isIpv6 : UInt8} {checkOld : Bool}
    (h : updateSingleTupleConfig env fuel s g o data isIpv6 checkOld = some (t, .ok none)) :
    Faithful env inetNtop t g o data ↔
      ∃ d, data.dict = .ok d ∧ InRange d ∧
        ∀ dip, d.get? (py "dip") = some (.str dip) → 0 ∉ dip := by
  obtain ⟨c, hreq, hstep⟩ := updateSingleTupleConfig_ok h
  obtain ⟨d, hd, hkeys, htrans, hcheck⟩ := tupleRequest_ok hreq
  obtain ⟨hnum, sip, dip, str, str', v, hsip, hdip, hstr, hcsip, hstr', hcdip, hv, -⟩ :=
    transDictToTupleRuleCfg_ok hkeys htrans
  have run' := run.trans (.cons hstep (.refl t))
  have inv := MapInv.of_run run'
  obtain ⟨a, hmap, hbytes⟩ := (MapInv.of_run run).mapped hstep
  have hstored := (Stored.of_run text.length run' g).ruleCfg_eq text.length hcheck hmap hbytes
  obtain ⟨bytes, bytes', hpton, hpton', hcfg⟩ := tupleCfg_of_check hcheck
  have hget := getSingleAclConfig_mapped inetNtop inv hmap false
  dsimp only at hget hstored
  rw [hstored] at hget
  generalize decide (c.isIpv6 ≠ 0) = f at *
  -- what the GET request gives: the numbers as stored, the addresses as text
  obtain ⟨shown, hshown⟩ : ∃ shown, shown = textCfg inetNtop f (tupleCfg env.acl c) := ⟨_, rfl⟩
  rw [← hshown] at hget
  have hfields : ∀ n ∈ numFields, n.get shown = n.get c := by
    rw [hshown, hcfg]
    simp only [numFields, List.forall_mem_cons]
    exact ⟨rfl, rfl, rfl, rfl, rfl, rfl, rfl, rfl, by simp⟩
  have hshownSip : pyInetPton env f (py shown.sip) = some bytes := by
    rw [hshown, hcfg]
    exact pyInetPton_ntop text (text.length _ _ _ hpton)
  have hshownDip : pyInetPton env f (py shown.dip) = some bytes' := by
    rw [hshown, hcfg]
    exact pyInetPton_ntop text (text.length _ _ _ hpton')
  have hsource : pyInetPton env f sip = some bytes := by
    rw [pyInetPton_eq hstr (checkIpString_ok hv), ← hcsip]
    exact hpton
  constructor
  · rintro ⟨d', f', c', hd', hget', hnum', haddr⟩
    rw [hd] at hd'
    cases hd'
    obtain ⟨rfl, hdict⟩ := ruleDoc_inj (Option.some.inj (Except.ok.inj (hget.symm.trans hget')))
    refine ⟨d, hd, fun n hn => ?_, fun address haddress => ?_⟩
    · obtain ⟨i, hi, hmod⟩ := hnum n hn
      obtain ⟨j, hj, hshow⟩ := hnum' n hn
      obtain rfl : i = j := Option.some.inj (hi.symm.trans hj)
      rw [← hdict, get?_numField shown n hn, hfields n hn, hmod] at hshow
      exact ⟨i, hi, eq_emod_iff.mp (Option.some.inj hshow).symm⟩
    · obtain ⟨b, -, b', hb, -, hpton, -⟩ := haddr "dip" (by simp)
      rw [haddress] at hb
      cases hb
      intro hzero
      rw [pyInetPton_zero hzero] at hpton
      cases hpton
  · rintro ⟨d', hd', hrange, hzero⟩
    rw [hd] at hd'
    cases hd'
    refine ⟨d, f, shown, hd, hget, fun n hn => ?_, ?_⟩
    · obtain ⟨i, hi, hmod⟩ := hnum n hn
      obtain ⟨j, hj, hin⟩ := hrange n hn
      obtain rfl : i = j := Option.some.inj (hi.symm.trans hj)
      refine ⟨i, hi, ?_⟩
      rw [get?_numField shown n hn, hfields n hn, hmod, ← eq_emod_iff.mpr hin]
    · have hdest : pyInetPton env f dip = some bytes' := by
        rw [pyInetPton_eq hstr' (hzero dip hdip), ← hcdip]
        exact hpton'
      intro key hkey
      simp only [List.mem_cons, List.not_mem_nil, or_false] at hkey
      obtain rfl | rfl := hkey
      · exact ⟨sip, _, bytes, hsip, get?_sip shown, hsource, hshownSip⟩
      · exact ⟨dip, _, bytes', hdip, get?_dip shown, hdest, hshownDip⟩

/-! ## A rule between two hosts -/

def hostsEnv : Env := ⟨samplePython, ⟨sfCrc32Gen, inetPton⟩⟩

/-- The configuration of a rule with the given first port. -/
def hostsCfg (sportMin : Json) : Json :=
  .object
    [(py "sport_min", sportMin), (py "sport_max", .int 65535), (py "dport_min", .int 0),
      (py "dport_max", .int 65535), (py "proto_min", .int 0), (py "proto_max", .int 255),
      (py "sip", .str (py "10.0.0.1")), (py "sip_mask", .int 32),
      (py "dip", .str (py "10.0.0.2")), (py "dip_mask", .int 32)]

theorem updateSingleTupleConfig_hosts (sportMin : Json)
    (h : (updateSingleTupleConfig hostsEnv 2 (Conf.empty 0 0) 1 1 (hostsCfg sportMin) 0 true).map
      Prod.snd = some (.ok none)) :
    ∃ t, updateSingleTupleConfig hostsEnv 2 (Conf.empty 0 0) 1 1 (hostsCfg sportMin) 0 true =
      some (t, .ok none) := by
  obtain ⟨⟨t, r⟩, hupdate, rfl⟩ := Option.map_eq_some_iff.mp h
  exact ⟨t, hupdate⟩

/-- A rule for all ports is given back. -/
theorem stored_faithfully_hosts : ∃ t,
    updateSingleTupleConfig hostsEnv 2 (Conf.empty 0 0) 1 1 (hostsCfg (.int 0)) 0 true =
      some (t, .ok none) ∧ Faithful hostsEnv Acl.inetNtop t 1 1 (hostsCfg (.int 0)) := by
  obtain ⟨t, hupdate⟩ := updateSingleTupleConfig_hosts (.int 0) (by decide +kernel)
  refine ⟨t, hupdate, ?_⟩
  apply (stored_faithfully_iff (addressText _) (.refl _) hupdate).mpr
  refine ⟨_, rfl, ?_, ?_⟩
  · show ∀ n ∈ numFields, _
    simp only [numFields, List.forall_mem_cons]
    refine ⟨⟨0, rfl, ?_⟩, ⟨65535, rfl, ?_⟩, ⟨0, rfl, ?_⟩, ⟨65535, rfl, ?_⟩, ⟨0, rfl, ?_⟩,
      ⟨255, rfl, ?_⟩, ⟨32, rfl, ?_⟩, ⟨32, rfl, ?_⟩, by simp⟩ <;> decide
  · intro dip hdip
    obtain rfl : py "10.0.0.2" = dip := Json.str.inj (Option.some.inj hdip)
    decide

/-- The port 65536 is accepted, and no GET request can give it back. -/
theorem accepted_port_reduced : ∃ t,
    updateSingleTupleConfig hostsEnv 2 (Conf.empty 0 0) 1 1 (hostsCfg (.int 65536)) 0 true =
      some (t, .ok none) ∧ ¬Faithful hostsEnv Acl.inetNtop t 1 1 (hostsCfg (.int 65536)) := by
  obtain ⟨t, hupdate⟩ := updateSingleTupleConfig_hosts (.int 65536) (by decide +kernel)
  refine ⟨t, hupdate, ?_⟩
  rintro ⟨d, f, c, hd, -, hnum, -⟩
  cases hd
  obtain ⟨i, hi, hshown⟩ := hnum ⟨"sport_min", 16, fun c => c.sportMin.toNat⟩ (by simp [numFields])
  obtain rfl : 65536 = i := Option.some.inj hi
  have hport : (c.sportMin.toNat : Int) = 65536 := Option.some.inj hshown
  have hlt := c.sportMin.toNat_lt
  omega

end Tapplet.Rest
