import Tapplet.Acl.Classify
import Tapplet.Acl.Update

/-!
# Reading a rule back

`get_tuple_rule_cfg` gives the configuration that an outer rule is mapped to, with its
addresses as text again. What a rule holds can be told from the bytes that the hash compares,
so a rule that was mapped to a configuration reads back as that configuration.
-/

namespace Tapplet.Acl

/-- What is relied on of `inet_pton` and `inet_ntop`: the text of an address denotes it, the
text of an IPv6 address is no IPv4 address, and it fits the buffers of 46 bytes as a string. -/
structure AddressText (env : Env) (inetNtop : Bool → List UInt8 → String) : Prop where
  length : InetPtonLength env
  pton_ntop : ∀ f (a : List UInt8), a.length = (if f then 16 else 4) →
    env.inetPton f (inetNtop f a) = some a
  family : ∀ a : List UInt8, a.length = 16 → env.inetPton false (inetNtop true a) = none
  size : ∀ f (a : List UInt8), a.length = (if f then 16 else 4) →
    (inetNtop f a).utf8ByteSize < 46
  noNul : ∀ f (a : List UInt8), a.length = (if f then 16 else 4) →
    '\x00' ∉ (inetNtop f a).toList

section Model

variable (inetNtop : Bool → List UInt8 → String)

/-- A stored configuration as `get_tuple_rule_cfg_inline` gives it. -/
def textCfg (isIpv6 : Bool) (c : TupleRuleCfg) : RuleCfg :=
  { isIpv6 := if isIpv6 then 1 else 0
    sportMin := c.sportMin
    sportMax := c.sportMax
    dportMin := c.dportMin
    dportMax := c.dportMax
    protoMin := c.protoMin
    protoMax := c.protoMax
    sip := inetNtop isIpv6 c.sip
    sipMask := c.sipMask
    dip := inetNtop isIpv6 c.dip
    dipMask := c.dipMask }

/-- `get_tuple_rule_cfg_inline`: `none` stands for -1. -/
def getTupleRuleCfgInline (s : Conf) (groupId : Int) (actualRuleId : Nat) (isIpv6 : Bool) :
    Option RuleCfg :=
  if groupId ≤ 0 ∨ groupId > MAX_RULE_GROUP_CNT then none
  else if actualRuleId = 0 ∨ actualRuleId > tupleBitmapGetTotalCnt isIpv6 then none
  else some (textCfg inetNtop isIpv6 ((s.tuple groupId.toNat isIpv6).ruleCfg actualRuleId))

/-- `get_tuple_rule_cfg` -/
def getTupleRuleCfg (s : Conf) (groupId outerRuleId : Int) : Option RuleCfg :=
  if groupId ≤ 0 ∨ groupId > MAX_RULE_GROUP_CNT then none
  else if outerRuleId ≤ 0 ∨ outerRuleId > MAX_RULE_PER_GROUP then none
  else
    let ruleMap := s.ruleMap groupId.toNat outerRuleId.toNat
    match ruleMap.ruleType with
    | .tuple4 => getTupleRuleCfgInline inetNtop s groupId ruleMap.actualRuleId false
    | .tuple6 => getTupleRuleCfgInline inetNtop s groupId ruleMap.actualRuleId true
    | .none => none

end Model

variable {env : Env} {s : Conf} {g o a : Nat} {f : Bool} {inetNtop : Bool → List UInt8 → String}

theorem getTupleRuleCfg_mapped (inv : MapInv s) (hmap : s.ruleMap g o = ⟨.ofFamily f, a⟩) :
    getTupleRuleCfg inetNtop s g o = some (textCfg inetNtop f ((s.tuple g f).ruleCfg a)) := by
  obtain ⟨hid, ha, hale, -⟩ := inv.forward _ _ _ _ hmap
  have hinner : ¬(a = 0 ∨ a > tupleBitmapGetTotalCnt f) := by omega
  simp only [getTupleRuleCfg, if_neg hid.group_ok, if_neg hid.outer_ok, Int.toNat_natCast, hmap]
  cases f <;> simp only [RuleType.ofFamily, Bool.false_eq_true, if_false, if_true,
    getTupleRuleCfgInline, if_neg hid.group_ok, if_neg hinner, Int.toNat_natCast]

theorem aclGetRuleMapType_mapped (inv : MapInv s) (hmap : s.ruleMap g o = ⟨.ofFamily f, a⟩) :
    aclGetRuleMapType s g o = if f then 2 else 1 := by
  obtain ⟨hid, -⟩ := inv.forward _ _ _ _ hmap
  rw [aclGetRuleMapType, if_neg hid.group_ok, if_neg hid.outer_ok, Int.toNat_natCast,
    Int.toNat_natCast, hmap]
  cases f <;> rfl

/-- Two configurations of a family that compare equal are equal. -/
theorem TupleRuleCfg.eq_of_bytes {c d : TupleRuleCfg} (h : c.bytes = d.bytes)
    (hsip : c.sip.length = d.sip.length) : c = d := by
  simp only [TupleRuleCfg.bytes, List.append_assoc] at h
  obtain ⟨hsportMin, h⟩ := List.append_inj h rfl
  obtain ⟨hsportMax, h⟩ := List.append_inj h rfl
  obtain ⟨hdportMin, h⟩ := List.append_inj h rfl
  obtain ⟨hdportMax, h⟩ := List.append_inj h rfl
  obtain ⟨hfour, h⟩ := List.append_inj h rfl
  obtain ⟨hsip, hdip⟩ := List.append_inj h hsip
  cases c
  cases d
  simp only [List.cons.injEq, and_true] at hfour
  obtain ⟨hprotoMin, hprotoMax, hsipMask, hdipMask⟩ := hfour
  rw [TupleRuleCfg.mk.injEq]
  exact ⟨le16_injective hsportMin, le16_injective hsportMax, le16_injective hdportMin,
    le16_injective hdportMax, hprotoMin, hprotoMax, hsipMask, hdipMask, hsip, hdip⟩

/-- What a checked configuration is stored as. -/
theorem tupleCfg_of_check {ruleCfg : RuleCfg} (hcheck : checkTupleRuleCfg env ruleCfg = 0) :
    ∃ sip dip, env.inetPton (decide (ruleCfg.isIpv6 ≠ 0)) ruleCfg.sip = some sip ∧
      env.inetPton (decide (ruleCfg.isIpv6 ≠ 0)) ruleCfg.dip = some dip ∧
      tupleCfg env ruleCfg = ⟨ruleCfg.sportMin, ruleCfg.sportMax, ruleCfg.dportMin,
        ruleCfg.dportMax, ruleCfg.protoMin, ruleCfg.protoMax, ruleCfg.sipMask, ruleCfg.dipMask,
        sip, dip⟩ := by
  obtain ⟨-, -, ⟨sip, hsip⟩, dip, hdip⟩ := checkTupleRuleCfg_eq_zero hcheck
  refine ⟨sip, dip, hsip, hdip, ?_⟩
  simp only [tupleCfg, copyTupleCfg, hsip, hdip]

/-- A rule that holds a checked configuration has stored it. -/
theorem Stored.ruleCfg_eq {ruleCfg : RuleCfg} (stored : Stored env s g) (pton : InetPtonLength env)
    (hcheck : checkTupleRuleCfg env ruleCfg = 0)
    (hmap : s.ruleMap g o = ⟨.ofFamily (decide (ruleCfg.isIpv6 ≠ 0)), a⟩)
    (hbytes : ((s.tuple g (decide (ruleCfg.isIpv6 ≠ 0))).ruleCfg a).bytes =
      (tupleCfg env ruleCfg).bytes) :
    (s.tuple g (decide (ruleCfg.isIpv6 ≠ 0))).ruleCfg a = tupleCfg env ruleCfg := by
  have hfits := (stored.passed _ _ _ hmap).fits pton
  have hfits' := Passed.fits pton ⟨ruleCfg, hcheck, rfl, rfl⟩
  exact TupleRuleCfg.eq_of_bytes hbytes (hfits.sip.trans hfits'.sip.symm)

end Tapplet.Acl
