import Tapplet.Acl.Read

/-!
# Creating the rules of a store anew

A rule that is read from a store and created in a cleared one is read from that one as before.
When no two outer rules of a store are mapped to one configuration, all its rules can be
created anew, in any order: there is room for them, since the store had room, and none is a
duplicate of those that are there already.
-/

namespace Tapplet.Acl

open Transition

/-- No two outer rules of a group are mapped to one configuration of a family. -/
def Conf.Distinct (s : Conf) : Prop :=
  ∀ g f o o' a a', s.ruleMap g o = ⟨.ofFamily f, a⟩ → s.ruleMap g o' = ⟨.ofFamily f, a'⟩ →
    (s.tuple g f).ruleCfg a = (s.tuple g f).ruleCfg a' → o = o'

/-- The rule is mapped, and its configuration is what is read of it. -/
def ReadFrom (inetNtop : Bool → List UInt8 → String) (s : Conf) (r : Rule) : Prop :=
  ∃ f a, s.ruleMap r.groupId r.outerRuleId = ⟨.ofFamily f, a⟩ ∧
    r.cfg = textCfg inetNtop f ((s.tuple r.groupId f).ruleCfg a)

/-- `acl_sys_conf_find_next_rule` from `start_rule_id` on: the loop, with the rounds that are
left. -/
def findNextRuleLoop (s : Conf) (groupId : Nat) : Nat → Nat → Nat
  | 0, _ => 0
  | n + 1, startRuleId =>
      if (s.ruleMap groupId startRuleId).ruleType ≠ .none then startRuleId
      else findNextRuleLoop s groupId n (startRuleId + 1)

/-- `acl_sys_conf_find_next_rule`, for a start that is not negative. -/
def aclSysConfFindNextRule (s : Conf) (groupId : Int) (startRuleId : Nat) : Int :=
  if groupId ≤ 0 ∨ groupId > MAX_RULE_GROUP_CNT then -1
  else findNextRuleLoop s groupId.toNat (MAX_RULE_PER_GROUP - startRuleId) (startRuleId + 1)

variable {env : Env} {s t u : Conf} {g o a : Nat} {f : Bool} {r : Rule} {rules : List Rule}
variable {inetNtop : Bool → List UInt8 → String} {flag times : Int}

/-! ## The mapped rules in order -/

/-- The mapped outer rules of a group among the `n` from `o` on. -/
def mappedFrom (s : Conf) (g o n : Nat) : List Nat :=
  (List.range' o n).filter fun o => (s.ruleMap g o).ruleType ≠ .none

/-- The mapped outer rules of a group behind `o`. -/
def mappedAfter (s : Conf) (g o : Nat) : List Nat := mappedFrom s g (o + 1) (MAX_RULE_PER_GROUP - o)

theorem mappedFrom_succ (o n : Nat) : mappedFrom s g o (n + 1) =
    if (s.ruleMap g o).ruleType ≠ .none then o :: mappedFrom s g (o + 1) n
    else mappedFrom s g (o + 1) n := by
  simp only [mappedFrom, List.range'_succ, List.filter_cons, decide_eq_true_eq]

theorem findNextRuleLoop_eq (n o : Nat) :
    findNextRuleLoop s g n o = (mappedFrom s g o n).headD 0 := by
  induction n generalizing o with
  | zero => rfl
  | succ n ih =>
      rw [findNextRuleLoop, mappedFrom_succ]
      split
      · rfl
      · exact ih (o + 1)

/-- Behind the first of the mapped rules come the others. -/
theorem mappedFrom_tail {n o' : Nat} {rest : List Nat} (h : mappedFrom s g o n = o' :: rest) :
    o ≤ o' ∧ o' < o + n ∧ mappedFrom s g (o' + 1) (o + n - (o' + 1)) = rest := by
  induction n generalizing o with
  | zero => cases h
  | succ n ih =>
      rw [mappedFrom_succ] at h
      split at h
      · obtain ⟨rfl, hrest⟩ := List.cons.inj h
        refine ⟨Nat.le_refl o, by omega, ?_⟩
        rw [← hrest]
        congr 1
        omega
      · obtain ⟨hle, hlt, hrest⟩ := ih h
        refine ⟨by omega, by omega, ?_⟩
        rw [← hrest]
        congr 1
        omega

/-- What the search for the next rule answers. -/
theorem aclSysConfFindNextRule_eq (hg : ¬((g : Int) ≤ 0 ∨ (g : Int) > MAX_RULE_GROUP_CNT))
    (o : Nat) :
    aclSysConfFindNextRule s g o = ((mappedAfter s g o).headD 0 : Nat) := by
  rw [aclSysConfFindNextRule, if_neg hg, findNextRuleLoop_eq]
  rfl

theorem mappedAfter_tail {o' : Nat} {rest : List Nat} (h : mappedAfter s g o = o' :: rest) :
    o' ≠ 0 ∧ mappedAfter s g o' = rest := by
  obtain ⟨hle, hlt, hrest⟩ := mappedFrom_tail h
  refine ⟨by omega, ?_⟩
  rw [← hrest, mappedAfter]
  congr 1
  omega

/-! ## The text of a configuration -/

theorem textCfg_family (c : TupleRuleCfg) : decide ((textCfg inetNtop f c).isIpv6 ≠ 0) = f := by
  cases f <;> rfl

/-- The check passes with other texts that can be parsed. -/
theorem checkTupleRuleCfg_texts {ruleCfg : RuleCfg} (h : checkTupleRuleCfg env ruleCfg = 0)
    {sip dip : String} (hsip : env.inetPton (decide (ruleCfg.isIpv6 ≠ 0)) sip ≠ none)
    (hdip : env.inetPton (decide (ruleCfg.isIpv6 ≠ 0)) dip ≠ none) :
    checkTupleRuleCfg env { ruleCfg with sip := sip, dip := dip } = 0 := by
  simp only [checkTupleRuleCfg] at h ⊢
  generalize (if decide (ruleCfg.isIpv6 ≠ 0) = true then (128 : UInt8) else 32) = ipMaskMax
    at h ⊢
  split at h
  next => exact absurd h (by decide)
  next hfamily =>
  split at h
  next => exact absurd h (by decide)
  next hsport =>
  split at h
  next => exact absurd h (by decide)
  next hdport =>
  split at h
  next => exact absurd h (by decide)
  next hproto =>
  split at h
  next => exact absurd h (by decide)
  next hmask =>
  rw [if_neg hfamily, if_neg hsport, if_neg hdport, if_neg hproto, if_neg hmask, if_neg hsip,
    if_neg hdip]

theorem isIpv6_of_check {ruleCfg : RuleCfg} (h : checkTupleRuleCfg env ruleCfg = 0) :
    ruleCfg.isIpv6 = if decide (ruleCfg.isIpv6 ≠ 0) then 1 else 0 := by
  have hle : ¬ruleCfg.isIpv6 > 1 := by
    intro hgt
    rw [checkTupleRuleCfg, if_pos hgt] at h
    exact absurd h (by decide)
  have hle := UInt8.le_iff_toNat_le.mp (UInt8.not_lt.mp hle)
  have hone : (1 : UInt8).toNat = 1 := rfl
  rw [hone] at hle
  split
  next hne =>
    have hne : ruleCfg.isIpv6.toNat ≠ 0 := fun hzero =>
      of_decide_eq_true hne (UInt8.toNat_inj.mp hzero)
    apply UInt8.toNat_inj.mp
    rw [hone]
    omega
  next hzero =>
    by_contra hne
    exact hzero (decide_eq_true hne)

/-- What is read of a checked configuration passes the check and is stored as it was. -/
theorem Passed.textCfg (text : AddressText env inetNtop) {c : TupleRuleCfg} (h : Passed env f c) :
    checkTupleRuleCfg env (textCfg inetNtop f c) = 0 ∧
      tupleCfg env (Acl.textCfg inetNtop f c) = c := by
  have hfits := h.fits text.length
  have hsip := text.pton_ntop f c.sip hfits.sip
  have hdip := text.pton_ntop f c.dip hfits.dip
  constructor
  · obtain ⟨ruleCfg, hcheck, hfamily, hc⟩ := h
    obtain ⟨sip, dip, -, -, hcfg⟩ := tupleCfg_of_check hcheck
    have htext : Acl.textCfg inetNtop f c =
        { ruleCfg with sip := inetNtop f c.sip, dip := inetNtop f c.dip } := by
      have hisIpv6 := isIpv6_of_check hcheck
      rw [hfamily] at hisIpv6
      rw [hc, hcfg, Acl.textCfg, ← hisIpv6]
    rw [htext]
    apply checkTupleRuleCfg_texts hcheck
    · rw [hfamily, hsip]
      exact Option.some_ne_none _
    · rw [hfamily, hdip]
      exact Option.some_ne_none _
  · simp only [tupleCfg, textCfg_family, copyTupleCfg]
    simp only [Acl.textCfg, hsip, hdip]

/-! ## One rule -/

/-- A call for a free outer rule does the same with `check_old` and without. -/
theorem tupleTryMapNewRule_free (hid : ValidIds g o) (hfree : s.ruleMap g o = ⟨.none, 0⟩)
    (fuel : Nat) (ruleCfg : RuleCfg) :
    tupleTryMapNewRule env fuel s g o ruleCfg false =
      tupleTryMapNewRule env fuel s g o ruleCfg true := by
  have hmapNew (s' : Conf) (hfree : s'.ruleMap g o = ⟨.none, 0⟩) (a : Nat) (f : Bool) :
      mapNewRule env s' g o a f false = mapNewRule env s' g o a f true := by
    simp only [mapNewRule, Bool.false_eq_true, if_false, if_true,
      aclDeleteOldMap_unmapped hid hfree]
  have hset (a : Nat) (f : Bool) :
      (setTupleRuleCfg env s g a ruleCfg f).1.ruleMap g o = ⟨.none, 0⟩ := by
    simp only [setTupleRuleCfg]
    split
    · exact hfree
    split
    · exact hfree
    split
    · exact hfree
    exact hfree
  have htype : ¬(0 < aclGetRuleMapType s g o) := by
    rw [aclGetRuleMapType, if_neg hid.group_ok, if_neg hid.outer_ok, Int.toNat_natCast,
      Int.toNat_natCast, hfree]
    decide
  simp only [tupleTryMapNewRule, Bool.false_eq_true, false_and, true_and, if_false, if_neg htype,
    hmapNew s hfree, hmapNew _ (hset _ _)]

/-- The rules `rules` of the store `s` have been created in the cleared store. -/
structure Reloading (env : Env) (flag times : Int) (t : Conf) (rules : List Rule) : Prop where
  run : Run (Step env) (Conf.empty flag times) (rules.map Rule.call) t
  extend : Extends env (Conf.empty flag times) t rules
  dup : DupInv env t

theorem Reloading.empty : Reloading env flag times (Conf.empty flag times) [] :=
  ⟨.refl _, .refl (.empty flag times), .empty flag times⟩

/-- A rule that is mapped while the rules are created is one of them. -/
theorem Extends.mem_of_mapped (h : Extends env (Conf.empty flag times) t rules)
    (hmap : t.ruleMap g o = ⟨.ofFamily f, a⟩) : ∃ r ∈ rules, r.groupId = g ∧ r.outerRuleId = o := by
  by_contra hnone
  push Not at hnone
  have hsame := (h.others g o fun r hr hboth => hnone r hr hboth.1.symm hboth.2.symm).1
  rw [hmap] at hsame
  exact ofFamily_ne_none f (RuleMap.mk.inj hsame).1

section Reload

variable (text : AddressText env inetNtop) (stored : ∀ g, Stored env s g)

include text stored

/-- What a rule that was created anew holds is what the store `s` holds. -/
theorem Reloading.holds (h : Reloading env flag times t rules)
    (hread : ∀ r ∈ rules, ReadFrom inetNtop s r) (hmap : t.ruleMap g o = ⟨.ofFamily f, a⟩) :
    ∃ a', s.ruleMap g o = ⟨.ofFamily f, a'⟩ ∧
      (t.tuple g f).ruleCfg a = (s.tuple g f).ruleCfg a' := by
  obtain ⟨r, hr, rfl, rfl⟩ := h.extend.mem_of_mapped hmap
  obtain ⟨-, -, b, hmap', hbytes⟩ := h.extend.added r hr
  obtain ⟨f', a', hfrom, hcfg⟩ := hread r hr
  have hpassed := (stored r.groupId).passed _ _ _ hfrom
  rw [hcfg, textCfg_family, (hpassed.textCfg text).2] at hbytes
  rw [hcfg, textCfg_family] at hmap'
  rw [hmap] at hmap'
  obtain ⟨hfamily, rfl⟩ := RuleMap.mk.inj hmap'
  obtain rfl := ofFamily_inj hfamily
  refine ⟨a', hfrom, ?_⟩
  have hfits := ((Stored.of_run text.length h.run r.groupId).passed _ _ _ hmap).fits text.length
  have hfits' := hpassed.fits text.length
  exact TupleRuleCfg.eq_of_bytes hbytes (hfits.sip.trans hfits'.sip.symm)

variable (inv : MapInv s)

include inv

/-- There is room for a rule that has not been created yet. -/
theorem Reloading.hasRoom (h : Reloading env flag times t rules)
    (hread : ∀ r ∈ rules, ReadFrom inetNtop s r) (hmap : s.ruleMap g o = ⟨.ofFamily f, a⟩)
    (hfree : t.ruleMap g o = ⟨.none, 0⟩) : t.HasRoom g f := by
  rw [hasRoom_iff_usedCnt]
  apply Nat.ne_of_lt
  have hle : tupleBitmapGetUsedCnt s g f ≤ tupleBitmapGetTotalCnt f := by
    rw [tupleBitmapGetUsedCnt_eq]
    exact Nat.count_le _
  refine Nat.lt_of_lt_of_le ?_ hle
  rw [h.dup.map.usedCnt_eq, inv.usedCnt_eq]
  apply Finset.card_lt_card
  have hmem (o' : Nat) (u : Conf) (inv : MapInv u) :
      (o' ∈ (Finset.Icc 1 MAX_RULE_PER_GROUP).filter fun o' =>
        (u.ruleMap g o').ruleType = .ofFamily f ∧ (u.ruleMap g o').actualRuleId ≠ 0) ↔
        ∃ b, u.ruleMap g o' = ⟨.ofFamily f, b⟩ := by
    rw [Finset.mem_filter, Finset.mem_Icc]
    constructor
    · rintro ⟨-, htype, -⟩
      exact ⟨_, by rw [← htype]⟩
    · rintro ⟨b, hb⟩
      obtain ⟨hid, hne, -⟩ := inv.forward _ _ _ _ hb
      exact ⟨⟨hid.outer_pos, hid.outer_le⟩, by rw [hb], by rw [hb]; exact hne⟩
  refine Finset.ssubset_iff_subset_ne.mpr ⟨fun o' ho' => ?_, fun heq => ?_⟩
  · rw [hmem o' t h.dup.map] at ho'
    obtain ⟨b, hb⟩ := ho'
    obtain ⟨a', ha', -⟩ := h.holds text stored hread hb
    exact (hmem o' s inv).mpr ⟨a', ha'⟩
  · have ho := (hmem o s inv).mpr ⟨a, hmap⟩
    rw [← heq, hmem o t h.dup.map] at ho
    obtain ⟨b, hb⟩ := ho
    exact ofFamily_ne_none f (RuleMap.mk.inj (hb.symm.trans hfree)).1

/-- The next rule is created. -/
theorem Reloading.create (hdistinct : s.Distinct) (h : Reloading env flag times t rules)
    (hread : ∀ r ∈ rules, ReadFrom inetNtop s r) (hr : ReadFrom inetNtop s r)
    (hnew : ∀ r' ∈ rules, ¬(r'.groupId = r.groupId ∧ r'.outerRuleId = r.outerRuleId))
    {fuel : Nat} (hfuel : ∀ f, tupleBitmapGetTotalCnt f ≤ fuel) :
    ∃ u, tupleTryMapNewRule env fuel t r.groupId r.outerRuleId r.cfg false = some (u, 0) ∧
      Reloading env flag times u (rules ++ [r]) := by
  obtain ⟨f, a, hmap, hcfg⟩ := hr
  obtain ⟨hid, -⟩ := inv.forward _ _ _ _ hmap
  have hpassed := (stored r.groupId).passed _ _ _ hmap
  obtain ⟨hcheck, hstored⟩ := hpassed.textCfg text
  have hfamily : decide (r.cfg.isIpv6 ≠ 0) = f := by rw [hcfg, textCfg_family]
  rw [← hcfg] at hcheck hstored
  have hfree : t.ruleMap r.groupId r.outerRuleId = ⟨.none, 0⟩ :=
    (h.extend.others _ _ fun r' hr' hsame => hnew r' hr' ⟨hsame.1.symm, hsame.2.symm⟩).1
  have hother : HeldByNoOther env t r.groupId r.outerRuleId r.cfg := by
    intro o' b hne hb hbytes
    rw [hfamily] at hb hbytes
    obtain ⟨a', ha', hsame⟩ := h.holds text stored hread hb
    have hfits := ((stored r.groupId).passed _ _ _ ha').fits text.length
    rw [hsame, hstored] at hbytes
    refine hne (hdistinct _ _ _ _ _ _ ha' hmap (TupleRuleCfg.eq_of_bytes hbytes ?_))
    exact hfits.sip.trans (hpassed.fits text.length).sip.symm
  have hroom : t.HasRoom r.groupId (decide (r.cfg.isIpv6 ≠ 0)) := by
    rw [hfamily]
    exact h.hasRoom text stored inv hread hmap hfree
  obtain ⟨u, hcall⟩ := h.dup.creates hid hfree hcheck hother hroom true
  obtain ⟨more, rfl⟩ := Nat.exists_eq_add_of_le (hfuel (decide (r.cfg.isIpv6 ≠ 0)))
  have hcall := tupleTryMapNewRule_mono hcall more
  have hstep : Step env t r.call u := ⟨_, hcall⟩
  refine ⟨u, (tupleTryMapNewRule_free hid hfree _ _).trans hcall, ?_, h.extend.create hstep, ?_⟩
  · rw [List.map_append]
    exact h.run.trans (.cons hstep (.refl u))
  · exact h.dup.step (releasesAlone_checkOld rfl) hstep

end Reload

/-- The same outer rules are mapped in both stores, with the same types and configurations. -/
def SameRules (s t : Conf) : Prop :=
  ∀ g o, (t.ruleMap g o).ruleType = (s.ruleMap g o).ruleType ∧
    ∀ f a b, s.ruleMap g o = ⟨.ofFamily f, a⟩ → t.ruleMap g o = ⟨.ofFamily f, b⟩ →
      (t.tuple g f).ruleCfg b = (s.tuple g f).ruleCfg a

/-- When all the rules of a store have been created, the stores have the same rules. -/
theorem Reloading.sameRules (text : AddressText env inetNtop) (inv : MapInv s)
    (stored : ∀ g, Stored env s g) (h : Reloading env flag times t rules)
    (hread : ∀ r ∈ rules, ReadFrom inetNtop s r)
    (hall : ∀ g o f a, s.ruleMap g o = ⟨.ofFamily f, a⟩ →
      ∃ r ∈ rules, r.groupId = g ∧ r.outerRuleId = o) : SameRules s t := by
  intro g o
  constructor
  · obtain ht | ⟨f, b, hb⟩ := h.dup.map.ruleMapOk.cases g o
    · obtain hs | ⟨f, a, ha⟩ := inv.ruleMapOk.cases g o
      · rw [ht, hs]
      · obtain ⟨r, hr, rfl, rfl⟩ := hall g o f a ha
        obtain ⟨-, -, b, hb, -⟩ := h.extend.added r hr
        exact absurd (RuleMap.mk.inj (hb.symm.trans ht)).1 (ofFamily_ne_none _)
    · obtain ⟨a, ha, -⟩ := h.holds text stored hread hb
      rw [hb, ha]
  · intro f a b ha hb
    obtain ⟨a', ha', hsame⟩ := h.holds text stored hread hb
    rw [ha] at ha'
    rw [hsame, (RuleMap.mk.inj ha').2]

end Tapplet.Acl
