import Tapplet.Acl.Endless

/-!
# Replacing a rule

A mapping call that is refused leaves the store as it is, since the new inner rule is chosen
before the old one is given up. The price is paid by a full table: a rule that is to be moved to
another configuration is refused there, although its own inner rule would become free.
-/

namespace Tapplet.Acl

open Transition

variable {env : Env} {s s' t : Conf} {g o a : Nat} {ruleCfg : RuleCfg} {ret : Int}

/-- A family has an inner rule that no outer rule uses. -/
def Conf.HasRoom (s : Conf) (g : Nat) (f : Bool) : Prop :=
  ∃ a, a ≠ 0 ∧ a ≤ tupleBitmapGetTotalCnt f ∧ (s.tuple g f).used a = false

/-- No outer rule but `o` is mapped to a rule of the family with this configuration. -/
def HeldByNoOther (env : Env) (s : Conf) (g o : Nat) (ruleCfg : RuleCfg) : Prop :=
  let f := decide (ruleCfg.isIpv6 ≠ 0)
  ∀ o' a, o' ≠ o → s.ruleMap g o' = ⟨.ofFamily f, a⟩ →
    ((s.tuple g f).ruleCfg a).bytes ≠ (tupleCfg env ruleCfg).bytes

theorem Conf.hasRoom_iff {f : Bool} : s.HasRoom g f ↔ tupleBitmapGetFirstUnused s g f ≠ 0 := by
  rw [Ne, tupleBitmapGetFirstUnused_eq_zero]
  constructor
  · rintro ⟨a, ha, hale, hclear⟩ hall
    rw [hall a ha hale] at hclear
    cases hclear
  · intro h
    push Not at h
    obtain ⟨a, ha, hale, hused⟩ := h
    exact ⟨a, ha, hale, (Bool.not_eq_true _).mp hused⟩

/-! ## A call returns -/

theorem LookupEnds.tupleHashFindActual (h : LookupEnds env s) (g : Nat) (ruleCfg : RuleCfg) :
    ∃ r, tupleHashFindActual env (tupleBitmapGetTotalCnt (decide (ruleCfg.isIpv6 ≠ 0))) s g
      ruleCfg = some r := by
  simp only [Acl.tupleHashFindActual]
  split
  next => exact ⟨_, rfl⟩
  next => exact h.aclHashFind g _ _ _

/-- Where searches end, every mapping call ends within as many rounds as there are rules. -/
theorem LookupEnds.tryMap_some (h : LookupEnds env s) (groupId outerRuleId : Int)
    (ruleCfg : RuleCfg) (checkOld : Bool) :
    ∃ t ret, tupleTryMapNewRule env (tupleBitmapGetTotalCnt (decide (ruleCfg.isIpv6 ≠ 0))) s
      groupId outerRuleId ruleCfg checkOld = some (t, ret) := by
  obtain ⟨r, hfind⟩ := h.tupleHashFindActual groupId.toNat ruleCfg
  suffices hcall : ∃ x, tupleTryMapNewRule env
      (tupleBitmapGetTotalCnt (decide (ruleCfg.isIpv6 ≠ 0))) s groupId outerRuleId ruleCfg
        checkOld = some x by
    obtain ⟨⟨t, ret⟩, hcall⟩ := hcall
    exact ⟨t, ret, hcall⟩
  simp only [tupleTryMapNewRule, hfind, Option.map_some]
  split
  · exact ⟨_, rfl⟩
  split
  · exact ⟨_, rfl⟩
  split
  · exact ⟨_, rfl⟩
  split
  · exact ⟨_, rfl⟩
  exact ⟨_, rfl⟩

theorem LookupEnds.tryMap_returns (h : LookupEnds env s) (groupId outerRuleId : Int)
    (ruleCfg : RuleCfg) (checkOld : Bool) :
    ∃ t ret, Step env s (.tryMap groupId outerRuleId ruleCfg checkOld, ret) t := by
  obtain ⟨t, ret, hcall⟩ := h.tryMap_some groupId outerRuleId ruleCfg checkOld
  exact ⟨t, ret, _, hcall⟩

/-- Where the chains are right, searches end. -/
theorem DupInv.lookupEnds (inv : DupInv env s) : LookupEnds env s := by
  apply inv.map.lookupEnds_iff.mpr
  intro g f key
  obtain ⟨chain, ok⟩ := inv.chains g f
  exact ⟨_, (ok.linked _).seg⟩

/-! ## What a call leaves behind -/

/-- An inner rule that the search finds and that `o'` uses is the one that `o'` is mapped to. -/
theorem MapInv.outer_eq {o' : Nat} (inv : MapInv s)
    (houter : tupleHashFindOuter s g a (decide (ruleCfg.isIpv6 ≠ 0)) = o') (hpos : 0 < o') :
    s.ruleMap g o' = ⟨.ofFamily (decide (ruleCfg.isIpv6 ≠ 0)), a⟩ := by
  rw [tupleHashFindOuter] at houter
  split at houter
  next =>
    simp only at houter
    split at houter
    next hvalid => exact houter ▸ inv.backward g _ a hvalid
    next => omega
  next => omega

/-- After a call that succeeds the outer rule holds the configuration. -/
theorem TryMap.holds (inv : MapInv s) (hcheck : checkTupleRuleCfg env ruleCfg = 0)
    (h : TryMap env s g o ruleCfg t ret) (hret : ret = 0) : Holds env t ⟨g, o, ruleCfg⟩ := by
  obtain ⟨rfl, a, o', hfind, hinner, houter, hpos, hval⟩ | ⟨-, a, s₁, s₂, hplaces⟩ :=
    h.places inv hcheck
  · by_cases hsame : o' = o
    · subst hsame
      exact ⟨a, inv.outer_eq houter hpos, (inv.finds_le hcheck hfind hinner).2.symm⟩
    · rw [if_neg hsame] at hval
      omega
  · obtain ⟨hcfg, -⟩ := DupInv.of_unmap hplaces.unmap g (decide (ruleCfg.isIpv6 ≠ 0))
    refine ⟨a, ?_, ?_⟩
    · rw [hplaces.link, linkRule_ruleMap, if_pos ⟨rfl, rfl⟩]
    · rw [hplaces.link, linkRule_ruleCfg, hcfg]
      exact hplaces.bytes

/-- A call that answers 0 has mapped the outer rule to the configuration. -/
theorem MapInv.mapped (inv : MapInv s) {checkOld : Bool}
    (h : Step env s (.tryMap g o ruleCfg checkOld, 0) t) : Holds env t ⟨g, o, ruleCfg⟩ := by
  obtain ⟨fuel, hrun⟩ := h
  obtain ⟨-, hneg, -⟩ | ⟨g', o', hg, ho, -, -, hcheck, htry⟩ :=
    tupleTryMapNewRule_cases inv.ruleMapOk hrun
  · exact absurd hneg (Int.lt_irrefl 0)
  · obtain rfl := Int.ofNat.inj hg
    obtain rfl := Int.ofNat.inj ho
    exact htry.holds inv hcheck rfl

/-- A call that does not answer 0 leaves the whole store as it is. -/
theorem MapInv.unchanged (inv : MapInv s) {groupId outerRuleId : Int} {checkOld : Bool}
    (h : Step env s (.tryMap groupId outerRuleId ruleCfg checkOld, ret) t) (hret : ret ≠ 0) :
    t = s := by
  obtain ⟨fuel, hrun⟩ := h
  obtain ⟨rfl, -⟩ | ⟨g, o, -, -, -, -, hcheck, htry⟩ :=
    tupleTryMapNewRule_cases inv.ruleMapOk hrun
  · rfl
  · obtain ⟨hsame, -⟩ | ⟨hzero, -⟩ := htry.places inv hcheck
    · exact hsame
    · exact absurd hzero hret

/-- A replacement by a configuration that no other rule of the family holds succeeds exactly
when there is room, or when the search finds the rule itself. -/
theorem MapInv.replace_iff (inv : MapInv s) (hcheck : checkTupleRuleCfg env ruleCfg = 0)
    (hmap : s.ruleMap g o = ⟨.ofFamily (decide (ruleCfg.isIpv6 ≠ 0)), a⟩)
    (hother : HeldByNoOther env s g o ruleCfg)
    (h : Step env s (.tryMap g o ruleCfg false, ret) t) :
    (ret = 0 ∨ ret = FAIL_REASON_RULE_FULL) ∧
      (ret = 0 ↔ s.HasRoom g (decide (ruleCfg.isIpv6 ≠ 0)) ∨ Finds env s g ruleCfg a) := by
  obtain ⟨hid, ha, hale, hrule⟩ := inv.forward _ _ _ _ hmap
  obtain ⟨fuel, hrun⟩ := h
  obtain ⟨-, hneg, hrefuses⟩ | ⟨g', o', hg, ho, -, -, -, htry⟩ :=
    tupleTryMapNewRule_cases inv.ruleMapOk hrun
  · -- refused: nothing is found and every inner rule is used
    obtain ⟨hnone, hfull, hret⟩ := hrefuses g o rfl rfl hid (by simp) hcheck
    refine ⟨.inr hret, iff_of_false (by simp only at hneg; omega) ?_⟩
    rintro (hroom | hfind)
    · exact Conf.hasRoom_iff.mp hroom hfull
    · exact ha (hfind.unique hnone)
  obtain rfl := Int.ofNat.inj hg
  obtain rfl := Int.ofNat.inj ho
  simp only at htry
  cases htry with
  | @found b o' _ hfind hinner houter hpos hval =>
      -- only the rule itself can hold the configuration
      have hback := inv.outer_eq houter hpos
      have hsame : o' = o := by
        by_contra hne
        exact hother o' b hne hback (inv.finds_le hcheck hfind hinner).2.symm
      subst hsame
      rw [hmap] at hback
      cases hback
      rw [if_pos rfl] at hval
      exact ⟨.inl hval, iff_of_true hval (.inr hfind)⟩
  | @reused b s₂ _ hfind hinner houter hunmap hval =>
      refine ⟨.inl hval, iff_of_true hval (.inl ⟨b, hinner, ?_, ?_⟩)⟩
      · exact (inv.finds_le hcheck hfind hinner).1
      · rw [← Bool.not_eq_true, inv.bits _ _ _ hinner, inv.outer_zero hinner houter]
        exact Bool.false_ne_true
  | @created b s₂ _ hfind hunused hinner hunmap hval =>
      exact ⟨.inl hval, iff_of_true hval (.inl (Conf.hasRoom_iff.mpr (hunused ▸ hinner)))⟩

/-- While the chains are right, a call for a free outer rule and a valid configuration that no
other rule of the family holds succeeds when there is room. -/
theorem DupInv.creates (inv : DupInv env s) (hid : ValidIds g o)
    (hfree : s.ruleMap g o = ⟨.none, 0⟩) (hcheck : checkTupleRuleCfg env ruleCfg = 0)
    (hother : HeldByNoOther env s g o ruleCfg)
    (hroom : s.HasRoom g (decide (ruleCfg.isIpv6 ≠ 0))) (checkOld : Bool) :
    ∃ t, tupleTryMapNewRule env (tupleBitmapGetTotalCnt (decide (ruleCfg.isIpv6 ≠ 0))) s g o
      ruleCfg checkOld = some (t, 0) := by
  obtain ⟨t, ret, hcall⟩ := inv.lookupEnds.tryMap_some g o ruleCfg checkOld
  suffices hret : ret = 0 by
    subst hret
    exact ⟨t, hcall⟩
  obtain ⟨-, -, hrefuses⟩ | ⟨g', o', hg, ho, -, -, -, htry⟩ :=
    tupleTryMapNewRule_cases inv.map.ruleMapOk hcall
  · obtain ⟨-, hfull, -⟩ := hrefuses g o rfl rfl hid (fun _ => hfree) hcheck
    exact absurd hfull (Conf.hasRoom_iff.mp hroom)
  · obtain rfl := Int.ofNat.inj hg
    obtain rfl := Int.ofNat.inj ho
    obtain ⟨-, a, o', hfind, hinner, houter, hpos, -⟩ | ⟨hzero, -⟩ := htry.places inv.map hcheck
    · have hback := inv.map.outer_eq houter hpos
      have hne : o' ≠ o := by
        rintro rfl
        exact ofFamily_ne_none _ (RuleMap.mk.inj (hback.symm.trans hfree)).1
      exact absurd (inv.map.finds_le hcheck hfind hinner).2.symm (hother o' a hne hback)
    · exact hzero

/-- Rule update is atomic, and refused only for want of room. In every store reached from the
cleared one: a mapping call returns when searches end; a call that does not answer 0 leaves the
store as it is; and the replacement of a mapped rule by a valid configuration of its family that
no other rule holds answers 0, and stores the configuration, exactly when the family has an
unused inner rule or the search finds the rule itself. -/
theorem rule_update {flag times : Int} {es : List (Call × Int)}
    (run : Run (Step env) (Conf.empty flag times) es s) (groupId outerRuleId : Int)
    (ruleCfg : RuleCfg) (checkOld : Bool) :
    (LookupEnds env s →
      ∃ t ret, Step env s (.tryMap groupId outerRuleId ruleCfg checkOld, ret) t) ∧
    ∀ t ret, Step env s (.tryMap groupId outerRuleId ruleCfg checkOld, ret) t →
      (ret ≠ 0 → t = s) ∧
      ∀ g o a, groupId = (g : Nat) → outerRuleId = (o : Nat) → checkOld = false →
        checkTupleRuleCfg env ruleCfg = 0 →
        s.ruleMap g o = ⟨.ofFamily (decide (ruleCfg.isIpv6 ≠ 0)), a⟩ →
        HeldByNoOther env s g o ruleCfg →
        (ret = 0 ∨ ret = FAIL_REASON_RULE_FULL) ∧
          (ret = 0 ↔ s.HasRoom g (decide (ruleCfg.isIpv6 ≠ 0)) ∨ Finds env s g ruleCfg a) ∧
          (ret = 0 → Holds env t ⟨g, o, ruleCfg⟩) := by
  have inv := MapInv.of_run run
  refine ⟨fun hends => hends.tryMap_returns _ _ _ _, fun t ret h => ⟨inv.unchanged h, ?_⟩⟩
  rintro g o a rfl rfl rfl hcheck hmap hother
  obtain ⟨hret, hiff⟩ := inv.replace_iff hcheck hmap hother h
  refine ⟨hret, hiff, fun hzero => ?_⟩
  subst hzero
  exact inv.mapped h

/-! ## A full table -/

section Full

/-- The rules that fill the table: `ruleA` with other source ports. -/
def portRule (i : Nat) : RuleCfg := { ruleA with sportMin := UInt16.ofNat i }

def portRules (n : Nat) : List Rule := (List.range n).map fun i => ⟨1, i + 1, portRule i⟩

theorem ruleA_check : checkTupleRuleCfg sampleEnv ruleA = 0 := by decide +kernel

theorem portRule_check (hcheck : checkTupleRuleCfg env ruleA = 0) (i : Nat) :
    checkTupleRuleCfg env (portRule i) = 0 := by
  have hmax : ¬(portRule i).sportMin > (portRule i).sportMax := by
    show ¬UInt16.ofNat i > 65535
    rw [gt_iff_lt, UInt16.lt_iff_toNat_lt, not_lt]
    exact Nat.le_of_lt_succ (UInt16.ofNat i).toNat_lt
  rw [checkTupleRuleCfg, if_neg (by decide), if_neg (by decide)] at hcheck
  have hfamily : ¬(portRule i).isIpv6 > 1 := by
    show ¬(0 : UInt8) > 1
    decide
  rw [checkTupleRuleCfg, if_neg hfamily, if_neg hmax]
  exact hcheck

theorem le16_injective {x y : UInt16} (h : le16 x = le16 y) : x = y := by
  obtain ⟨hlow, hhigh⟩ := List.cons.inj h
  have hlow := congrArg UInt8.toNat hlow
  have hhigh := congrArg UInt8.toNat (List.cons.inj hhigh).1
  simp only [UInt16.toNat_toUInt8, UInt16.toNat_shiftRight] at hlow hhigh
  apply UInt16.toNat_inj.mp
  have hx := x.toNat_lt
  have hy := y.toNat_lt
  have height : (8 : UInt16).toNat % 16 = 8 := rfl
  rw [height, Nat.shiftRight_eq_div_pow, Nat.shiftRight_eq_div_pow] at hhigh
  omega

theorem copyTupleCfg_sportMin (f : Bool) (dst : TupleRuleCfg) (ruleCfg : RuleCfg) :
    (copyTupleCfg env f dst ruleCfg).1.sportMin = ruleCfg.sportMin := by
  rw [copyTupleCfg]
  split
  · rfl
  split
  · rfl
  · rfl

/-- The rules have different configurations. -/
theorem portRule_injective {i j : Nat} (hi : i < 65536) (hj : j < 65536)
    (h : (tupleCfg env (portRule i)).bytes = (tupleCfg env (portRule j)).bytes) :
    i = j := by
  simp only [TupleRuleCfg.bytes, List.append_assoc] at h
  have hport := le16_injective (List.append_inj h rfl).1
  simp only [tupleCfg, copyTupleCfg_sportMin, portRule] at hport
  have hnat := congrArg UInt16.toNat hport
  rwa [UInt16.toNat_ofNat_of_lt' hi, UInt16.toNat_ofNat_of_lt' hj] at hnat

theorem hasRoom_iff_usedCnt {f : Bool} :
    s.HasRoom g f ↔ tupleBitmapGetUsedCnt s g f ≠ tupleBitmapGetTotalCnt f := by
  rw [tupleBitmapGetUsedCnt_eq, Ne, Nat.count_iff_forall, Conf.HasRoom]
  constructor
  · rintro ⟨a, ha, hale, hclear⟩ hall
    obtain ⟨a, rfl⟩ := Nat.exists_eq_succ_of_ne_zero ha
    exact Bool.false_ne_true (hclear.symm.trans (hall a hale))
  · intro h
    push Not at h
    obtain ⟨a, hlt, hclear⟩ := h
    exact ⟨a + 1, Nat.succ_ne_zero a, hlt, (Bool.not_eq_true _).mp hclear⟩

section Filled

variable {n : Nat} (h : Extends env (Conf.empty 0 0) s (portRules n))

include h

theorem portRules_held {i : Nat} (hi : i < n) :
    ∃ a, s.ruleMap 1 (i + 1) = ⟨.ofFamily false, a⟩ ∧
      ((s.tuple 1 false).ruleCfg a).bytes = (tupleCfg env (portRule i)).bytes := by
  have hmem : (⟨1, i + 1, portRule i⟩ : Rule) ∈ portRules n :=
    List.mem_map_of_mem (List.mem_range.mpr hi)
  obtain ⟨-, -, a, hmap, hcfg⟩ := h.added _ hmem
  exact ⟨a, hmap, hcfg⟩

theorem portRules_only {o : Nat} (ho : o = 0 ∨ n < o) : s.ruleMap 1 o = ⟨.none, 0⟩ := by
  refine (h.others 1 o fun r hr hsame => ?_).1
  obtain ⟨i, hi, rfl⟩ := List.mem_map.mp hr
  have hi := List.mem_range.mp hi
  simp only at hsame
  omega

/-- After `n` rules have been added the outer rules `1 .. n` are mapped. -/
theorem portRules_usedCnt (hn : n ≤ MAX_RULE_PER_GROUP) :
    tupleBitmapGetUsedCnt s 1 false = n := by
  have hset : ((Finset.Icc 1 MAX_RULE_PER_GROUP).filter fun o =>
      (s.ruleMap 1 o).ruleType = .ofFamily false ∧ (s.ruleMap 1 o).actualRuleId ≠ 0) =
      Finset.Icc 1 n := by
    ext o
    rw [Finset.mem_filter, Finset.mem_Icc, Finset.mem_Icc]
    constructor
    · rintro ⟨⟨hpos, -⟩, htype, -⟩
      refine ⟨hpos, Nat.le_of_not_lt fun hlt => ?_⟩
      rw [portRules_only h (.inr hlt)] at htype
      exact ofFamily_ne_none false htype.symm
    · rintro ⟨hpos, hle⟩
      obtain ⟨i, rfl⟩ := Nat.exists_eq_succ_of_ne_zero (Nat.ne_of_gt hpos)
      obtain ⟨a, hmap, -⟩ := portRules_held h hle
      rw [hmap]
      exact ⟨⟨hpos, hle.trans hn⟩, rfl, (h.inv.forward _ _ _ _ hmap).2.1⟩
  rw [h.inv.usedCnt_eq, hset, Nat.card_Icc, Nat.add_sub_cancel]

/-- No rule holds the configuration that comes next. -/
theorem portRules_new (hn : n < 65536) {o a : Nat} (hmap : s.ruleMap 1 o = ⟨.ofFamily false, a⟩) :
    ((s.tuple 1 false).ruleCfg a).bytes ≠ (tupleCfg env (portRule n)).bytes := by
  intro hbytes
  by_cases ho : o = 0 ∨ n < o
  · rw [portRules_only h ho] at hmap
    exact ofFamily_ne_none false (RuleMap.mk.inj hmap).1.symm
  · push Not at ho
    obtain ⟨i, rfl⟩ := Nat.exists_eq_succ_of_ne_zero ho.1
    obtain ⟨b, hmap', hcfg⟩ := portRules_held h ho.2
    rw [hmap] at hmap'
    cases hmap'
    have hsame := portRule_injective (by omega) hn (hcfg.symm.trans hbytes)
    omega

end Filled

/-- While there is room the next rule is added. -/
theorem portRules_next (hcheck : checkTupleRuleCfg env ruleA = 0) {n : Nat}
    (h : Extends env (Conf.empty 0 0) s (portRules n))
    (inv : DupInv env s) (hn : n < tupleBitmapGetTotalCnt false) :
    ∃ t, Step env s (Rule.call ⟨1, n + 1, portRule n⟩) t := by
  have hid : ValidIds 1 (n + 1) := by
    have htotal : tupleBitmapGetTotalCnt false ≤ MAX_RULE_PER_GROUP := by decide
    exact ⟨Nat.le_refl 1, Nat.le_refl 1, Nat.succ_pos n, Nat.le_trans hn htotal⟩
  have hroom : s.HasRoom 1 false := by
    rw [hasRoom_iff_usedCnt, portRules_usedCnt h (Nat.le_of_succ_le hid.outer_le)]
    exact Nat.ne_of_lt hn
  have hother : HeldByNoOther env s 1 (n + 1) (portRule n) :=
    fun o' a _ hmap => portRules_new h (hn.trans (by decide)) hmap
  obtain ⟨t, hcall⟩ := inv.creates hid (portRules_only h (.inr (Nat.lt_succ_self n)))
    (portRule_check hcheck n) hother hroom true
  exact ⟨t, _, hcall⟩

theorem portRules_run (hcheck : checkTupleRuleCfg env ruleA = 0) {n : Nat}
    (hn : n ≤ tupleBitmapGetTotalCnt false) :
    ∃ s, Run (Step env) (Conf.empty 0 0) ((portRules n).map Rule.call) s ∧
      Extends env (Conf.empty 0 0) s (portRules n) ∧ DupInv env s := by
  induction n with
  | zero => exact ⟨_, .refl _, .refl (.empty 0 0), .empty 0 0⟩
  | succ n ih =>
      obtain ⟨s, hrun, hext, inv⟩ := ih (Nat.le_of_succ_le hn)
      obtain ⟨t, hstep⟩ := portRules_next hcheck hext inv hn
      have hrules : portRules (n + 1) = portRules n ++ [⟨1, n + 1, portRule n⟩] := by
        rw [portRules, List.range_succ, List.map_append]
        rfl
      rw [hrules, List.map_append]
      exact ⟨t, hrun.trans (.cons hstep (.refl _)), hext.create hstep,
        inv.step (releasesAlone_checkOld (g := 1) (o := n + 1) rfl) hstep⟩

/-- The IPv4 table is filled with 2048 rules. The first of them is to be moved to a valid
configuration that no rule holds, and the call is refused. -/
theorem replace_refused :
    ∃ s a, Run (Step sampleEnv) (Conf.empty 0 0) ((portRules 2048).map Rule.call) s ∧
      checkTupleRuleCfg sampleEnv (portRule 2048) = 0 ∧
      s.ruleMap 1 1 = ⟨.ofFamily false, a⟩ ∧
      HeldByNoOther sampleEnv s 1 1 (portRule 2048) ∧
      Step sampleEnv s (.tryMap 1 1 (portRule 2048) false, FAIL_REASON_RULE_FULL) s := by
  obtain ⟨s, hrun, hext, inv⟩ := portRules_run ruleA_check (n := 2048) (Nat.le_refl _)
  obtain ⟨a, hmap, -⟩ := portRules_held hext (i := 0) (by decide)
  have hother : HeldByNoOther sampleEnv s 1 1 (portRule 2048) :=
    fun o' b _ hmap' => portRules_new hext (by decide) hmap'
  refine ⟨s, a, hrun, portRule_check ruleA_check 2048, hmap, hother, ?_⟩
  obtain ⟨t, ret, hstep⟩ := inv.lookupEnds.tryMap_returns (1 : Nat) (1 : Nat) (portRule 2048) false
  obtain ⟨hret, hiff⟩ := inv.map.replace_iff (portRule_check ruleA_check 2048) hmap hother hstep
  have hfamily : decide ((portRule 2048).isIpv6 ≠ 0) = false := rfl
  have hrefused : ret ≠ 0 := by
    rw [Ne, hiff]
    rintro (hroom | hfind)
    · rw [hfamily, hasRoom_iff_usedCnt, portRules_usedCnt hext (by decide)] at hroom
      exact hroom rfl
    · have ha := (inv.map.forward _ _ _ _ hmap).2.1
      exact portRules_new hext (by decide) hmap
        (inv.map.finds_le (portRule_check ruleA_check 2048) hfind ha).2.symm
  obtain rfl := inv.map.unchanged hstep hrefused
  rwa [hret.resolve_left hrefused] at hstep

/-- The rules are added to the cleared store, and the first of them is moved. -/
theorem rule_update_ports :
    ∃ s t ret, Run (Step sampleEnv) (Conf.empty 0 0) ((portRules 1).map Rule.call) s ∧
      Step sampleEnv s (.tryMap 1 1 (portRule 1) false, ret) t ∧ (ret ≠ 0 → t = s) ∧
      (ret = 0 ∨ ret = FAIL_REASON_RULE_FULL) ∧
      (ret = 0 → Holds sampleEnv t ⟨1, 1, portRule 1⟩) := by
  obtain ⟨s, hrun, hext, inv⟩ := portRules_run ruleA_check (n := 1) (by decide)
  obtain ⟨a, hmap, -⟩ := portRules_held hext (i := 0) (by decide)
  have hother : HeldByNoOther sampleEnv s 1 1 (portRule 1) :=
    fun o' b _ hmap' => portRules_new hext (by decide) hmap'
  obtain ⟨hreturns, hcall⟩ := rule_update hrun (1 : Nat) (1 : Nat) (portRule 1) false
  obtain ⟨t, ret, hstep⟩ := hreturns inv.lookupEnds
  obtain ⟨hsame, hrest⟩ := hcall t ret hstep
  obtain ⟨hret, -, hholds⟩ := hrest 1 1 a rfl rfl rfl (portRule_check ruleA_check 1) hmap hother
  exact ⟨s, t, ret, hrun, hstep, hsame, hret, hholds⟩

end Full

end Tapplet.Acl
