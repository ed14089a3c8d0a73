import Tapplet.Acl.Bitmap

/-!
# What a call on the rule store can do

A call changes the store in two ways only: `unmapRule` takes an outer rule off its inner
rule, `linkRule` puts an outer rule on a free inner rule. This module reduces every call
to those two, under the conditions that the source has tested by then, so that the later
invariants need not look at the early returns again.
-/

namespace Tapplet.Acl

/-! ## Reading after writing -/

section Access

variable (s : Conf) (g : Nat) (f : Bool) (t : TupleTable)

@[simp] theorem setTable_ruleMap : (s.setTable g f t).ruleMap = s.ruleMap := rfl

@[simp] theorem setTable_tuple_self : (s.setTable g f t).tuple g f = t := by
  simp [Conf.setTable]

theorem setTable_tuple (g' : Nat) (f' : Bool) :
    (s.setTable g f t).tuple g' f' = if g' = g ∧ f' = f then t else s.tuple g' f' := by
  by_cases hg : g' = g
  · subst hg
    by_cases hf : f' = f
    · simp [Conf.setTable, hf]
    · simp [Conf.setTable, hf]
  · simp [Conf.setTable, hg]

@[simp] theorem setTable_setTable (t' : TupleTable) :
    (s.setTable g f t).setTable g f t' = s.setTable g f t' := by
  simp [Conf.setTable]

variable (o : Nat) (m : RuleMap)

@[simp] theorem setRuleMap_tuple : (s.setRuleMap g o m).tuple = s.tuple := rfl

@[simp] theorem setRuleMap_ruleMap_self : (s.setRuleMap g o m).ruleMap g o = m := by
  simp [Conf.setRuleMap]

theorem setRuleMap_ruleMap (g' o' : Nat) :
    (s.setRuleMap g o m).ruleMap g' o' = if g' = g ∧ o' = o then m else s.ruleMap g' o' := by
  by_cases hg : g' = g
  · subst hg
    by_cases ho : o' = o
    · simp [Conf.setRuleMap, ho]
    · simp [Conf.setRuleMap, ho]
  · simp [Conf.setRuleMap, hg]

theorem setRuleMap_eq_self {m : RuleMap} (h : s.ruleMap g o = m) : s.setRuleMap g o m = s := by
  subst h
  simp [Conf.setRuleMap]

end Access

/-! ## The two changes -/

/-- The table of a family after inner rule `a` has been taken out of use. -/
def TupleTable.unmapped (env : Env) (t : TupleTable) (isIpv6 : Bool) (a : Nat) : TupleTable :=
  { t with
    bitmap := (t.unsetUsedFlag a).bitmap
    hash := aclHashFree env t.hash (tupleRuleHashBucketCnt isIpv6) (t.ruleCfg a).bytes a
    mapRule := Function.update t.mapRule a ⟨false, 0, 0⟩ }

/-- The table of a family after inner rule `a` has been put to use for outer rule `o`. -/
def TupleTable.linked (env : Env) (t : TupleTable) (isIpv6 : Bool) (g o a : Nat) : TupleTable :=
  { t with
    bitmap := (t.setUsedFlag a).bitmap
    hash := aclHashInsert env t.hash (tupleRuleHashBucketCnt isIpv6) (t.ruleCfg a).bytes a
    mapRule := Function.update t.mapRule a ⟨true, g, o⟩ }

/-- Outer rule `o` is taken off inner rule `a`. -/
def unmapRule (env : Env) (s : Conf) (g o : Nat) (f : Bool) (a : Nat) : Conf :=
  (s.setTable g f ((s.tuple g f).unmapped env f a)).setRuleMap g o ⟨.none, 0⟩

/-- Outer rule `o` is put on inner rule `a`. -/
def linkRule (env : Env) (s : Conf) (g o : Nat) (f : Bool) (a : Nat) : Conf :=
  (s.setRuleMap g o ⟨.ofFamily f, a⟩).setTable g f ((s.tuple g f).linked env f g o a)

theorem unmapRule_ruleMap (env : Env) (s : Conf) (g o : Nat) (f : Bool) (a g' o' : Nat) :
    (unmapRule env s g o f a).ruleMap g' o' =
      if g' = g ∧ o' = o then ⟨.none, 0⟩ else s.ruleMap g' o' :=
  setRuleMap_ruleMap ..

theorem unmapRule_tuple (env : Env) (s : Conf) (g o : Nat) (f : Bool) (a g' : Nat) (f' : Bool) :
    (unmapRule env s g o f a).tuple g' f' =
      if g' = g ∧ f' = f then (s.tuple g f).unmapped env f a else s.tuple g' f' :=
  setTable_tuple ..

theorem linkRule_ruleMap (env : Env) (s : Conf) (g o : Nat) (f : Bool) (a g' o' : Nat) :
    (linkRule env s g o f a).ruleMap g' o' =
      if g' = g ∧ o' = o then ⟨.ofFamily f, a⟩ else s.ruleMap g' o' :=
  setRuleMap_ruleMap ..

theorem linkRule_tuple (env : Env) (s : Conf) (g o : Nat) (f : Bool) (a g' : Nat) (f' : Bool) :
    (linkRule env s g o f a).tuple g' f' =
      if g' = g ∧ f' = f then (s.tuple g f).linked env f g o a else s.tuple g' f' :=
  setTable_tuple ..

@[simp] theorem used_unmapped (env : Env) (t : TupleTable) (f : Bool) (a b : Nat) :
    (t.unmapped env f a).used b = (t.unsetUsedFlag a).used b := rfl

@[simp] theorem used_linked (env : Env) (t : TupleTable) (f : Bool) (g o a b : Nat) :
    (t.linked env f g o a).used b = (t.setUsedFlag a).used b := rfl

/-- Ids that pass the tests at the start of every call. -/
structure ValidIds (g o : Nat) : Prop where
  group_pos : 1 ≤ g
  group_le : g ≤ MAX_RULE_GROUP_CNT
  outer_pos : 1 ≤ o
  outer_le : o ≤ MAX_RULE_PER_GROUP

theorem tupleDeleteOldMap_eq (env : Env) (s : Conf) {g a : Nat} {f : Bool} (hg : 1 ≤ g)
    (hgle : g ≤ MAX_RULE_GROUP_CNT) (ha : a ≠ 0) (hale : a ≤ tupleBitmapGetTotalCnt f) :
    tupleDeleteOldMap env s g a f = (s.setTable g f ((s.tuple g f).unmapped env f a), 0) := by
  have hgroup : ¬ ((g : Int) ≤ 0 ∨ (g : Int) > MAX_RULE_GROUP_CNT) := by omega
  have hinner : ¬ (a = 0 ∨ a > tupleBitmapGetTotalCnt f) := by omega
  simp only [tupleDeleteOldMap, if_neg hgroup, if_neg hinner, Int.toNat_natCast, tupleHashFree,
    tupleBitmapUnsetUsedFlag, setTable_tuple_self, setTable_setTable]
  rfl

/-- The ids of a call are natural numbers once they have passed the tests. -/
theorem ids_cases (groupId outerRuleId : Int) :
    (groupId ≤ 0 ∨ groupId > MAX_RULE_GROUP_CNT) ∨
      (outerRuleId ≤ 0 ∨ outerRuleId > MAX_RULE_PER_GROUP) ∨
      ∃ g o : Nat, groupId = g ∧ outerRuleId = o ∧ ValidIds g o := by
  by_cases hg : groupId ≤ 0 ∨ groupId > MAX_RULE_GROUP_CNT
  · exact .inl hg
  by_cases ho : outerRuleId ≤ 0 ∨ outerRuleId > MAX_RULE_PER_GROUP
  · exact .inr (.inl ho)
  exact .inr (.inr ⟨groupId.toNat, outerRuleId.toNat, by omega, by omega,
    by omega, by omega, by omega, by omega⟩)

/-- The entries of the map that the calls rely on: an entry without a type is cleared,
and an entry with a type holds an inner id of that family. -/
structure RuleMapOk (s : Conf) : Prop where
  none_zero : ∀ g o a, s.ruleMap g o = ⟨.none, a⟩ → a = 0
  inner : ∀ g o f a, s.ruleMap g o = ⟨.ofFamily f, a⟩ → a ≠ 0 ∧ a ≤ tupleBitmapGetTotalCnt f

/-- An outer rule is unmapped or mapped to a rule of one family. -/
theorem RuleMapOk.cases {s : Conf} (ok : RuleMapOk s) (g o : Nat) :
    s.ruleMap g o = ⟨.none, 0⟩ ∨ ∃ f a, s.ruleMap g o = ⟨.ofFamily f, a⟩ := by
  obtain ⟨type, a, hmap⟩ : ∃ type a, s.ruleMap g o = ⟨type, a⟩ := ⟨_, _, rfl⟩
  cases type with
  | none =>
      have hzero := ok.none_zero g o a hmap
      subst hzero
      exact .inl hmap
  | tuple4 => exact .inr ⟨false, a, hmap⟩
  | tuple6 => exact .inr ⟨true, a, hmap⟩

variable {env : Env} {s : Conf} {g o : Nat}

namespace ValidIds

theorem group_ok (h : ValidIds g o) : ¬ ((g : Int) ≤ 0 ∨ (g : Int) > MAX_RULE_GROUP_CNT) := by
  have := h.group_pos
  have := h.group_le
  omega

theorem outer_ok (h : ValidIds g o) : ¬ ((o : Int) ≤ 0 ∨ (o : Int) > MAX_RULE_PER_GROUP) := by
  have := h.outer_pos
  have := h.outer_le
  omega

end ValidIds

/-! ## Deleting -/

theorem aclDeleteOldMap_unmapped (hid : ValidIds g o) (hmap : s.ruleMap g o = ⟨.none, 0⟩)
    (noCheck : Bool) :
    aclDeleteOldMap env s g o noCheck = (s, if noCheck then 0 else -2) := by
  simp only [aclDeleteOldMap, if_neg hid.group_ok, if_neg hid.outer_ok, Int.toNat_natCast, hmap]
  cases noCheck with
  | false => rfl
  | true => simp only [if_true, setRuleMap_eq_self s g o hmap]

theorem aclDeleteOldMap_mapped (hid : ValidIds g o) {f : Bool} {a : Nat}
    (hmap : s.ruleMap g o = ⟨.ofFamily f, a⟩) (ok : RuleMapOk s) (noCheck : Bool) :
    aclDeleteOldMap env s g o noCheck = (unmapRule env s g o f a, 0) := by
  obtain ⟨ha, hale⟩ := ok.inner g o f a hmap
  simp only [aclDeleteOldMap, if_neg hid.group_ok, if_neg hid.outer_ok, Int.toNat_natCast, hmap]
  cases f <;> simp only [RuleType.ofFamily, Bool.false_eq_true, if_false, if_true,
    tupleDeleteOldMap_eq env s hid.group_pos hid.group_le ha hale] <;> rfl

/-- A call of `acl_delete_old_map` changes nothing, or takes a mapped rule off. -/
theorem aclDeleteOldMap_cases (ok : RuleMapOk s) (groupId outerRuleId : Int) (noCheck : Bool) :
    (aclDeleteOldMap env s groupId outerRuleId noCheck).1 = s ∨
      ∃ g o f a, groupId = (g : Nat) ∧ outerRuleId = (o : Nat) ∧ ValidIds g o ∧
        s.ruleMap g o = ⟨.ofFamily f, a⟩ ∧
        (aclDeleteOldMap env s groupId outerRuleId noCheck).1 = unmapRule env s g o f a := by
  rcases ids_cases groupId outerRuleId with hg | ho | ⟨g, o, rfl, rfl, hid⟩
  · exact .inl (by simp only [aclDeleteOldMap, if_pos hg])
  · refine .inl ?_
    simp only [aclDeleteOldMap, if_pos ho]
    split <;> rfl
  · rcases ok.cases g o with hmap | ⟨f, a, hmap⟩
    · exact .inl (by rw [aclDeleteOldMap_unmapped hid hmap])
    · exact .inr ⟨g, o, f, a, rfl, rfl, hid, hmap, by rw [aclDeleteOldMap_mapped hid hmap ok]⟩

/-! ## Mapping -/

/-- The store `s'` differs from `s` in that outer rule `o` is not mapped any more. -/
inductive Unmap (env : Env) (s : Conf) (g o : Nat) : Conf → Prop where
  | free (hmap : s.ruleMap g o = ⟨.none, 0⟩) : Unmap env s g o s
  | mapped {f a} (hmap : s.ruleMap g o = ⟨.ofFamily f, a⟩) :
      Unmap env s g o (unmapRule env s g o f a)

/-- The end of `tuple_try_map_new_rule` takes the outer rule off and puts it on again. -/
theorem mapNewRule_cases (env : Env) (hid : ValidIds g o) (ok : RuleMapOk s) (checkOld : Bool)
    (hold : checkOld = true → s.ruleMap g o = ⟨.none, 0⟩) (f : Bool) (a : Nat) :
    ∃ s', Unmap env s g o s' ∧
      mapNewRule env s g o a f checkOld = (linkRule env s' g o f a, 0) := by
  have hlink : ∀ s', tupleHashInsert env (tupleBitmapSetUsedFlag
      (tupleMapRuleMap s' g o a f) g a f) g a f = linkRule env s' g o f a := by
    intro s'
    simp only [tupleMapRuleMap, tupleBitmapSetUsedFlag, tupleHashInsert, setRuleMap_tuple,
      setTable_tuple_self, setTable_setTable]
    rfl
  cases checkOld with
  | true => exact ⟨s, .free (hold rfl), by simp [mapNewRule, hlink]⟩
  | false =>
      rcases ok.cases g o with hmap | ⟨f', a', hmap⟩
      · refine ⟨s, .free hmap, ?_⟩
        simp [mapNewRule, aclDeleteOldMap_unmapped hid hmap, hlink]
      · refine ⟨_, .mapped hmap, ?_⟩
        simp [mapNewRule, aclDeleteOldMap_mapped hid hmap ok, hlink]

/-- The configuration a call compares and stores: what the copy makes of it. -/
def tupleCfg (env : Env) (ruleCfg : RuleCfg) : TupleRuleCfg :=
  (copyTupleCfg env (decide (ruleCfg.isIpv6 ≠ 0)) default ruleCfg).1

/-- A configuration that passes the check is copied whole, whatever was there before. -/
theorem copyTupleCfg_of_check {ruleCfg : RuleCfg} (hcheck : checkTupleRuleCfg env ruleCfg = 0)
    (dst : TupleRuleCfg) :
    copyTupleCfg env (decide (ruleCfg.isIpv6 ≠ 0)) dst ruleCfg = (tupleCfg env ruleCfg, 0) := by
  simp only [checkTupleRuleCfg] at hcheck
  generalize (if decide (ruleCfg.isIpv6 ≠ 0) = true then (128 : UInt8) else 32) = ipMaskMax
    at hcheck
  repeat' split at hcheck
  all_goals first
    | exact absurd hcheck (by decide)
    | skip
  rename_i hsip hdip
  obtain ⟨sip, hsip⟩ := Option.ne_none_iff_exists'.mp hsip
  obtain ⟨dip, hdip⟩ := Option.ne_none_iff_exists'.mp hdip
  simp only [tupleCfg, copyTupleCfg, hsip, hdip]

/-- The inner rule that a search of the hash finds for a configuration. -/
def Finds (env : Env) (s : Conf) (g : Nat) (ruleCfg : RuleCfg) (a : Nat) : Prop :=
  ∃ fuel, tupleHashFindActual env fuel s g ruleCfg = some a

/-- The store with the configuration written to an inner rule. -/
def setCfg (env : Env) (s : Conf) (g : Nat) (ruleCfg : RuleCfg) (a : Nat) : Conf :=
  let f := decide (ruleCfg.isIpv6 ≠ 0)
  s.setTable g f { s.tuple g f with
    ruleCfg := Function.update (s.tuple g f).ruleCfg a (tupleCfg env ruleCfg) }

theorem setCfg_tuple (env : Env) (s : Conf) (g : Nat) (ruleCfg : RuleCfg) (a g' : Nat)
    (f' : Bool) : (setCfg env s g ruleCfg a).tuple g' f' =
      { s.tuple g' f' with ruleCfg :=
          if g' = g ∧ f' = decide (ruleCfg.isIpv6 ≠ 0)
          then Function.update (s.tuple g' f').ruleCfg a (tupleCfg env ruleCfg)
          else (s.tuple g' f').ruleCfg } := by
  rw [setCfg, setTable_tuple]
  split
  next h =>
    obtain ⟨rfl, rfl⟩ := h
    rfl
  next => rfl

/-- The outcomes of `tuple_try_map_new_rule` past its argument checks: the new store and
the return value. -/
inductive TryMap (env : Env) (s : Conf) (g o : Nat) (ruleCfg : RuleCfg) : Conf → Int → Prop where
  /-- the configuration is that of the outer rule itself, or of another one -/
  | found {a o' ret} (hfind : Finds env s g ruleCfg a) (hinner : a ≠ 0)
      (houter : tupleHashFindOuter s g a (decide (ruleCfg.isIpv6 ≠ 0)) = o') (hpos : 0 < o')
      (hret : ret = if o' = o then (0 : Int) else o') : TryMap env s g o ruleCfg s ret
  /-- the hash still has an inner rule with this configuration that no outer rule uses -/
  | reused {a s' ret} (hfind : Finds env s g ruleCfg a) (hinner : a ≠ 0)
      (houter : tupleHashFindOuter s g a (decide (ruleCfg.isIpv6 ≠ 0)) = 0)
      (hunmap : Unmap env s g o s') (hret : ret = 0) :
      TryMap env s g o ruleCfg (linkRule env s' g o (decide (ruleCfg.isIpv6 ≠ 0)) a) ret
  | created {a s' ret} (hfind : Finds env s g ruleCfg 0)
      (hunused : tupleBitmapGetFirstUnused s g (decide (ruleCfg.isIpv6 ≠ 0)) = a)
      (hinner : a ≠ 0) (hunmap : Unmap env (setCfg env s g ruleCfg a) g o s')
      (hret : ret = 0) :
      TryMap env s g o ruleCfg (linkRule env s' g o (decide (ruleCfg.isIpv6 ≠ 0)) a) ret

/-- A call whose arguments are in order is refused with `ret` only when there is no room: the
search finds nothing and no inner rule is unused. -/
def Refuses (env : Env) (s : Conf) (groupId outerRuleId : Int) (ruleCfg : RuleCfg)
    (checkOld : Bool) (ret : Int) : Prop :=
  ∀ g o : Nat, groupId = g → outerRuleId = o → ValidIds g o →
    (checkOld = true → s.ruleMap g o = ⟨.none, 0⟩) → checkTupleRuleCfg env ruleCfg = 0 →
    Finds env s g ruleCfg 0 ∧ tupleBitmapGetFirstUnused s g (decide (ruleCfg.isIpv6 ≠ 0)) = 0 ∧
      ret = FAIL_REASON_RULE_FULL

/-- What a call of `tuple_try_map_new_rule` can do. -/
theorem tupleTryMapNewRule_cases (ok : RuleMapOk s) {fuel : Nat} {groupId outerRuleId ret : Int}
    {ruleCfg : RuleCfg} {checkOld : Bool} {s' : Conf}
    (h : tupleTryMapNewRule env fuel s groupId outerRuleId ruleCfg checkOld = some (s', ret)) :
    (s' = s ∧ ret < 0 ∧ Refuses env s groupId outerRuleId ruleCfg checkOld ret) ∨
      ∃ g o, groupId = (g : Nat) ∧ outerRuleId = (o : Nat) ∧ ValidIds g o ∧
        (checkOld = true → s.ruleMap g o = ⟨.none, 0⟩) ∧
        checkTupleRuleCfg env ruleCfg = 0 ∧ TryMap env s g o ruleCfg s' ret := by
  have refused : ∀ r : Int, r < 0 → some (s, r) = some (s', ret) → s' = s ∧ ret < 0 := by
    intro r hr heq
    cases heq
    exact ⟨rfl, hr⟩
  rcases ids_cases groupId outerRuleId with hg | ho | ⟨g, o, rfl, rfl, hid⟩
  · rw [tupleTryMapNewRule, if_pos hg] at h
    obtain ⟨hsame, hneg⟩ := refused _ (by decide) h
    refine .inl ⟨hsame, hneg, ?_⟩
    rintro g o rfl rfl hid
    exact absurd hg hid.group_ok
  · simp only [tupleTryMapNewRule, if_pos ho] at h
    obtain ⟨hsame, hneg⟩ := refused FAIL_REASON_INVALID_ID (by decide) (by split at h <;> exact h)
    refine .inl ⟨hsame, hneg, ?_⟩
    rintro g o rfl rfl hid
    exact absurd ho hid.outer_ok
  simp only [tupleTryMapNewRule, if_neg hid.group_ok, if_neg hid.outer_ok,
    Int.toNat_natCast] at h
  split at h
  next hold =>
    obtain ⟨hsame, hneg⟩ := refused _ (by decide) h
    refine .inl ⟨hsame, hneg, fun g' o' hg' ho' _ hfree => ?_⟩
    obtain rfl := Int.ofNat.inj hg'
    obtain rfl := Int.ofNat.inj ho'
    have htype := hold.2
    rw [aclGetRuleMapType, if_neg hid.group_ok, if_neg hid.outer_ok, Int.toNat_natCast,
      Int.toNat_natCast, hfree hold.1] at htype
    exact absurd htype (by decide)
  next hold =>
  split at h
  next hcheck =>
    obtain ⟨hsame, hneg⟩ := refused _ (by decide) h
    exact .inl ⟨hsame, hneg, fun _ _ _ _ _ _ hok => absurd hok hcheck⟩
  next hcheck =>
  have hcheck : checkTupleRuleCfg env ruleCfg = 0 := not_not.mp hcheck
  have hfree : checkOld = true → s.ruleMap g o = ⟨.none, 0⟩ := by
    intro hco
    rcases ok.cases g o with hmap | ⟨f, a, hmap⟩
    · exact hmap
    · refine absurd ⟨hco, ?_⟩ hold
      simp only [aclGetRuleMapType, if_neg hid.group_ok, if_neg hid.outer_ok, Int.toNat_natCast,
        hmap]
      cases f <;> decide
  obtain ⟨a, hfind, heq⟩ := Option.map_eq_some_iff.mp h
  have hfinds : Finds env s g ruleCfg a := ⟨fuel, hfind⟩
  by_cases ha : a = 0
  · -- nothing found: a free inner rule is taken
    subst ha
    rw [if_pos rfl] at heq
    split at heq
    next hfull =>
      obtain ⟨hsame, hneg⟩ := refused FAIL_REASON_RULE_FULL (by decide) (congrArg some heq)
      refine .inl ⟨hsame, hneg, fun g' _ hg' _ _ _ _ => ?_⟩
      obtain rfl := Int.ofNat.inj hg'
      exact ⟨hfinds, hfull, (Prod.mk.inj heq).2.symm⟩
    next hunused =>
      have hle := (tupleBitmapGetFirstUnused_spec hunused).1
      generalize hb : tupleBitmapGetFirstUnused s g (decide (ruleCfg.isIpv6 ≠ 0)) = b at *
      have hset : setTupleRuleCfg env s g b ruleCfg (decide (ruleCfg.isIpv6 ≠ 0)) =
          (setCfg env s g ruleCfg b, 0) := by
        have hinner : ¬ (b = 0 ∨ b > tupleBitmapGetTotalCnt (decide (ruleCfg.isIpv6 ≠ 0))) := by
          omega
        have hfamily : ¬ decide (ruleCfg.isIpv6 ≠ 0) ≠ decide (ruleCfg.isIpv6 ≠ 0) :=
          not_not.mpr rfl
        simp only [setTupleRuleCfg, if_neg hid.group_ok, if_neg hinner, if_neg hfamily,
          Int.toNat_natCast, copyTupleCfg_of_check hcheck]
        rfl
      simp only [hset, ne_eq, not_true_eq_false, if_false] at heq
      have ok' : RuleMapOk (setCfg env s g ruleCfg b) := ⟨ok.none_zero, ok.inner⟩
      obtain ⟨s₂, hunmap, hnew⟩ := mapNewRule_cases env hid ok' checkOld hfree
        (decide (ruleCfg.isIpv6 ≠ 0)) b
      have heq := (hnew.symm.trans heq)
      cases heq
      exact .inr ⟨g, o, rfl, rfl, hid, hfree, hcheck, .created hfinds hb hunused hunmap rfl⟩
  · rw [if_neg ha] at heq
    split at heq
    next hdup =>
      refine .inr ⟨g, o, rfl, rfl, hid, hfree, hcheck, ?_⟩
      split at heq
      next hsame =>
        cases heq
        exact .found hfinds ha rfl hdup (if_pos (by exact_mod_cast hsame)).symm
      next hsame =>
        cases heq
        exact .found hfinds ha rfl hdup (if_neg (by exact_mod_cast hsame)).symm
    next hdup =>
      obtain ⟨s₂, hunmap, hnew⟩ := mapNewRule_cases env hid ok checkOld hfree
        (decide (ruleCfg.isIpv6 ≠ 0)) a
      have heq := (hnew.symm.trans heq)
      cases heq
      exact .inr ⟨g, o, rfl, rfl, hid, hfree, hcheck,
        .reused hfinds ha (by omega) hunmap rfl⟩

end Tapplet.Acl
