import Tapplet.Acl.Mapping

/-!
# Creating rules and taking them back

A sequence of rules that are created one after the other with `check_old`, and then deleted
in the same order, leaves every outer rule as it was: its entry of the map and the
configuration of the inner rule that the entry names. `Extends s t rules` is the state in
between, in which exactly `rules` have been added to the store `s`.

The hash chains take no part in this. Deleting may break them, but neither the map nor a
configuration in use is read from them.
-/

namespace Tapplet.Acl

open Transition

/-- A rule that is to be created. -/
structure Rule where
  groupId : Nat
  outerRuleId : Nat
  cfg : RuleCfg

/-- The call that creates a rule, with the value that stands for success. -/
def Rule.call (r : Rule) : Call × Int := (.tryMap r.groupId r.outerRuleId r.cfg true, 0)

/-- The store maps the rule to an inner rule with its configuration. -/
def Holds (env : Env) (s : Conf) (r : Rule) : Prop :=
  let f := decide (r.cfg.isIpv6 ≠ 0)
  ∃ a, s.ruleMap r.groupId r.outerRuleId = ⟨.ofFamily f, a⟩ ∧
    ((s.tuple r.groupId f).ruleCfg a).bytes = (tupleCfg env r.cfg).bytes

/-- The outer rule `o` of the group `g` has the same entry and the same configuration. -/
def SameRule (s t : Conf) (g o : Nat) : Prop :=
  t.ruleMap g o = s.ruleMap g o ∧
    ∀ f a, s.ruleMap g o = ⟨.ofFamily f, a⟩ → (t.tuple g f).ruleCfg a = (s.tuple g f).ruleCfg a

/-- `t` is `s` with `rules` added. -/
structure Extends (env : Env) (s t : Conf) (rules : List Rule) : Prop where
  inv : MapInv t
  added : ∀ r ∈ rules, ValidIds r.groupId r.outerRuleId ∧
    s.ruleMap r.groupId r.outerRuleId = ⟨.none, 0⟩ ∧ Holds env t r
  distinct : (rules.map fun r => (r.groupId, r.outerRuleId)).Nodup
  others : ∀ g o, (∀ r ∈ rules, ¬(g = r.groupId ∧ o = r.outerRuleId)) → SameRule s t g o

/-- The rules are deleted, first to last. -/
def deleteAll (env : Env) (s : Conf) (rules : List Rule) : Conf :=
  rules.foldl (fun s r => (aclDeleteOldMap env s r.groupId r.outerRuleId false).1) s

variable {env : Env} {s t u : Conf} {r : Rule} {rules : List Rule} {ret : Int} {g o : Nat}

/-! ## Results do not depend on the fuel -/

theorem aclHashFindLoop_mono {node : Nat → HashNode} {cmp : Nat → Bool} {fuel p a : Nat}
    (h : aclHashFindLoop node cmp fuel p = some a) (more : Nat) :
    aclHashFindLoop node cmp (fuel + more) p = some a := by
  induction fuel generalizing p with
  | zero =>
      cases p with
      | zero => cases more <;> simpa [aclHashFindLoop] using h
      | succ p => simp [aclHashFindLoop] at h
  | succ fuel ih =>
      cases p with
      | zero => simpa [aclHashFindLoop, Nat.succ_add] using h
      | succ p =>
          rw [Nat.succ_add]
          simp only [aclHashFindLoop] at h ⊢
          split at h
          next hcmp => rw [if_pos hcmp, h]
          next hcmp => rw [if_neg hcmp, ih h]

theorem tupleHashFindActual_mono {ruleCfg : RuleCfg} {fuel a : Nat}
    (h : tupleHashFindActual env fuel s g ruleCfg = some a) (more : Nat) :
    tupleHashFindActual env (fuel + more) s g ruleCfg = some a := by
  simp only [tupleHashFindActual, aclHashFind] at h ⊢
  split at h
  next hparse => rw [if_pos hparse, h]
  next hparse =>
    rw [if_neg hparse]
    split at h
    next hempty => rw [if_pos hempty, h]
    next hempty => rw [if_neg hempty, aclHashFindLoop_mono h more]

theorem tupleTryMapNewRule_mono {groupId outerRuleId : Int} {ruleCfg : RuleCfg} {checkOld : Bool}
    {fuel : Nat} {x : Conf × Int}
    (h : tupleTryMapNewRule env fuel s groupId outerRuleId ruleCfg checkOld = some x)
    (more : Nat) :
    tupleTryMapNewRule env (fuel + more) s groupId outerRuleId ruleCfg checkOld = some x := by
  rw [tupleTryMapNewRule] at h ⊢
  split at h
  next hg => rw [if_pos hg, h]
  next hg =>
  rw [if_neg hg]
  split at h
  next ho => rw [if_pos ho, h]
  next ho =>
  rw [if_neg ho]
  split at h
  next hold => rw [if_pos hold, h]
  next hold =>
  rw [if_neg hold]
  split at h
  next hcheck => rw [if_pos hcheck, h]
  next hcheck =>
  rw [if_neg hcheck]
  obtain ⟨a, hfind, rfl⟩ := Option.map_eq_some_iff.mp h
  exact Option.map_eq_some_iff.mpr ⟨a, tupleHashFindActual_mono hfind more, rfl⟩

/-- A call has one result. -/
theorem tryMap_unique {groupId outerRuleId : Int} {ruleCfg : RuleCfg} {checkOld : Bool}
    {ret' : Int} (h : Step env s (.tryMap groupId outerRuleId ruleCfg checkOld, ret) t)
    (h' : Step env s (.tryMap groupId outerRuleId ruleCfg checkOld, ret') u) :
    t = u ∧ ret = ret' := by
  obtain ⟨fuel, hrun⟩ := h
  obtain ⟨fuel', hrun'⟩ := h'
  have hmore := tupleTryMapNewRule_mono hrun fuel'
  have hmore' := tupleTryMapNewRule_mono hrun' fuel
  rw [Nat.add_comm, hmore] at hmore'
  cases hmore'
  exact ⟨rfl, rfl⟩

/-! ## One call -/

theorem SameRule.refl (s : Conf) (g o : Nat) : SameRule s s g o := ⟨rfl, fun _ _ _ => rfl⟩

theorem Extends.refl (inv : MapInv s) : Extends env s s [] :=
  ⟨inv, by simp, List.nodup_nil, fun g o _ => .refl s g o⟩

/-- A call that is refused leaves the store as it is. -/
theorem refused {groupId outerRuleId : Int} {ruleCfg : RuleCfg} (inv : MapInv s)
    (h : Step env s (.tryMap groupId outerRuleId ruleCfg true, ret) t) (hret : ret ≠ 0) :
    t = s := by
  obtain ⟨fuel, hrun⟩ := h
  obtain ⟨rfl, -⟩ | ⟨g, o, -, -, -, -, -, htry⟩ :=
    tupleTryMapNewRule_cases inv.ruleMapOk hrun
  · rfl
  · cases htry with
    | found => rfl
    | reused _ _ _ _ hzero => exact absurd hzero hret
    | created _ _ _ _ hzero => exact absurd hzero hret

theorem Unmap.eq_of_free (h : Unmap env s g o t) (hfree : s.ruleMap g o = ⟨.none, 0⟩) :
    t = s := by
  cases h with
  | free => rfl
  | mapped hmap => exact absurd (RuleMap.mk.inj (hmap.symm.trans hfree)).1 (ofFamily_ne_none _)

theorem linkRule_ruleCfg (f : Bool) (a g' : Nat) (f' : Bool) :
    ((linkRule env s g o f a).tuple g' f').ruleCfg = (s.tuple g' f').ruleCfg := by
  rw [linkRule_tuple]
  split
  next hsame =>
    obtain ⟨rfl, rfl⟩ := hsame
    rfl
  next => rfl

theorem unmapRule_ruleCfg (f : Bool) (a g' : Nat) (f' : Bool) :
    ((unmapRule env s g o f a).tuple g' f').ruleCfg = (s.tuple g' f').ruleCfg := by
  rw [unmapRule_tuple]
  split
  next hsame =>
    obtain ⟨rfl, rfl⟩ := hsame
    rfl
  next => rfl

/-- What a call that creates a rule does to the store. -/
theorem created (inv : MapInv s) (h : Step env s r.call t) :
    ValidIds r.groupId r.outerRuleId ∧ s.ruleMap r.groupId r.outerRuleId = ⟨.none, 0⟩ ∧
      Holds env t r ∧
      ∀ g o, ¬(g = r.groupId ∧ o = r.outerRuleId) → SameRule s t g o := by
  obtain ⟨fuel, hrun⟩ := h
  obtain ⟨-, hneg, -⟩ | ⟨g, o, hg, ho, hid, hfree, hcheck, htry⟩ :=
    tupleTryMapNewRule_cases inv.ruleMapOk hrun
  · exact absurd hneg (Int.lt_irrefl 0)
  obtain rfl : r.groupId = g := Int.ofNat.inj hg
  obtain rfl : r.outerRuleId = o := Int.ofNat.inj ho
  have hfree := hfree rfl
  have link {s' : Conf} (a : Nat) (hmap : ∀ g o, s'.ruleMap g o = s.ruleMap g o)
      (hcfg : ((s'.tuple r.groupId (decide (r.cfg.isIpv6 ≠ 0))).ruleCfg a).bytes =
        (tupleCfg env r.cfg).bytes)
      (hsame : ∀ g o f a, s.ruleMap g o = ⟨.ofFamily f, a⟩ →
        (s'.tuple g f).ruleCfg a = (s.tuple g f).ruleCfg a) :
      Holds env (linkRule env s' r.groupId r.outerRuleId (decide (r.cfg.isIpv6 ≠ 0)) a) r ∧
        ∀ g o, ¬(g = r.groupId ∧ o = r.outerRuleId) → SameRule s
          (linkRule env s' r.groupId r.outerRuleId (decide (r.cfg.isIpv6 ≠ 0)) a) g o := by
    refine ⟨⟨a, ?_, ?_⟩, fun g o hother => ⟨?_, fun f b hb => ?_⟩⟩
    · rw [linkRule_ruleMap, if_pos ⟨rfl, rfl⟩]
    · rw [linkRule_ruleCfg]
      exact hcfg
    · rw [linkRule_ruleMap, if_neg hother, hmap]
    · rw [linkRule_ruleCfg]
      exact hsame g o f b hb
  cases htry with
  | @found a o' _ hfind hinner houter hpos hret =>
      -- the inner rule would be mapped to the outer rule, which is free
      by_cases hsame : o' = r.outerRuleId
      · simp only [tupleHashFindOuter, if_pos hinner] at houter
        split at houter
        next hvalid =>
          have hback := inv.backward _ _ _ hvalid
          rw [houter, hsame, hfree] at hback
          exact absurd (RuleMap.mk.inj hback).1.symm (ofFamily_ne_none _)
        next => omega
      · rw [if_neg hsame, Rule.call] at hret
        omega
  | @reused a s' _ hfind hinner houter hunmap _ =>
      obtain rfl := hunmap.eq_of_free hfree
      exact ⟨hid, hfree, link a (fun _ _ => rfl) (inv.finds_le hcheck hfind hinner).2.symm
        fun _ _ _ _ _ => rfl⟩
  | @created a s' _ hfind hunused hinner hunmap _ =>
      obtain rfl := hunmap.eq_of_free hfree
      obtain ⟨-, hclear⟩ := tupleBitmapGetFirstUnused_spec (hunused ▸ hinner)
      rw [hunused] at hclear
      refine ⟨hid, hfree, link a (fun _ _ => rfl) ?_ fun g o f b hb => ?_⟩
      · rw [setCfg_tuple, if_pos ⟨rfl, rfl⟩]
        exact congrArg TupleRuleCfg.bytes (Function.update_self ..)
      · -- an inner rule in use is not the first unused one
        rw [setCfg_tuple]
        split
        next hsame =>
          obtain ⟨rfl, rfl⟩ := hsame
          have hne : b ≠ a := by
            rintro rfl
            obtain ⟨-, -, -, hrule⟩ := inv.forward _ _ _ _ hb
            have hused := (inv.bits _ _ _ hinner).mpr (by rw [hrule])
            exact absurd (hused.symm.trans hclear) (by simp)
          exact Function.update_of_ne hne _ _
        next => rfl

/-! ## Many calls -/

theorem SameRule.trans (h : SameRule s t g o) (h' : SameRule t u g o) : SameRule s u g o :=
  ⟨h'.1.trans h.1, fun f a ha => (h'.2 f a (h.1.trans ha)).trans (h.2 f a ha)⟩

/-- A rule that has the same entry and configuration is still held. -/
theorem SameRule.holds (h : SameRule s t r.groupId r.outerRuleId) (hold : Holds env s r) :
    Holds env t r := by
  obtain ⟨a, hmap, hcfg⟩ := hold
  exact ⟨a, h.1.trans hmap, by rw [h.2 _ a hmap, hcfg]⟩

theorem Extends.create (h : Extends env s t rules) (hcall : Step env t r.call u) :
    Extends env s u (rules ++ [r]) := by
  obtain ⟨hid, hfree, hhold, hsame⟩ := created h.inv hcall
  -- the outer rule was free, so it is none of those that were added before
  have hnew : ∀ r' ∈ rules, ¬(r'.groupId = r.groupId ∧ r'.outerRuleId = r.outerRuleId) := by
    rintro r' hr' ⟨hg, ho⟩
    obtain ⟨-, -, a, hmap, -⟩ := h.added r' hr'
    rw [hg, ho, hfree] at hmap
    exact ofFamily_ne_none _ (RuleMap.mk.inj hmap).1.symm
  have hold : s.ruleMap r.groupId r.outerRuleId = ⟨.none, 0⟩ := by
    rw [← (h.others _ _ fun r' hr' hsame => hnew r' hr' ⟨hsame.1.symm, hsame.2.symm⟩).1]
    exact hfree
  refine ⟨h.inv.step hcall, fun r' hr' => ?_, ?_, fun g o hother => ?_⟩
  · obtain hr' | hr' := List.mem_append.mp hr'
    · obtain ⟨hid', hfree', hhold'⟩ := h.added r' hr'
      exact ⟨hid', hfree', (hsame _ _ (hnew r' hr')).holds hhold'⟩
    · obtain rfl := List.mem_singleton.mp hr'
      exact ⟨hid, hold, hhold⟩
  · rw [List.map_append, List.map_singleton, ← List.concat_eq_append]
    refine h.distinct.concat fun hmem => ?_
    obtain ⟨r', hr', heq⟩ := List.mem_map.mp hmem
    exact hnew r' hr' ⟨congrArg Prod.fst heq, congrArg Prod.snd heq⟩
  · exact (h.others g o fun r' hr' => hother r' (List.mem_append_left _ hr')).trans
      (hsame g o (hother r (List.mem_append_right _ (List.mem_singleton_self r))))

/-- The first rule that was added is deleted. -/
theorem Extends.delete (h : Extends env s t (r :: rules)) :
    Extends env s (aclDeleteOldMap env t r.groupId r.outerRuleId false).1 rules := by
  obtain ⟨hid, hfree, a, hmap, -⟩ := h.added r List.mem_cons_self
  rw [aclDeleteOldMap_mapped hid hmap h.inv.ruleMapOk]
  obtain ⟨hnotMem, hdistinct⟩ := List.nodup_cons.mp h.distinct
  have hsame (g o : Nat) (hother : ¬(g = r.groupId ∧ o = r.outerRuleId)) : SameRule t
      (unmapRule env t r.groupId r.outerRuleId (decide (r.cfg.isIpv6 ≠ 0)) a) g o :=
    ⟨by rw [unmapRule_ruleMap, if_neg hother], fun f b _ => by rw [unmapRule_ruleCfg]⟩
  refine ⟨h.inv.unmapRule hmap, fun r' hr' => ?_, hdistinct, fun g o hother => ?_⟩
  · obtain ⟨hid', hfree', hhold'⟩ := h.added r' (List.mem_cons_of_mem _ hr')
    refine ⟨hid', hfree', (hsame _ _ ?_).holds hhold'⟩
    rintro ⟨hg, ho⟩
    exact hnotMem (List.mem_map.mpr ⟨r', hr', Prod.ext hg ho⟩)
  · by_cases hr : g = r.groupId ∧ o = r.outerRuleId
    · obtain ⟨rfl, rfl⟩ := hr
      refine ⟨?_, fun f b hb => ?_⟩
      · rw [unmapRule_ruleMap, if_pos ⟨rfl, rfl⟩, hfree]
      · rw [hfree] at hb
        exact absurd (RuleMap.mk.inj hb).1.symm (ofFamily_ne_none f)
    · refine (h.others g o fun r' hr' => ?_).trans (hsame g o hr)
      obtain rfl | hr' := List.mem_cons.mp hr'
      · exact hr
      · exact hother r' hr'

/-- Rules that are created and deleted again leave every outer rule as it was. -/
theorem Extends.deleteAll (h : Extends env s t rules) (g o : Nat) :
    SameRule s (deleteAll env t rules) g o := by
  induction rules generalizing t with
  | nil => exact h.others g o (by simp)
  | cons r rules ih => exact ih h.delete

theorem Extends.run (h : Extends env s t rules) {more : List Rule}
    (hrun : Run (Step env) t (more.map Rule.call) u) : Extends env s u (rules ++ more) := by
  induction more generalizing t rules with
  | nil =>
      obtain rfl := Run.nil_iff.mp hrun
      rwa [List.append_nil]
  | cons r more ih =>
      obtain ⟨v, hcall, hrest⟩ := Run.cons_iff.mp hrun
      rw [List.append_cons]
      exact ih (h.create hcall) hrest

end Tapplet.Acl
