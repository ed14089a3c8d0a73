import Tapplet.Acl.Chains

/-!
# Duplicate detection

While the hash chains are right, a search for a configuration finds the rule that holds
it, so no configuration is ever mapped twice. The release of a rule breaks its chain
unless the rule is alone in it. The guarantee is therefore for the runs in which every
released rule is alone, and a run with one other release shows how it fails. A rejection
is justified in every run.
-/

namespace Tapplet.Acl

open Transition

variable {env : Env} {s s' : Conf} {g o a : Nat} {f : Bool} {ruleCfg : RuleCfg}

/-- A call of `tuple_try_map_new_rule` goes on to change the map: it finds no rule with the
configuration and there is room for one, or it finds one that is not in use. -/
def GoesOn (env : Env) (s : Conf) (g : Nat) (ruleCfg : RuleCfg) : Prop :=
  ∃ b, Finds env s g ruleCfg b ∧
    if b = 0 then tupleBitmapGetFirstUnused s g (decide (ruleCfg.isIpv6 ≠ 0)) ≠ 0
    else tupleHashFindOuter s g b (decide (ruleCfg.isIpv6 ≠ 0)) = 0

/-- The call releases inner rule `a` of family `f` in group `g`. -/
inductive Releases (env : Env) (s : Conf) : Call → Nat → Bool → Nat → Prop where
  | replace {g o : Nat} {f a ruleCfg} (hid : ValidIds g o) (hmap : s.ruleMap g o = ⟨.ofFamily f, a⟩)
      (hcheck : checkTupleRuleCfg env ruleCfg = 0) (hgo : GoesOn env s g ruleCfg) :
      Releases env s (.tryMap g o ruleCfg false) g f a
  | delete {g o : Nat} {f a noCheck} (hid : ValidIds g o)
      (hmap : s.ruleMap g o = ⟨.ofFamily f, a⟩) :
      Releases env s (.delete g o noCheck) g f a

/-- A rule that the call releases has no neighbour in its chain. -/
def ReleasesAlone (env : Env) (s : Conf) (e : Call × Int) : Prop :=
  ∀ g f a, Releases env s e.1 g f a → (s.tuple g f).Alone a

/-- The chains are right and no two rules in use hold the same configuration. -/
structure DupInv (env : Env) (s : Conf) : Prop where
  map : MapInv s
  chains : ∀ g f, ∃ chain, ChainsOk env f (s.tuple g f) chain
  distinct : ∀ g f a b, (s.tuple g f).InUse a → (s.tuple g f).InUse b →
    ((s.tuple g f).ruleCfg a).bytes = ((s.tuple g f).ruleCfg b).bytes → a = b

namespace DupInv

theorem empty (flag times : Int) : DupInv env (Conf.empty flag times) := by
  have hnone : ∀ g f a, ¬ ((Conf.empty flag times).tuple g f).InUse a :=
    fun _ _ _ h => Bool.false_ne_true h
  exact ⟨.empty flag times,
    fun g f => ⟨fun _ => [], fun _ => rfl, fun _ => .nil, fun _ h => absurd rfl h,
      fun _ _ h => by simp at h, fun a h => absurd h (hnone g f a)⟩,
    fun g f a _ h => absurd h (hnone g f a)⟩

/-- A rule that is not in use may be given any configuration. -/
theorem setCfg (inv : DupInv env s) {b : Nat}
    (hfree : ¬ (s.tuple g (decide (ruleCfg.isIpv6 ≠ 0))).InUse b) :
    DupInv env (setCfg env s g ruleCfg b) := by
  have htable : ∀ g' f', ((Acl.setCfg env s g ruleCfg b).tuple g' f').hash = (s.tuple g' f').hash ∧
      (∀ x, ((Acl.setCfg env s g ruleCfg b).tuple g' f').InUse x ↔ (s.tuple g' f').InUse x) ∧
      ∀ x, (s.tuple g' f').InUse x →
        ((Acl.setCfg env s g ruleCfg b).tuple g' f').ruleCfg x = (s.tuple g' f').ruleCfg x := by
    intro g' f'
    rw [setCfg_tuple]
    refine ⟨rfl, fun _ => Iff.rfl, fun x hx => ?_⟩
    dsimp only
    split
    next hsame =>
      obtain ⟨rfl, rfl⟩ := hsame
      refine Function.update_of_ne ?_ _ _
      rintro rfl
      exact hfree hx
    next => rfl
  refine ⟨inv.map.setCfg ruleCfg b, fun g' f' => ?_, fun g' f' x y hx hy hbytes => ?_⟩
  · obtain ⟨hhash, huse, hcfg⟩ := htable g' f'
    obtain ⟨chain, ok⟩ := inv.chains g' f'
    have hindex : ∀ x, (s.tuple g' f').InUse x →
        ruleIndex env f' ((Acl.setCfg env s g ruleCfg b).tuple g' f') x =
          ruleIndex env f' (s.tuple g' f') x := fun x hx => by rw [ruleIndex, hcfg x hx]; rfl
    refine ⟨chain, ?_, ok.nodup, ?_, fun i x hx => ?_, fun x hx => ?_⟩
    · rw [hhash]
      exact ok.linked
    · rw [hhash]
      exact ok.counted
    · obtain ⟨hin, hi⟩ := ok.sound i x hx
      exact ⟨(huse x).mpr hin, (hindex x hin).trans hi⟩
    · have hin := (huse x).mp hx
      rw [hindex x hin]
      exact ok.complete x hin
  · obtain ⟨-, huse, hcfg⟩ := htable g' f'
    have hx := (huse x).mp hx
    have hy := (huse y).mp hy
    rw [hcfg x hx, hcfg y hy] at hbytes
    exact inv.distinct g' f' x y hx hy hbytes

/-- A release leaves the configurations, and frees inner rules only. -/
theorem of_unmap (h : Unmap env s g o s') (g' : Nat) (f' : Bool) :
    (s'.tuple g' f').ruleCfg = (s.tuple g' f').ruleCfg ∧
      ∀ x, (s'.tuple g' f').InUse x → (s.tuple g' f').InUse x := by
  cases h with
  | free => exact ⟨rfl, fun _ hx => hx⟩
  | @mapped f a hmap =>
      rw [unmapRule_tuple]
      split
      next hsame =>
        obtain ⟨rfl, rfl⟩ := hsame
        exact ⟨rfl, fun x hx => (unmapped_inUse.mp hx).2⟩
      next => exact ⟨rfl, fun _ hx => hx⟩

/-- Taking an outer rule off an inner rule that is alone in its chain. -/
theorem unmap (inv : DupInv env s) (h : Unmap env s g o s')
    (halone : ∀ f a, s.ruleMap g o = ⟨.ofFamily f, a⟩ → (s.tuple g f).Alone a) :
    DupInv env s' := by
  refine ⟨(inv.map.unmap h).1, fun g' f' => ?_, fun g' f' x y hx hy hbytes => ?_⟩
  · cases h with
    | free => exact inv.chains g' f'
    | @mapped f a hmap =>
        obtain ⟨chain, ok⟩ := inv.chains g' f'
        rw [unmapRule_tuple]
        split
        next hsame =>
          obtain ⟨rfl, rfl⟩ := hsame
          have hrule := (inv.map.forward _ _ _ _ hmap).2.2.2
          exact ⟨_, ok.unmapped_of_alone (congrArg MapRule.outerIdValid hrule) (halone _ _ hmap)⟩
        next => exact ⟨chain, ok⟩
  · obtain ⟨hcfg, hin⟩ := of_unmap h g' f'
    rw [hcfg] at hbytes
    exact inv.distinct g' f' x y (hin x hx) (hin y hy) hbytes

/-- Putting an outer rule on a free inner rule whose configuration no rule in use holds. -/
theorem linkRule (inv : DupInv env s) (hid : ValidIds g o) (ho : s.ruleMap g o = ⟨.none, 0⟩)
    (ha : a ≠ 0) (hale : a ≤ tupleBitmapGetTotalCnt f)
    (hfree : ((s.tuple g f).mapRule a).outerIdValid = false)
    (hnew : ∀ x, (s.tuple g f).InUse x →
      ((s.tuple g f).ruleCfg x).bytes ≠ ((s.tuple g f).ruleCfg a).bytes) :
    DupInv env (linkRule env s g o f a) := by
  refine ⟨inv.map.linkRule hid ho ha hale hfree, fun g' f' => ?_,
    fun g' f' x y hx hy hbytes => ?_⟩
  · obtain ⟨chain, ok⟩ := inv.chains g' f'
    rw [linkRule_tuple]
    split
    next hsame =>
      obtain ⟨rfl, rfl⟩ := hsame
      refine ⟨_, ok.linked_table ha ?_⟩
      rw [TupleTable.InUse, hfree]
      exact Bool.false_ne_true
    next => exact ⟨chain, ok⟩
  · rw [linkRule_tuple] at hx hy hbytes
    by_cases hsame : g' = g ∧ f' = f
    · rw [if_pos hsame] at hx hy hbytes
      obtain ⟨rfl, rfl⟩ := hsame
      have hold : ∀ z, ((s.tuple g' f').linked env f' g' o a).InUse z → z ≠ a →
          (s.tuple g' f').InUse z := by
        intro z hz hza
        simpa only [TupleTable.InUse, TupleTable.linked, Function.update_of_ne hza] using hz
      by_cases hxa : x = a <;> by_cases hya : y = a
      · rw [hxa, hya]
      · subst hxa
        exact absurd hbytes.symm (hnew y (hold y hy hya))
      · subst hya
        exact absurd hbytes (hnew x (hold x hx hxa))
      · exact inv.distinct g' f' x y (hold x hx hxa) (hold y hy hya) hbytes
    · rw [if_neg hsame] at hx hy hbytes
      exact inv.distinct g' f' x y hx hy hbytes

/-- The search answers 0 when no rule in use holds the configuration, and else a rule in
use. -/
theorem finds (inv : DupInv env s) (hcheck : checkTupleRuleCfg env ruleCfg = 0) {r : Nat}
    (hfind : Finds env s g ruleCfg r) :
    (r = 0 ∧ ∀ x, (s.tuple g (decide (ruleCfg.isIpv6 ≠ 0))).InUse x →
      ((s.tuple g (decide (ruleCfg.isIpv6 ≠ 0))).ruleCfg x).bytes ≠ (tupleCfg env ruleCfg).bytes) ∨
      (r ≠ 0 ∧ (s.tuple g (decide (ruleCfg.isIpv6 ≠ 0))).InUse r) := by
  obtain ⟨fuel, hfind⟩ := hfind
  obtain ⟨chain, ok⟩ := inv.chains g (decide (ruleCfg.isIpv6 ≠ 0))
  simp only [tupleHashFindActual, copyTupleCfg_of_check hcheck, ne_eq, not_true_eq_false,
    if_false] at hfind
  exact ok.find hfind

theorem tryMap (inv : DupInv env s) {ret : Int} (hid : ValidIds g o)
    (hcheck : checkTupleRuleCfg env ruleCfg = 0) (h : TryMap env s g o ruleCfg s' ret)
    (halone : GoesOn env s g ruleCfg →
      ∀ f a, s.ruleMap g o = ⟨.ofFamily f, a⟩ → (s.tuple g f).Alone a) : DupInv env s' := by
  cases h with
  | found => exact inv
  | reused hfind hinner houter _ _ =>
      -- the search only finds rules in use
      rcases inv.finds hcheck hfind with ⟨hzero, -⟩ | ⟨-, hin⟩
      · exact absurd hzero hinner
      · have hfree := inv.map.outer_zero hinner houter
        rw [TupleTable.InUse, hfree] at hin
        exact absurd hin Bool.false_ne_true
  | @created b s₂ _ hfind hunused hinner hunmap =>
      have hgo : GoesOn env s g ruleCfg := ⟨0, hfind, by rwa [if_pos rfl, hunused]⟩
      obtain ⟨hle, hclear⟩ := tupleBitmapGetFirstUnused_spec (hunused.symm ▸ hinner)
      rw [hunused] at hle hclear
      have hfree : ¬ (s.tuple g (decide (ruleCfg.isIpv6 ≠ 0))).InUse b := by
        rw [TupleTable.InUse, ← inv.map.bits _ _ _ hinner, hclear]
        exact Bool.false_ne_true
      have inv₁ := inv.setCfg (g := g) hfree
      have inv₂ := inv₁.unmap hunmap fun f a hmap => by
        rw [setCfg_tuple]
        exact halone hgo f a hmap
      obtain ⟨-, ho, hstill⟩ := inv₁.map.unmap hunmap
      obtain ⟨hcfg, hin⟩ := of_unmap hunmap g (decide (ruleCfg.isIpv6 ≠ 0))
      rw [setCfg_tuple, if_pos ⟨rfl, rfl⟩] at hcfg
      refine inv₂.linkRule hid ho hinner hle (hstill _ _ ?_) fun x hx => ?_
      · rw [setCfg_tuple]
        exact (Bool.not_eq_true _).mp hfree
      · have hxs : (s.tuple g (decide (ruleCfg.isIpv6 ≠ 0))).InUse x := by
          have hx₁ := hin x hx
          rwa [setCfg_tuple] at hx₁
        have hxb : x ≠ b := by
          rintro rfl
          exact hfree hxs
        simp only [hcfg, Function.update_self, Function.update_of_ne hxb]
        rcases inv.finds hcheck hfind with ⟨-, hnone⟩ | ⟨hne, -⟩
        · exact hnone x hxs
        · exact absurd rfl hne

/-- A call that only releases rules that are alone in their chains keeps the chains right
and the configurations distinct. -/
theorem step {e : Call × Int} (inv : DupInv env s) (halone : ReleasesAlone env s e)
    (h : Step env s e s') : DupInv env s' := by
  obtain ⟨fuel, hrun⟩ := h
  obtain ⟨call, ret⟩ := e
  cases call with
  | tryMap groupId outerRuleId ruleCfg checkOld =>
      rcases tupleTryMapNewRule_cases inv.map.ruleMapOk hrun with
        ⟨rfl, -⟩ | ⟨g, o, rfl, rfl, hid, hold, hcheck, htry⟩
      · exact inv
      · refine inv.tryMap hid hcheck htry fun hgo f a hmap => ?_
        cases checkOld with
        | true =>
            rw [hold rfl] at hmap
            exact absurd (RuleMap.mk.inj hmap).1.symm (ofFamily_ne_none f)
        | false => exact halone g f a (.replace hid hmap hcheck hgo)
  | delete groupId outerRuleId noCheck =>
      have hres : (aclDeleteOldMap env s groupId outerRuleId noCheck).1 = s' :=
        congrArg Prod.fst (Option.some.inj hrun)
      rcases aclDeleteOldMap_cases inv.map.ruleMapOk groupId outerRuleId noCheck with
        hsame | ⟨g, o, f, a, rfl, rfl, hid, hmap, hunmap⟩
      · rw [← hres, hsame]
        exact inv
      · rw [← hres, hunmap]
        refine inv.unmap (.mapped hmap) fun f' a' hmap' => ?_
        exact halone g f' a' (.delete hid hmap')
  | reset =>
      have hres : (resetConfig s).1 = s' := congrArg Prod.fst (Option.some.inj hrun)
      rw [← hres, resetConfig]
      split
      · exact inv
      · exact .empty _ _

end DupInv

/-- In every run a new configuration is only rejected as a duplicate of another mapped
rule of its family that holds it. -/
theorem duplicate_really_held (inv : MapInv s) {groupId outerRuleId ret : Int} {checkOld : Bool}
    (h : Step env s (.tryMap groupId outerRuleId ruleCfg checkOld, ret) s') (hdup : 0 < ret) :
    ∃ g o o' a, groupId = (g : Nat) ∧ outerRuleId = (o : Nat) ∧ ret = (o' : Nat) ∧ o' ≠ o ∧
      s.ruleMap g o' = ⟨.ofFamily (decide (ruleCfg.isIpv6 ≠ 0)), a⟩ ∧
      ((s.tuple g (decide (ruleCfg.isIpv6 ≠ 0))).ruleCfg a).bytes =
        (tupleCfg env ruleCfg).bytes := by
  obtain ⟨fuel, hrun⟩ := h
  rcases tupleTryMapNewRule_cases inv.ruleMapOk hrun with
    ⟨-, hneg, -⟩ | ⟨g, o, hg, ho, -, -, hcheck, htry⟩
  · omega
  cases htry with
  | @found a o' _ hfind hinner houter hpos hret =>
      by_cases hsame : o' = o
      · rw [if_pos hsame] at hret
        omega
      · rw [if_neg hsame] at hret
        refine ⟨g, o, o', a, hg, ho, hret, hsame, ?_, (inv.finds_le hcheck hfind hinner).2.symm⟩
        simp only [tupleHashFindOuter, if_pos hinner] at houter
        split at houter
        next hvalid => exact houter ▸ inv.backward g _ a hvalid
        next => omega
  | reused _ _ _ _ hret => omega
  | created _ _ _ _ hret => omega

/-- Duplicate detection is complete and sound in every run from the cleared store in which
each released rule is alone in its chain. -/
theorem duplicates_detected {flag times : Int} {es : List (Call × Int)}
    (run : Run (Along (ReleasesAlone env) (Step env)) (Conf.empty flag times) es s) :
    (∀ g f o o' a a', s.ruleMap g o = ⟨.ofFamily f, a⟩ → s.ruleMap g o' = ⟨.ofFamily f, a'⟩ →
      ((s.tuple g f).ruleCfg a).bytes = ((s.tuple g f).ruleCfg a').bytes → o = o') ∧
    ∀ groupId outerRuleId ret ruleCfg checkOld s',
      Step env s (.tryMap groupId outerRuleId ruleCfg checkOld, ret) s' → 0 < ret →
      ∃ g o o' a, groupId = (g : Nat) ∧ outerRuleId = (o : Nat) ∧ ret = (o' : Nat) ∧ o' ≠ o ∧
        s.ruleMap g o' = ⟨.ofFamily (decide (ruleCfg.isIpv6 ≠ 0)), a⟩ ∧
        ((s.tuple g (decide (ruleCfg.isIpv6 ≠ 0))).ruleCfg a).bytes =
          (tupleCfg env ruleCfg).bytes := by
  have inv : DupInv env s :=
    run.invariant (.empty flag times) fun _ _ _ inv h => inv.step h.1 h.2
  refine ⟨fun g f o o' a a' hmap hmap' hbytes => ?_,
    fun groupId outerRuleId ret ruleCfg checkOld s' h hdup => duplicate_really_held inv.map h hdup⟩
  have hrule := (inv.map.forward g o f a hmap).2.2.2
  have hrule' := (inv.map.forward g o' f a' hmap').2.2.2
  have hsame : a = a' := inv.distinct g f a a' (congrArg MapRule.outerIdValid hrule)
    (congrArg MapRule.outerIdValid hrule') hbytes
  subst hsame
  exact (MapRule.mk.inj (hrule.symm.trans hrule')).2.2

/-! ## Two runs -/

theorem releasesAlone_checkOld {e : Call × Int} (h : e.1 = .tryMap g o ruleCfg true) :
    ReleasesAlone env s e := by
  intro g' f' a' hrel
  rw [h] at hrel
  cases hrel

theorem releasesAlone_delete {noCheck : Bool} {ret : Int}
    (hmap : s.ruleMap g o = ⟨.ofFamily f, a⟩) (halone : (s.tuple g f).Alone a) :
    ReleasesAlone env s (.delete g o noCheck, ret) := by
  intro g' f' a' hrel
  generalize hcall : ((Call.delete g o noCheck, ret) : Call × Int).1 = call at hrel
  cases hrel with
  | replace => cases hcall
  | delete _ hmap' =>
      cases hcall
      obtain ⟨hf, rfl⟩ := RuleMap.mk.inj (hmap.symm.trans hmap')
      obtain rfl := ofFamily_inj hf
      exact halone

/-- The stores in which `ruleA` is mapped, released and mapped again under another id. -/
def mappedStore : Conf := Call.after sampleEnv 2 (Conf.empty 0 0) (.tryMap 1 1 ruleA true)
def releasedStore : Conf := Call.after sampleEnv 2 mappedStore (.delete 1 1 false)
def remappedStore : Conf := Call.after sampleEnv 2 releasedStore (.tryMap 1 2 ruleA true)

/-- Asking for `ruleA` once more is answered with the id that holds it. -/
theorem duplicates_detected_remapped :
    ∃ g o o' a, (1 : Int) = (g : Nat) ∧ (3 : Int) = (o : Nat) ∧ (2 : Int) = (o' : Nat) ∧ o' ≠ o ∧
      remappedStore.ruleMap g o' = ⟨.ofFamily false, a⟩ ∧
      ((remappedStore.tuple g false).ruleCfg a).bytes = (tupleCfg sampleEnv ruleA).bytes := by
  have run : Run (Along (ReleasesAlone sampleEnv) (Step sampleEnv)) (Conf.empty 0 0)
      [(.tryMap 1 1 ruleA true, 0), (.delete 1 1 false, 0), (.tryMap 1 2 ruleA true, 0)]
      remappedStore :=
    .cons (t := mappedStore) ⟨releasesAlone_checkOld (g := 1) (o := 1) rfl,
        Step.after 2 (by decide +kernel)⟩ <|
      .cons (t := releasedStore) ⟨releasesAlone_delete (g := 1) (o := 1) (f := false) (a := 1)
        (by decide +kernel) ⟨by decide +kernel, by decide +kernel⟩,
        Step.after 2 (by decide +kernel)⟩ <|
      .cons ⟨releasesAlone_checkOld (g := 1) (o := 2) rfl, Step.after 2 (by decide +kernel)⟩
        (.refl _)
  have hfamily : decide (ruleA.isIpv6 ≠ 0) = false := by decide
  have hdup := (duplicates_detected run).2 1 3 2 ruleA true _
    (Step.after 2 (by decide +kernel)) (by decide)
  rwa [hfamily] at hdup

/-- Two rules of one bucket are mapped and the later one is released. The earlier one is
not found any more, and its configuration is accepted a second time. -/
theorem duplicate_accepted :
    ∃ s, Run (Step sampleEnv) (Conf.empty 0 0)
        [(.tryMap 1 1 ruleA true, 0), (.tryMap 1 2 ruleB true, 0), (.delete 1 2 false, 0),
          (.tryMap 1 3 ruleA true, 0)] s ∧
      s.ruleMap 1 1 = ⟨.ofFamily false, 1⟩ ∧ s.ruleMap 1 3 = ⟨.ofFamily false, 2⟩ ∧
      ((s.tuple 1 false).ruleCfg 1).bytes = ((s.tuple 1 false).ruleCfg 2).bytes :=
  ⟨_, .cons (Step.after 2 (by decide +kernel)) <|
      .cons (Step.after 2 (by decide +kernel)) <|
      .cons (Step.after 2 (by decide +kernel)) <|
      .cons (Step.after 2 (by decide +kernel)) (.refl _),
    by decide +kernel, by decide +kernel, by decide +kernel⟩

end Tapplet.Acl
