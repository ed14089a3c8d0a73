import Tapplet.Lib.Run
import Tapplet.Acl.Calls
import Tapplet.Acl.Crc
import Mathlib.Order.Interval.Finset.Nat

/-!
# The rule map is a bijection

In every reachable store the outer map and the two rule arrays describe the same pairing
of outer and inner rules, and the allocation bitmap marks exactly the paired inner rules.
The argument does not depend on the hash chains being right. All that is used of them is
that their links stay inside the table: an inner rule that the search finds is then
either in use, and the call stops, or free to be mapped.
-/

namespace Tapplet.Acl

open Transition

theorem ofFamily_inj {f f' : Bool} (h : RuleType.ofFamily f = RuleType.ofFamily f') : f = f' := by
  cases f <;> cases f' <;> first | rfl | exact absurd h (by decide)

theorem ofFamily_ne_none (f : Bool) : RuleType.ofFamily f ≠ .none := by
  cases f <;> decide

/-! ## Links stay inside the table -/

/-- The links of a node are 0 or ids of the table. -/
def NodeIn (total : Nat) (n : HashNode) : Prop := n.hashNext ≤ total ∧ n.hashPrev ≤ total

/-- Every link of a hash is 0 or an id of the table. -/
structure LinksIn (total : Nat) (h : TupleHash) : Prop where
  bucket : ∀ i, (h.bucket i).hashNextRule ≤ total
  node : ∀ a, NodeIn total (h.node a)

theorem update_forall {α β : Type} [DecidableEq α] {p : β → Prop} {m : α → β} {a : α} {v : β}
    (hv : p v) (h : ∀ x, p (m x)) (x : α) : p (Function.update m a v x) :=
  (Function.forall_update_iff m fun _ y => p y).mpr ⟨hv, fun x _ => h x⟩ x

theorem aclHashFindLoop_spec {node : Nat → HashNode} {cmp : Nat → Bool} {total fuel p a : Nat}
    (hnode : ∀ a, NodeIn total (node a)) (hp : p ≤ total)
    (h : aclHashFindLoop node cmp fuel p = some a) (ha : a ≠ 0) : a ≤ total ∧ cmp a = true := by
  induction fuel generalizing p with
  | zero =>
      cases p with
      | zero => exact absurd (Option.some.inj h).symm ha
      | succ p => simp [aclHashFindLoop] at h
  | succ fuel ih =>
      cases p with
      | zero => exact absurd (Option.some.inj h).symm ha
      | succ p =>
          simp only [aclHashFindLoop] at h
          split at h
          next hcmp =>
            obtain rfl := Option.some.inj h
            exact ⟨hp, hcmp⟩
          next => exact ih (hnode _).1 h

variable {env : Env} {s s' : Conf} {g o a total : Nat} {f : Bool}

namespace LinksIn

variable {h : TupleHash}

theorem insert (links : LinksIn total h) (ha : a ≤ total) (cnt : Nat) (key : List UInt8) :
    LinksIn total (aclHashInsert env h cnt key a) := by
  have hfirst := links.bucket (aclHashIndex env key cnt)
  have hnode := update_forall (p := NodeIn total) (a := a)
    (v := ⟨0, (h.bucket (aclHashIndex env key cnt)).hashNextRule⟩)
      ⟨hfirst, Nat.zero_le _⟩ links.node
  refine ⟨fun i => ?_, fun b => ?_⟩
  · exact update_forall (p := fun b : HashBucket => b.hashNextRule ≤ total) ha links.bucket i
  · simp only [aclHashInsert]
    split
    · exact update_forall ⟨(hnode _).1, ha⟩ hnode b
    · exact hnode b

theorem free (links : LinksIn total h) (cnt : Nat) (key : List UInt8) (a : Nat) :
    LinksIn total (aclHashFree env h cnt key a) := by
  have hprev := (links.node a).2
  have hself := update_forall (p := NodeIn total) (a := a)
    (v := { h.node a with hashPrev := 0 }) ⟨(links.node a).1, Nat.zero_le _⟩ links.node
  refine ⟨fun i => ?_, fun b => ?_⟩
  · refine update_forall (p := fun b : HashBucket => b.hashNextRule ≤ total) ?_ links.bucket i
    dsimp only
    split
    · exact hprev
    · exact links.bucket _
  · simp only [aclHashFree]
    by_cases hzero : (h.node a).hashPrev = 0
    · simp only [hzero, if_true, ne_eq, not_true_eq_false, if_false]
      exact hself b
    · have hfirst := update_forall (p := NodeIn total) (a := (h.node a).hashPrev)
        (v := ⟨(h.node a).hashPrev, _⟩) ⟨(hself (h.node a).hashPrev).1, hprev⟩ hself
      simp only [hzero, if_false, ne_eq, not_false_eq_true, if_true]
      exact update_forall ⟨(hfirst _).1, hprev⟩ hfirst b

end LinksIn

/-! ## The pairing -/

/-- The outer map and the rule arrays describe one pairing, and the bitmap its domain. -/
structure MapInv (s : Conf) : Prop where
  none_zero : ∀ g o a, s.ruleMap g o = ⟨.none, a⟩ → a = 0
  forward : ∀ g o f a, s.ruleMap g o = ⟨.ofFamily f, a⟩ →
    ValidIds g o ∧ a ≠ 0 ∧ a ≤ tupleBitmapGetTotalCnt f ∧
      (s.tuple g f).mapRule a = ⟨true, g, o⟩
  backward : ∀ g f a, ((s.tuple g f).mapRule a).outerIdValid = true →
    s.ruleMap g ((s.tuple g f).mapRule a).outerRuleId = ⟨.ofFamily f, a⟩
  bits : ∀ g f a, a ≠ 0 →
    ((s.tuple g f).used a = true ↔ ((s.tuple g f).mapRule a).outerIdValid = true)
  links : ∀ g f, LinksIn (tupleBitmapGetTotalCnt f) (s.tuple g f).hash

namespace MapInv

theorem ruleMapOk (inv : MapInv s) : RuleMapOk s :=
  ⟨inv.none_zero, fun g o f a hmap => by
    obtain ⟨-, ha, hale, -⟩ := inv.forward g o f a hmap
    exact ⟨ha, hale⟩⟩

theorem empty (flag times : Int) : MapInv (Conf.empty flag times) := by
  refine ⟨fun g o a h => ?_, fun g o f a h => ?_, fun g f a h => ?_, fun g f a _ => ?_,
    fun g f => ⟨fun _ => Nat.zero_le _, fun _ => ⟨Nat.zero_le _, Nat.zero_le _⟩⟩⟩
  · exact (RuleMap.mk.inj h).2.symm
  · exact absurd (RuleMap.mk.inj h).1.symm (ofFamily_ne_none f)
  · exact absurd h Bool.false_ne_true
  · simp [TupleTable.used, Conf.empty, zeroTable]

/-- Writing a configuration does not touch the pairing. -/
theorem setCfg (inv : MapInv s) (ruleCfg : RuleCfg) (b : Nat) :
    MapInv (setCfg env s g ruleCfg b) := by
  refine ⟨inv.none_zero, fun g' o f' a h => ?_, fun g' f' a h => ?_, fun g' f' a ha => ?_,
    fun g' f' => ?_⟩
  · rw [setCfg_tuple]
    exact inv.forward g' o f' a h
  · rw [setCfg_tuple] at h ⊢
    exact inv.backward g' f' a h
  · rw [setCfg_tuple]
    exact inv.bits g' f' a ha
  · rw [setCfg_tuple]
    exact inv.links g' f'

/-- Taking an outer rule off its inner rule. -/
theorem unmapRule (inv : MapInv s) (hmap : s.ruleMap g o = ⟨.ofFamily f, a⟩) :
    MapInv (unmapRule env s g o f a) := by
  obtain ⟨hid, ha, hale, hrule⟩ := inv.forward g o f a hmap
  refine ⟨fun g' o' a' h => ?_, fun g' o' f' a' h => ?_, fun g' f' a' h => ?_,
    fun g' f' a' ha' => ?_, fun g' f' => ?_⟩
  · rw [unmapRule_ruleMap] at h
    split at h
    · exact (RuleMap.mk.inj h).2.symm
    · exact inv.none_zero g' o' a' h
  · rw [unmapRule_ruleMap] at h
    split at h
    next => exact absurd (RuleMap.mk.inj h).1.symm (ofFamily_ne_none f')
    next hother =>
      obtain ⟨hid', ha', hale', hrule'⟩ := inv.forward g' o' f' a' h
      refine ⟨hid', ha', hale', ?_⟩
      rw [unmapRule_tuple]
      split
      next hsame =>
        -- another outer rule is on another inner rule
        obtain ⟨rfl, rfl⟩ := hsame
        have hne : a' ≠ a := by
          rintro rfl
          have ho := (MapRule.mk.inj (hrule'.symm.trans hrule)).2.2
          exact hother ⟨rfl, ho⟩
        exact (Function.update_of_ne hne _ _).trans hrule'
      next => exact hrule'
  · rw [unmapRule_tuple] at h ⊢
    by_cases hsame : g' = g ∧ f' = f
    · rw [if_pos hsame] at h ⊢
      obtain ⟨rfl, rfl⟩ := hsame
      by_cases hne : a' = a
      · subst hne
        simp [TupleTable.unmapped] at h
      · simp only [TupleTable.unmapped, Function.update_of_ne hne] at h ⊢
        have hback := inv.backward g' f' a' h
        rw [unmapRule_ruleMap, if_neg]
        · exact hback
        · rintro ⟨-, ho⟩
          rw [ho] at hback
          exact hne (RuleMap.mk.inj (hback.symm.trans hmap)).2
    · rw [if_neg hsame] at h ⊢
      have hback := inv.backward g' f' a' h
      rw [unmapRule_ruleMap, if_neg]
      · exact hback
      · rintro ⟨rfl, ho⟩
        rw [ho] at hback
        exact hsame ⟨rfl, ofFamily_inj (RuleMap.mk.inj (hback.symm.trans hmap)).1⟩
  · rw [unmapRule_tuple]
    split
    next hsame =>
      obtain ⟨rfl, rfl⟩ := hsame
      rw [used_unmapped, used_unsetUsedFlag _ ha ha']
      by_cases hne : a' = a
      · subst hne
        simp [TupleTable.unmapped]
      · simp only [hne, decide_false, Bool.not_false, Bool.and_true, TupleTable.unmapped,
          Function.update_of_ne hne]
        exact inv.bits g' f' a' ha'
    next => exact inv.bits g' f' a' ha'
  · rw [unmapRule_tuple]
    split
    next hsame =>
      obtain ⟨rfl, rfl⟩ := hsame
      exact (inv.links g' f').free _ _ _
    next => exact inv.links g' f'

/-- Putting a free outer rule on a free inner rule. -/
theorem linkRule (inv : MapInv s) (hid : ValidIds g o) (ho : s.ruleMap g o = ⟨.none, 0⟩)
    (ha : a ≠ 0) (hale : a ≤ tupleBitmapGetTotalCnt f)
    (hfree : ((s.tuple g f).mapRule a).outerIdValid = false) :
    MapInv (linkRule env s g o f a) := by
  refine ⟨fun g' o' a' h => ?_, fun g' o' f' a' h => ?_, fun g' f' a' h => ?_,
    fun g' f' a' ha' => ?_, fun g' f' => ?_⟩
  · rw [linkRule_ruleMap] at h
    split at h
    · exact absurd (RuleMap.mk.inj h).1 (ofFamily_ne_none f)
    · exact inv.none_zero g' o' a' h
  · rw [linkRule_ruleMap] at h
    split at h
    next hsame =>
      obtain ⟨rfl, rfl⟩ := hsame
      obtain ⟨hf, rfl⟩ := RuleMap.mk.inj h
      obtain rfl := ofFamily_inj hf
      refine ⟨hid, ha, hale, ?_⟩
      rw [linkRule_tuple, if_pos ⟨rfl, rfl⟩]
      exact Function.update_self _ _ _
    next hother =>
      obtain ⟨hid', ha', hale', hrule'⟩ := inv.forward g' o' f' a' h
      refine ⟨hid', ha', hale', ?_⟩
      rw [linkRule_tuple]
      split
      next hsame =>
        obtain ⟨rfl, rfl⟩ := hsame
        have hne : a' ≠ a := by
          rintro rfl
          simp [hrule'] at hfree
        exact (Function.update_of_ne hne _ _).trans hrule'
      next => exact hrule'
  · -- an inner rule that was in use before cannot be on `o`, which was free
    have hold : ((s.tuple g' f').mapRule a').outerIdValid = true →
        (Acl.linkRule env s g o f a).ruleMap g' ((s.tuple g' f').mapRule a').outerRuleId =
          ⟨.ofFamily f', a'⟩ := by
      intro hvalid
      have hback := inv.backward g' f' a' hvalid
      rw [linkRule_ruleMap, if_neg]
      · exact hback
      · rintro ⟨rfl, houter⟩
        rw [houter, ho] at hback
        exact ofFamily_ne_none f' (RuleMap.mk.inj hback).1.symm
    rw [linkRule_tuple] at h ⊢
    by_cases hsame : g' = g ∧ f' = f
    · rw [if_pos hsame] at h ⊢
      obtain ⟨rfl, rfl⟩ := hsame
      by_cases hne : a' = a
      · subst hne
        simp only [TupleTable.linked, Function.update_self, linkRule_ruleMap, and_self, if_true]
      · simp only [TupleTable.linked, Function.update_of_ne hne] at h ⊢
        exact hold h
    · rw [if_neg hsame] at h ⊢
      exact hold h
  · rw [linkRule_tuple]
    split
    next hsame =>
      obtain ⟨rfl, rfl⟩ := hsame
      rw [used_linked, used_setUsedFlag _ ha ha']
      by_cases hne : a' = a
      · subst hne
        simp [TupleTable.linked]
      · simp only [hne, decide_false, Bool.or_false, TupleTable.linked,
          Function.update_of_ne hne]
        exact inv.bits g' f' a' ha'
    next => exact inv.bits g' f' a' ha'
  · rw [linkRule_tuple]
    split
    next hsame =>
      obtain ⟨rfl, rfl⟩ := hsame
      exact (inv.links g' f').insert hale _ _
    next => exact inv.links g' f'

/-- Taking an outer rule off leaves it unmapped and frees inner rules only. -/
theorem unmap (inv : MapInv s) (h : Unmap env s g o s') :
    MapInv s' ∧ s'.ruleMap g o = ⟨.none, 0⟩ ∧
      ∀ f a, ((s.tuple g f).mapRule a).outerIdValid = false →
        ((s'.tuple g f).mapRule a).outerIdValid = false := by
  cases h with
  | free hmap => exact ⟨inv, hmap, fun _ _ h => h⟩
  | @mapped f a hmap =>
      refine ⟨inv.unmapRule hmap, by rw [unmapRule_ruleMap, if_pos ⟨rfl, rfl⟩], fun f' a' h => ?_⟩
      rw [unmapRule_tuple]
      split
      next hsame =>
        obtain ⟨-, rfl⟩ := hsame
        by_cases hne : a' = a
        · subst hne
          simp [TupleTable.unmapped]
        · simpa only [TupleTable.unmapped, Function.update_of_ne hne] using h
      next => exact h

/-- An inner rule that the search returns is an inner rule of the family. -/
theorem finds_le (inv : MapInv s) {ruleCfg : RuleCfg}
    (hcheck : checkTupleRuleCfg env ruleCfg = 0) (hfind : Finds env s g ruleCfg a) (ha : a ≠ 0) :
    a ≤ tupleBitmapGetTotalCnt (decide (ruleCfg.isIpv6 ≠ 0)) ∧
      (tupleCfg env ruleCfg).bytes =
        ((s.tuple g (decide (ruleCfg.isIpv6 ≠ 0))).ruleCfg a).bytes := by
  obtain ⟨fuel, hfind⟩ := hfind
  simp only [tupleHashFindActual, copyTupleCfg_of_check hcheck, ne_eq, not_true_eq_false,
    if_false, aclHashFind] at hfind
  split at hfind
  next => exact absurd (Option.some.inj hfind).symm ha
  next =>
    have links := inv.links g (decide (ruleCfg.isIpv6 ≠ 0))
    obtain ⟨hle, hcmp⟩ := aclHashFindLoop_spec links.node (links.bucket _) hfind ha
    exact ⟨hle, of_decide_eq_true hcmp⟩

theorem outer_zero (inv : MapInv s) (ha : a ≠ 0) (houter : tupleHashFindOuter s g a f = 0) :
    ((s.tuple g f).mapRule a).outerIdValid = false := by
  rw [← Bool.not_eq_true]
  intro hvalid
  have hback := inv.backward g f a hvalid
  simp only [tupleHashFindOuter, if_pos ha, if_pos hvalid] at houter
  have hpos := (inv.forward _ _ _ _ hback).1.outer_pos
  omega

theorem tryMap (inv : MapInv s) {ruleCfg : RuleCfg} {ret : Int} (hid : ValidIds g o)
    (hcheck : checkTupleRuleCfg env ruleCfg = 0) (h : TryMap env s g o ruleCfg s' ret) :
    MapInv s' := by
  cases h with
  | found => exact inv
  | reused hfind hinner houter hunmap _ =>
      obtain ⟨inv', ho, hfree⟩ := inv.unmap hunmap
      exact inv'.linkRule hid ho hinner (inv.finds_le hcheck hfind hinner).1
        (hfree _ _ (inv.outer_zero hinner houter))
  | created hfind hunused hinner hunmap _ =>
      subst hunused
      obtain ⟨hle, hclear⟩ := tupleBitmapGetFirstUnused_spec hinner
      obtain ⟨inv', ho, hfree⟩ := (inv.setCfg ruleCfg _).unmap hunmap
      refine inv'.linkRule hid ho hinner hle (hfree _ _ ?_)
      rw [setCfg_tuple, ← Bool.not_eq_true, ← inv.bits _ _ _ hinner, hclear]
      exact Bool.false_ne_true

/-- Every call keeps the pairing. -/
theorem step {e : Call × Int} (inv : MapInv s) (h : Step env s e s') : MapInv s' := by
  obtain ⟨fuel, hrun⟩ := h
  obtain ⟨call, ret⟩ := e
  cases call with
  | tryMap groupId outerRuleId ruleCfg checkOld =>
      rcases tupleTryMapNewRule_cases inv.ruleMapOk hrun with
        ⟨rfl, -⟩ | ⟨g, o, -, -, hid, -, hcheck, htry⟩
      · exact inv
      · exact inv.tryMap hid hcheck htry
  | delete groupId outerRuleId noCheck =>
      have hres : (aclDeleteOldMap env s groupId outerRuleId noCheck).1 = s' :=
        congrArg Prod.fst (Option.some.inj hrun)
      rcases aclDeleteOldMap_cases inv.ruleMapOk groupId outerRuleId noCheck with
        hsame | ⟨g, o, f, a, -, -, -, hmap, hunmap⟩
      · rw [← hres, hsame]
        exact inv
      · rw [← hres, hunmap]
        exact inv.unmapRule hmap
  | reset =>
      have hres : (resetConfig s).1 = s' := congrArg Prod.fst (Option.some.inj hrun)
      rw [← hres, resetConfig]
      split
      · exact inv
      · exact .empty _ _

/-- Every store reached from the cleared one pairs outer and inner rules. -/
theorem of_run {flag times : Int} {es : List (Call × Int)}
    (run : Run (Step env) (Conf.empty flag times) es s) : MapInv s :=
  run.invariant (.empty flag times) fun _ _ _ inv h => inv.step h

/-- The bits of a family are as many as the outer rules mapped to it. -/
theorem usedCnt_eq (inv : MapInv s) (g : Nat) (f : Bool) :
    tupleBitmapGetUsedCnt s g f =
      ((Finset.Icc 1 MAX_RULE_PER_GROUP).filter fun o =>
        (s.ruleMap g o).ruleType = .ofFamily f ∧ (s.ruleMap g o).actualRuleId ≠ 0).card := by
  rw [tupleBitmapGetUsedCnt_eq, Nat.count_eq_card_filter_range]
  have hmap : ∀ k, (s.tuple g f).used (k + 1) = true →
      s.ruleMap g ((s.tuple g f).mapRule (k + 1)).outerRuleId = ⟨.ofFamily f, k + 1⟩ :=
    fun k hk => inv.backward g f _ ((inv.bits g f _ (Nat.succ_ne_zero k)).mp hk)
  refine Finset.card_bij (fun k _ => ((s.tuple g f).mapRule (k + 1)).outerRuleId) ?_ ?_ ?_
  · intro k hk
    have hk := hmap k (Finset.mem_filter.mp hk).2
    obtain ⟨hid, -⟩ := inv.forward _ _ _ _ hk
    refine Finset.mem_filter.mpr ⟨Finset.mem_Icc.mpr ⟨hid.outer_pos, hid.outer_le⟩, ?_, ?_⟩
    · rw [hk]
    · rw [hk]
      exact Nat.succ_ne_zero k
  · intro k hk k' hk' hsame
    have hk := hmap k (Finset.mem_filter.mp hk).2
    have hk' := hmap k' (Finset.mem_filter.mp hk').2
    rw [hsame, hk'] at hk
    exact (Nat.succ_injective (RuleMap.mk.inj hk).2).symm
  · intro o ho
    obtain ⟨-, htype, hne⟩ := Finset.mem_filter.mp ho
    obtain ⟨a, hmap⟩ : ∃ a, s.ruleMap g o = ⟨.ofFamily f, a⟩ := ⟨_, by rw [← htype]⟩
    obtain ⟨-, ha, hale, hrule⟩ := inv.forward g o f a hmap
    obtain ⟨k, rfl⟩ := Nat.exists_eq_succ_of_ne_zero ha
    refine ⟨k, Finset.mem_filter.mpr ⟨Finset.mem_range.mpr hale, ?_⟩, ?_⟩
    · rw [inv.bits g f _ ha, hrule]
    · rw [hrule]

end MapInv

/-- The store is a bijection. After any calls on the cleared store, in every group: an
outer rule is mapped to an inner rule of a family if and only if that rule points back to
it and its bit is set; every set bit belongs to a mapped inner rule; no inner rule has two
outer rules; and the count of a family is the number of outer rules mapped to it. -/
theorem rule_map_bijective {env : Env} {s : Conf} {flag times : Int} {es : List (Call × Int)}
    (run : Run (Step env) (Conf.empty flag times) es s) (g : Nat) :
    (∀ o f a, a ≠ 0 → (s.ruleMap g o = ⟨.ofFamily f, a⟩ ↔
      (s.tuple g f).mapRule a = ⟨true, g, o⟩ ∧ (s.tuple g f).used a = true)) ∧
    (∀ f a, a ≠ 0 → (s.tuple g f).used a = true →
      ∃ o, ValidIds g o ∧ s.ruleMap g o = ⟨.ofFamily f, a⟩) ∧
    (∀ o o' f a, s.ruleMap g o = ⟨.ofFamily f, a⟩ → s.ruleMap g o' = ⟨.ofFamily f, a⟩ → o = o') ∧
    ∀ f, tupleBitmapGetUsedCnt s g f =
      ((Finset.Icc 1 MAX_RULE_PER_GROUP).filter fun o =>
        (s.ruleMap g o).ruleType = .ofFamily f ∧ (s.ruleMap g o).actualRuleId ≠ 0).card := by
  have inv := MapInv.of_run run
  refine ⟨fun o f a ha => ⟨fun hmap => ?_, fun h => ?_⟩, fun f a ha hused => ?_,
    fun o o' f a hmap hmap' => ?_, inv.usedCnt_eq g⟩
  · have hrule := (inv.forward g o f a hmap).2.2.2
    exact ⟨hrule, (inv.bits g f a ha).mpr (by rw [hrule])⟩
  · have hback := inv.backward g f a (by rw [h.1])
    rwa [h.1] at hback
  · have hback := inv.backward g f a ((inv.bits g f a ha).mp hused)
    exact ⟨_, (inv.forward _ _ _ _ hback).1, hback⟩
  · have hrule := (inv.forward g o f a hmap).2.2.2
    have hrule' := (inv.forward g o' f a hmap').2.2.2
    exact (MapRule.mk.inj (hrule.symm.trans hrule')).2.2

/-- A rule is added, and then moved to another configuration: the new inner rule is
chosen before the old one is released. -/
theorem rule_map_bijective_replace :
    ∃ s, Run (Step sampleEnv) (Conf.empty 0 0)
        [(.tryMap 1 7 ruleA true, 0), (.tryMap 1 7 ruleB false, 0)] s ∧
      s.ruleMap 1 7 = ⟨.tuple4, 2⟩ ∧ (s.tuple 1 false).mapRule 2 = ⟨true, 1, 7⟩ ∧
      (s.tuple 1 false).used 2 = true := by
  have run : Run (Step sampleEnv) (Conf.empty 0 0)
      [(.tryMap 1 7 ruleA true, 0), (.tryMap 1 7 ruleB false, 0)] _ :=
    .cons (Step.after 2 (by decide +kernel)) <|
      .cons (Step.after 2 (by decide +kernel)) (.refl _)
  have hmap : (Call.after sampleEnv 2 (Call.after sampleEnv 2 (Conf.empty 0 0)
      (.tryMap 1 7 ruleA true)) (.tryMap 1 7 ruleB false)).ruleMap 1 7 = ⟨.tuple4, 2⟩ := by
    decide +kernel
  exact ⟨_, run, hmap, ((rule_map_bijective run 1).1 7 false 2 (by decide)).mp hmap⟩

end Tapplet.Acl
