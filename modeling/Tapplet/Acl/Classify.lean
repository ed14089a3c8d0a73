import Tapplet.Acl.Duplicates
import Tapplet.Acl.Crc
import Tapplet.Acl.Rte
import Mathlib.Order.Bounds.Basic

/-!
# Classification

`rte_acl_table_add_rules` hands every mapped rule of a group to rte_acl, with a priority that
falls as the outer rule id grows, and `sf_acl_entry` asks rte_acl for the rule of a packet. The
rules of both families go into one table.

rte_acl is a parameter: it accepts valid rules while there is room, and classifies by the
matching rule of the highest priority. The results hold for every store whose mapped rules have
passed the checks of the store, and every store that the calls of the store build is one.
-/

namespace Tapplet.Acl

open Transition Prefix

variable {env : Env} {s s' : Conf} {g o a : Nat} {f : Bool}

/-! ## Stored rules -/

/-- `inet_pton` writes four bytes for an IPv4 address and sixteen for an IPv6 address. -/
def InetPtonLength (env : Env) : Prop :=
  ∀ isIpv6 src dst, env.inetPton isIpv6 src = some dst → dst.length = if isIpv6 then 16 else 4

/-- A configuration of a family that has passed `check_tuple_rule_cfg`, as it is stored. -/
def Passed (env : Env) (f : Bool) (c : TupleRuleCfg) : Prop :=
  ∃ ruleCfg, checkTupleRuleCfg env ruleCfg = 0 ∧ decide (ruleCfg.isIpv6 ≠ 0) = f ∧
    c = tupleCfg env ruleCfg

/-- What `check_tuple_rule_cfg` has made sure of when it returns 0. -/
theorem checkTupleRuleCfg_eq_zero {ruleCfg : RuleCfg} (h : checkTupleRuleCfg env ruleCfg = 0) :
    let f := decide (ruleCfg.isIpv6 ≠ 0)
    let ipMaskMax : UInt8 := if f then 128 else 32
    ruleCfg.sipMask ≤ ipMaskMax ∧ ruleCfg.dipMask ≤ ipMaskMax ∧
      (∃ sip, env.inetPton f ruleCfg.sip = some sip) ∧
      ∃ dip, env.inetPton f ruleCfg.dip = some dip := by
  dsimp only
  simp only [checkTupleRuleCfg] at h
  generalize (if decide (ruleCfg.isIpv6 ≠ 0) = true then (128 : UInt8) else 32) = ipMaskMax
    at h ⊢
  repeat' split at h
  all_goals first
    | exact absurd h (by decide)
    | skip
  rename_i hmask hsip hdip
  obtain ⟨hsipMask, hdipMask⟩ := not_or.mp hmask
  exact ⟨UInt8.not_lt.mp hsipMask, UInt8.not_lt.mp hdipMask,
    Option.ne_none_iff_exists'.mp hsip, Option.ne_none_iff_exists'.mp hdip⟩

theorem Passed.fits (pton : InetPtonLength env) {c : TupleRuleCfg} (h : Passed env f c) :
    c.Fits f := by
  obtain ⟨ruleCfg, hcheck, rfl, rfl⟩ := h
  obtain ⟨hsipMask, hdipMask, ⟨sip, hsip⟩, dip, hdip⟩ := checkTupleRuleCfg_eq_zero hcheck
  have hmax (f : Bool) :
      (if f then (128 : UInt8) else 32).toNat = if f then 128 else 32 := by
    cases f <;> rfl
  have hsipMask := UInt8.le_iff_toNat_le.mp hsipMask
  have hdipMask := UInt8.le_iff_toNat_le.mp hdipMask
  rw [hmax] at hsipMask hdipMask
  have hcfg : tupleCfg env ruleCfg = ⟨ruleCfg.sportMin, ruleCfg.sportMax, ruleCfg.dportMin,
      ruleCfg.dportMax, ruleCfg.protoMin, ruleCfg.protoMax, ruleCfg.sipMask, ruleCfg.dipMask,
      sip, dip⟩ := by
    simp only [tupleCfg, copyTupleCfg, hsip, hdip]
  rw [hcfg]
  exact ⟨pton _ _ _ hsip, pton _ _ _ hdip, hsipMask, hdipMask⟩

/-- The mapped rules of a group: outer and inner ids belong together, and every configuration
has passed the checks of its family. -/
structure Stored (env : Env) (s : Conf) (g : Nat) : Prop where
  forward : ∀ o f a, s.ruleMap g o = ⟨.ofFamily f, a⟩ →
    o ≠ 0 ∧ o ≤ MAX_RULE_PER_GROUP ∧ a ≠ 0 ∧ a ≤ tupleBitmapGetTotalCnt f ∧
      (s.tuple g f).mapRule a = ⟨true, g, o⟩
  backward : ∀ f a, ((s.tuple g f).mapRule a).outerIdValid = true →
    s.ruleMap g ((s.tuple g f).mapRule a).outerRuleId = ⟨.ofFamily f, a⟩
  passed : ∀ o f a, s.ruleMap g o = ⟨.ofFamily f, a⟩ → Passed env f ((s.tuple g f).ruleCfg a)

/-- Every inner rule is either cleared and not in use, or holds a configuration that has passed
the checks. -/
def CfgInv (env : Env) (s : Conf) : Prop :=
  ∀ g f a, Passed env f ((s.tuple g f).ruleCfg a) ∨
    (s.tuple g f).ruleCfg a = zeroTable.ruleCfg a ∧ ¬(s.tuple g f).InUse a

namespace CfgInv

variable {ruleCfg : RuleCfg}

theorem empty (flag times : Int) : CfgInv env (Conf.empty flag times) :=
  fun _ _ _ => .inr ⟨rfl, Bool.false_ne_true⟩

theorem unmap (inv : CfgInv env s) (h : Unmap env s g o s') : CfgInv env s' := by
  intro g' f' a'
  obtain ⟨hcfg, hin⟩ := DupInv.of_unmap h g' f'
  rw [hcfg]
  exact (inv g' f' a').imp_right fun ⟨hzero, hfree⟩ => ⟨hzero, fun huse => hfree (hin a' huse)⟩

theorem setCfg (inv : CfgInv env s) (hcheck : checkTupleRuleCfg env ruleCfg = 0) :
    CfgInv env (setCfg env s g ruleCfg a) := by
  intro g' f' a'
  rw [setCfg_tuple]
  split
  · next h =>
      obtain ⟨rfl, rfl⟩ := h
      by_cases ha : a' = a
      · subst ha
        exact .inl ⟨ruleCfg, hcheck, rfl, Function.update_self ..⟩
      · rcases inv g' _ a' with hpassed | ⟨hzero, hfree⟩
        · left
          change Passed env _ (Function.update (s.tuple g' _).ruleCfg a (tupleCfg env ruleCfg) a')
          rwa [Function.update_of_ne ha]
        · exact .inr ⟨(Function.update_of_ne ha ..).trans hzero, hfree⟩
  · exact inv g' f' a'

theorem linkRule (inv : CfgInv env s) (hpassed : Passed env f ((s.tuple g f).ruleCfg a)) :
    CfgInv env (linkRule env s g o f a) := by
  intro g' f' a'
  rw [linkRule_tuple]
  split
  · next h =>
      obtain ⟨rfl, rfl⟩ := h
      by_cases ha : a' = a
      · subst ha
        exact .inl hpassed
      · refine (inv g' f' a').imp_right fun ⟨hzero, hfree⟩ => ⟨hzero, fun huse => hfree ?_⟩
        simpa only [TupleTable.InUse, TupleTable.linked, Function.update_of_ne ha] using huse
  · exact inv g' f' a'

/-- A cleared rule has no addresses, so it is not taken for one that has passed the checks. -/
theorem passed_of_bytes (inv : CfgInv env s) (pton : InetPtonLength env)
    (hcheck : checkTupleRuleCfg env ruleCfg = 0)
    (hbytes : (tupleCfg env ruleCfg).bytes = ((s.tuple g f).ruleCfg a).bytes) :
    Passed env f ((s.tuple g f).ruleCfg a) := by
  refine (inv g f a).resolve_right fun ⟨hzero, _⟩ => ?_
  have hfits := Passed.fits pton ⟨ruleCfg, hcheck, rfl, rfl⟩
  have hlen := congrArg List.length hbytes
  have hsip : (tupleCfg env ruleCfg).sip.length ≠ 0 := by
    rw [hfits.sip]
    split <;> decide
  rw [hzero] at hlen
  simp only [TupleRuleCfg.bytes, le16, zeroTable, List.length_append, List.length_cons,
    List.length_nil] at hlen
  omega

theorem tryMap (inv : CfgInv env s) (map : MapInv s) (pton : InetPtonLength env) {ret : Int}
    (hcheck : checkTupleRuleCfg env ruleCfg = 0) (h : TryMap env s g o ruleCfg s' ret) :
    CfgInv env s' := by
  cases h with
  | found => exact inv
  | reused hfind hinner houter hunmap _ =>
      refine (inv.unmap hunmap).linkRule ?_
      rw [(DupInv.of_unmap hunmap _ _).1]
      exact inv.passed_of_bytes pton hcheck (map.finds_le hcheck hfind hinner).2
  | created hfind hunused hinner hunmap _ =>
      refine ((inv.setCfg hcheck).unmap hunmap).linkRule ?_
      rw [(DupInv.of_unmap hunmap _ _).1, setCfg_tuple, if_pos ⟨rfl, rfl⟩]
      exact ⟨ruleCfg, hcheck, rfl, Function.update_self ..⟩

theorem step {e : Call × Int} (inv : CfgInv env s) (map : MapInv s) (pton : InetPtonLength env)
    (h : Step env s e s') : CfgInv env s' := by
  obtain ⟨fuel, hrun⟩ := h
  obtain ⟨call, ret⟩ := e
  cases call with
  | tryMap groupId outerRuleId ruleCfg checkOld =>
      rcases tupleTryMapNewRule_cases map.ruleMapOk hrun with
        ⟨rfl, -⟩ | ⟨g, o, -, -, -, -, hcheck, htry⟩
      · exact inv
      · exact inv.tryMap map pton hcheck htry
  | delete groupId outerRuleId noCheck =>
      have hres : (aclDeleteOldMap env s groupId outerRuleId noCheck).1 = s' :=
        congrArg Prod.fst (Option.some.inj hrun)
      rcases aclDeleteOldMap_cases map.ruleMapOk groupId outerRuleId noCheck with
        hsame | ⟨g, o, f, a, -, -, -, hmap, hunmap⟩
      · rw [← hres, hsame]
        exact inv
      · rw [← hres, hunmap]
        exact inv.unmap (.mapped hmap)
  | reset =>
      have hres : (resetConfig s).1 = s' := congrArg Prod.fst (Option.some.inj hrun)
      rw [← hres, resetConfig]
      split
      · exact inv
      · exact .empty _ _

end CfgInv

/-- Every store that calls build from the cleared one holds checked rules only. -/
theorem Stored.of_run (pton : InetPtonLength env) {flag times : Int} {es : List (Call × Int)}
    (run : Run (Step env) (Conf.empty flag times) es s) (g : Nat) : Stored env s g := by
  have inv : MapInv s ∧ CfgInv env s := by
    refine run.invariant (I := fun s => MapInv s ∧ CfgInv env s)
      ⟨.empty flag times, .empty flag times⟩ ?_
    exact fun _ _ _ inv h => ⟨inv.1.step h, inv.2.step inv.1 pton h⟩
  obtain ⟨map, cfg⟩ := inv
  refine ⟨fun o f a hmap => ?_, map.backward g, fun o f a hmap => ?_⟩
  · obtain ⟨hid, ha, hale, hrule⟩ := map.forward g o f a hmap
    exact ⟨Nat.ne_of_gt hid.outer_pos, hid.outer_le, ha, hale, hrule⟩
  · have hrule := (map.forward g o f a hmap).2.2.2
    exact (cfg g f a).resolve_right fun ⟨_, hfree⟩ => hfree (congrArg MapRule.outerIdValid hrule)

/-! ## The table -/

/-- `struct rte_acl_ctx` as far as the rules are concerned. -/
structure RteAclCtx where
  maxRuleNum : Nat
  rules : List Acl46RuleCfg

/-- `RTE_ACL_MAX_PRIORITY` -/
def rteAclMaxPriority : Int := 2 ^ 29 - 1

/-- The library that holds and searches the table. -/
structure RteAcl where
  /-- whether `rte_acl_add_rules` takes one more rule -/
  addRules : RteAclCtx → Acl46RuleCfg → Bool
  /-- the result that `rte_acl_classify` writes for category 0 -/
  classify : List RteAclFieldDef → List Acl46RuleCfg → List UInt8 → Nat
  addRules_valid : ∀ ctx r, ctx.rules.length < ctx.maxRuleNum → r.categoryMask = 1 →
    0 ≤ r.priority → r.priority ≤ rteAclMaxPriority → r.userdata ≠ 0 → addRules ctx r = true
  classify_none : ∀ defs rules data, (∀ r ∈ rules, ¬r.Matches defs data) →
    classify defs rules data = 0
  classify_highest : ∀ defs rules data, (∃ r ∈ rules, r.Matches defs data) →
    ∃ r ∈ rules, r.Matches defs data ∧
      (∀ r' ∈ rules, r'.Matches defs data → r'.priority ≤ r.priority) ∧
      classify defs rules data = r.userdata

/-- A library that takes every rule while there is room and searches the whole list. -/
def sampleRteAcl : RteAcl where
  addRules ctx _ := decide (ctx.rules.length < ctx.maxRuleNum)
  classify defs rules data :=
    ((rules.filter (·.Matches defs data)).maxOn? (·.priority)).elim 0 (·.userdata)
  addRules_valid _ _ hroom _ _ _ _ := decide_eq_true hroom
  classify_none defs rules data hnone := by
    have hempty : rules.filter (·.Matches defs data) = [] := by
      simpa only [List.filter_eq_nil_iff, decide_eq_true_eq] using hnone
    rw [hempty]
    rfl
  classify_highest defs rules data hsome := by
    obtain ⟨r, hr, hmatches⟩ := hsome
    have hmem {r : Acl46RuleCfg} : r ∈ rules.filter (·.Matches defs data) ↔
        r ∈ rules ∧ r.Matches defs data := by
      rw [List.mem_filter, decide_eq_true_eq]
    obtain ⟨best, hbest⟩ := Option.isSome_iff_exists.mp
      (List.isSome_maxOn?_of_mem (f := (·.priority)) (hmem.mpr ⟨hr, hmatches⟩))
    obtain ⟨hbestIn, hbestMatches⟩ := hmem.mp (List.maxOn?_mem hbest)
    refine ⟨best, hbestIn, hbestMatches, fun r' hr' hmatches' => ?_, ?_⟩
    · have hle := List.le_apply_get_maxOn?_of_mem (f := (·.priority))
        (hmem.mpr ⟨hr', hmatches'⟩)
      simpa only [hbest, Option.get_some] using hle
    · rw [hbest]
      rfl

/-- `sf_rte_rule_priority` -/
def sfRteRulePriority (ruleId : Nat) : Int := 0xFFFFFF - ruleId

/-- The rule that is handed to rte_acl for an inner rule. -/
def tupleRteRule (s : Conf) (groupId : Nat) (isIpv6 : Bool) (actualRuleId : Nat) :
    Acl46RuleCfg :=
  let t := s.tuple groupId isIpv6
  let outerRuleId := (t.mapRule actualRuleId).outerRuleId
  { categoryMask := 1
    priority := sfRteRulePriority outerRuleId
    userdata := outerRuleId
    field := transShmToRteTuple isIpv6 (t.ruleCfg actualRuleId) }

/-- One round of a loop of `rte_acl_table_add_rules`; `none` is the return with -1. -/
def addTupleRule (acl : RteAcl) (s : Conf) (groupId : Nat) (isIpv6 : Bool)
    (st : RteAclCtx × Nat) (actualRuleId : Nat) : Option (RteAclCtx × Nat) :=
  let mapRule := (s.tuple groupId isIpv6).mapRule actualRuleId
  if mapRule.outerIdValid ∧ mapRule.outerRuleId ≠ 0 then
    let rteRule := tupleRteRule s groupId isIpv6 actualRuleId
    if acl.addRules st.1 rteRule then
      some ({ st.1 with rules := st.1.rules ++ [rteRule] }, st.2 + 1)
    else none
  else some st

/-- The inner rules of a family, in the order of the array. -/
def innerRules (isIpv6 : Bool) : List Nat := List.range' 1 (tupleBitmapGetTotalCnt isIpv6)

/-- `rte_acl_table_add_rules`: the context with the rules, and their number. -/
def rteAclTableAddRules (acl : RteAcl) (s : Conf) (context : RteAclCtx) (groupId : Nat) :
    Option (RteAclCtx × Nat) := do
  let st ← (innerRules false).foldlM (addTupleRule acl s groupId false) (context, 0)
  (innerRules true).foldlM (addTupleRule acl s groupId true) st

/-- The context that `rte_acl_table_setup` leaves for the workers, when no call of rte_acl other
than `rte_acl_add_rules` fails: `some none` is a null pointer, for a group without rules. -/
def rteAclTableSetup (acl : RteAcl) (s : Conf) (groupId : Nat) : Option (Option RteAclCtx) := do
  let context : RteAclCtx := ⟨MAX_TUPLE6_RULE_PER_GROUP + MAX_TUPLE4_RULE_PER_GROUP, []⟩
  let (context, ret) ← rteAclTableAddRules acl s context groupId
  if ret = 0 then some none else some (some context)

/-- The result of a packet in `sf_acl_entry`, 0 without a context. -/
def sfAclEntryResult (acl : RteAcl) (context : Option RteAclCtx) (wdata : SfWdata) : Nat :=
  match context with
  | none => 0
  | some context => acl.classify aclRteIpv46Defs context.rules wdata.bytes

/-- The inner rules of a family that are mapped. -/
def mappedRules (s : Conf) (g : Nat) (f : Bool) : List Nat :=
  (innerRules f).filter fun a =>
    ((s.tuple g f).mapRule a).outerIdValid ∧ ((s.tuple g f).mapRule a).outerRuleId ≠ 0

theorem length_mappedRules_le (s : Conf) (g : Nat) (f : Bool) :
    (mappedRules s g f).length ≤ tupleBitmapGetTotalCnt f := by
  calc (mappedRules s g f).length ≤ (innerRules f).length := List.length_filter_le ..
    _ = tupleBitmapGetTotalCnt f := List.length_range' ..

/-- The rules of a group in the table, IPv4 first. -/
def tableRules (s : Conf) (g : Nat) : List Acl46RuleCfg :=
  (mappedRules s g false).map (tupleRteRule s g false) ++
    (mappedRules s g true).map (tupleRteRule s g true)

namespace Stored

variable (stored : Stored env s g)

include stored

theorem mem_mappedRules {a : Nat} :
    a ∈ mappedRules s g f ↔ ∃ o, s.ruleMap g o = ⟨.ofFamily f, a⟩ := by
  rw [mappedRules, List.mem_filter, innerRules, List.mem_range'_1, decide_eq_true_eq]
  constructor
  · rintro ⟨-, hvalid, -⟩
    exact ⟨_, stored.backward f a hvalid⟩
  · rintro ⟨o, hmap⟩
    obtain ⟨ho, -, ha, hale, hrule⟩ := stored.forward o f a hmap
    rw [hrule]
    exact ⟨by omega, rfl, ho⟩

theorem tupleRteRule_valid (acl : RteAcl) {ctx : RteAclCtx} {a : Nat}
    (ha : a ∈ mappedRules s g f) (hroom : ctx.rules.length < ctx.maxRuleNum) :
    acl.addRules ctx (tupleRteRule s g f a) = true := by
  obtain ⟨o, hmap⟩ := stored.mem_mappedRules.mp ha
  obtain ⟨ho, hole, -, -, hrule⟩ := stored.forward o f a hmap
  simp only [MAX_RULE_PER_GROUP, MAX_TUPLE4_RULE_PER_GROUP, MAX_TUPLE6_RULE_PER_GROUP] at hole
  refine acl.addRules_valid ctx _ hroom rfl ?_ ?_ ?_
  · simp only [tupleRteRule, hrule, sfRteRulePriority]
    omega
  · simp only [tupleRteRule, hrule, sfRteRulePriority, rteAclMaxPriority]
    omega
  · simpa only [tupleRteRule, hrule] using ho

/-- A loop adds the rules of the inner rules that are mapped, in order. -/
theorem foldlM_addTupleRule (acl : RteAcl) (as : List Nat) (st : RteAclCtx × Nat)
    (has : ∀ a ∈ as, a ∈ innerRules f)
    (hroom : st.1.rules.length + as.length ≤ st.1.maxRuleNum) :
    as.foldlM (addTupleRule acl s g f) st =
      some (⟨st.1.maxRuleNum, st.1.rules ++ (as.filter (· ∈ mappedRules s g f)).map
          (tupleRteRule s g f)⟩, st.2 + (as.filter (· ∈ mappedRules s g f)).length) := by
  induction as generalizing st with
  | nil => simp
  | cons a as ih =>
      rw [List.length_cons] at hroom
      have hmem : ((s.tuple g f).mapRule a).outerIdValid ∧
          ((s.tuple g f).mapRule a).outerRuleId ≠ 0 ↔ a ∈ mappedRules s g f := by
        rw [mappedRules, List.mem_filter, decide_eq_true_eq]
        exact ⟨fun h => ⟨has a (by simp), h⟩, fun h => h.2⟩
      have has' : ∀ a' ∈ as, a' ∈ innerRules f := fun a' h => has a' (by simp [h])
      rw [List.foldlM_cons, addTupleRule]
      by_cases ha : a ∈ mappedRules s g f
      · rw [if_pos (hmem.mpr ha), if_pos (stored.tupleRteRule_valid acl ha (by omega))]
        change as.foldlM (addTupleRule acl s g f) _ = _
        rw [ih _ has' (by simp only [List.length_append, List.length_singleton]; omega),
          List.filter_cons_of_pos (by simpa using ha)]
        simp only [List.map_cons, List.append_assoc, List.singleton_append, List.length_cons]
        congr 2
        omega
      · rw [if_neg fun h => ha (hmem.mp h)]
        change as.foldlM (addTupleRule acl s g f) st = _
        rw [ih _ has' (by omega), List.filter_cons_of_neg (by simpa using ha)]

theorem foldlM_innerRules (acl : RteAcl) (f : Bool) (st : RteAclCtx × Nat)
    (hroom : st.1.rules.length + tupleBitmapGetTotalCnt f ≤ st.1.maxRuleNum) :
    (innerRules f).foldlM (addTupleRule acl s g f) st =
      some (⟨st.1.maxRuleNum, st.1.rules ++ (mappedRules s g f).map (tupleRteRule s g f)⟩,
        st.2 + (mappedRules s g f).length) := by
  have hfilter : (innerRules f).filter (· ∈ mappedRules s g f) = mappedRules s g f := by
    refine List.filter_congr fun a ha => decide_eq_decide.mpr ?_
    rw [mappedRules, List.mem_filter, decide_eq_true_eq, and_iff_right ha]
  rw [stored.foldlM_addTupleRule acl _ st (fun _ => id)
    (by rwa [innerRules, List.length_range']), hfilter]

/-- With room for all the rules of a group none is refused. -/
theorem rteAclTableAddRules_spec (acl : RteAcl) (ctx : RteAclCtx)
    (hroom : ctx.rules.length + MAX_RULE_PER_GROUP ≤ ctx.maxRuleNum) :
    rteAclTableAddRules acl s ctx g =
      some (⟨ctx.maxRuleNum, ctx.rules ++ tableRules s g⟩, (tableRules s g).length) := by
  have hle : (mappedRules s g false).length ≤ MAX_TUPLE4_RULE_PER_GROUP :=
    length_mappedRules_le s g false
  have hfirst : ctx.rules.length + tupleBitmapGetTotalCnt false ≤ ctx.maxRuleNum := by
    simp only [MAX_RULE_PER_GROUP, tupleBitmapGetTotalCnt, Bool.false_eq_true, if_false] at *
    omega
  have hsecond : (ctx.rules ++ (mappedRules s g false).map (tupleRteRule s g false)).length +
      tupleBitmapGetTotalCnt true ≤ ctx.maxRuleNum := by
    simp only [MAX_RULE_PER_GROUP, tupleBitmapGetTotalCnt, if_true, List.length_append,
      List.length_map] at *
    omega
  rw [rteAclTableAddRules, stored.foldlM_innerRules acl false _ hfirst]
  change (innerRules true).foldlM (addTupleRule acl s g true) _ = _
  rw [stored.foldlM_innerRules acl true _ hsecond]
  simp only [tableRules, List.append_assoc, List.length_append, List.length_map, Nat.zero_add]

/-- The setup succeeds, and a packet is classified by the rules of both families. -/
theorem rteAclTableSetup_spec (acl : RteAcl) :
    ∃ context, rteAclTableSetup acl s g = some context ∧ ∀ wdata,
      sfAclEntryResult acl context wdata =
        acl.classify aclRteIpv46Defs (tableRules s g) wdata.bytes := by
  have hadd := stored.rteAclTableAddRules_spec acl
    ⟨MAX_TUPLE6_RULE_PER_GROUP + MAX_TUPLE4_RULE_PER_GROUP, []⟩ (by decide)
  rw [rteAclTableSetup, hadd]
  simp only [Option.bind_eq_bind, Option.bind_some, List.nil_append]
  split
  · next hzero =>
      rw [List.length_eq_zero_iff.mp hzero]
      exact ⟨none, rfl, fun _ => (acl.classify_none _ _ _ (by simp)).symm⟩
  · exact ⟨_, rfl, fun _ => rfl⟩

end Stored

/-! ## The selected rule -/

/-- The tuples in the metadata that the translation of a rule accepts. -/
def TupleRuleCfg.Accepts (c : TupleRuleCfg) (isIpv6 : Bool) (t : Tuple) : Prop :=
  if isIpv6 then c.Admits true t
  else t.sip % 2 ^ 96 = 0 ∧ t.dip % 2 ^ 96 = 0 ∧
    c.Admits false { t with sip := t.sip / 2 ^ 96, dip := t.dip / 2 ^ 96 }

/-- The outer ids of the rules whose translation accepts a tuple. -/
def accepting (s : Conf) (g : Nat) (t : Tuple) : Set Nat :=
  {o | ∃ f a, s.ruleMap g o = ⟨.ofFamily f, a⟩ ∧ ((s.tuple g f).ruleCfg a).Accepts f t}

/-- The outer ids of the rules of a family whose configuration admits a tuple. -/
def admitting (s : Conf) (g : Nat) (f : Bool) (t : Tuple) : Set Nat :=
  {o | ∃ a, s.ruleMap g o = ⟨.ofFamily f, a⟩ ∧ ((s.tuple g f).ruleCfg a).Admits f t}

namespace Stored

theorem tupleRteRule_matches (stored : Stored env s g) (pton : InetPtonLength env)
    (hmap : s.ruleMap g o = ⟨.ofFamily f, a⟩) (w : SfWdata) :
    (tupleRteRule s g f a).Matches aclRteIpv46Defs w.bytes ↔
      ((s.tuple g f).ruleCfg a).Accepts f w.tuple := by
  have hfits := (stored.passed o f a hmap).fits pton
  cases f with
  | true => exact tuple6_matches hfits w rfl
  | false => exact tuple4_matches hfits w rfl

/-- The rules of the table that match, by outer id. -/
theorem mem_accepting (stored : Stored env s g) (pton : InetPtonLength env) (w : SfWdata) :
    o ∈ accepting s g w.tuple ↔
      ∃ r ∈ tableRules s g, r.Matches aclRteIpv46Defs w.bytes ∧ r.userdata = o := by
  constructor
  · rintro ⟨f, a, hmap, haccepts⟩
    have hmem : a ∈ mappedRules s g f := stored.mem_mappedRules.mpr ⟨o, hmap⟩
    refine ⟨tupleRteRule s g f a, ?_, (stored.tupleRteRule_matches pton hmap w).mpr haccepts, ?_⟩
    · cases f with
      | false => exact List.mem_append_left _ (List.mem_map_of_mem hmem)
      | true => exact List.mem_append_right _ (List.mem_map_of_mem hmem)
    · simp only [tupleRteRule, (stored.forward o f a hmap).2.2.2.2]
  · rintro ⟨r, hr, hmatches, rfl⟩
    have hsome : ∃ f, ∃ a ∈ mappedRules s g f, tupleRteRule s g f a = r :=
      (List.mem_append.mp hr).elim (fun h => ⟨false, List.mem_map.mp h⟩)
        fun h => ⟨true, List.mem_map.mp h⟩
    obtain ⟨f, a, ha, rfl⟩ := hsome
    obtain ⟨o, hmap⟩ := stored.mem_mappedRules.mp ha
    have huser : (tupleRteRule s g f a).userdata = o := by
      simp only [tupleRteRule, (stored.forward o f a hmap).2.2.2.2]
    rw [huser]
    exact ⟨f, a, hmap, (stored.tupleRteRule_matches pton hmap w).mp hmatches⟩

theorem priority_eq {r : Acl46RuleCfg} (hr : r ∈ tableRules s g) :
    r.priority = sfRteRulePriority r.userdata := by
  rcases List.mem_append.mp hr with h | h
  · obtain ⟨a, -, rfl⟩ := List.mem_map.mp h
    rfl
  · obtain ⟨a, -, rfl⟩ := List.mem_map.mp h
    rfl

/-- The highest priority is the smallest outer id. -/
theorem classify_isLeast (stored : Stored env s g) (pton : InetPtonLength env) (acl : RteAcl)
    (w : SfWdata) :
    IsLeast (accepting s g w.tuple) (acl.classify aclRteIpv46Defs (tableRules s g) w.bytes) ∨
      accepting s g w.tuple = ∅ ∧
        acl.classify aclRteIpv46Defs (tableRules s g) w.bytes = 0 := by
  by_cases hsome : ∃ r ∈ tableRules s g, r.Matches aclRteIpv46Defs w.bytes
  · left
    obtain ⟨r, hr, hmatches, hhighest, hresult⟩ := acl.classify_highest _ _ _ hsome
    rw [hresult]
    refine ⟨(stored.mem_accepting pton w).mpr ⟨r, hr, hmatches, rfl⟩, fun o ho => ?_⟩
    obtain ⟨r', hr', hmatches', rfl⟩ := (stored.mem_accepting pton w).mp ho
    have hle := hhighest r' hr' hmatches'
    rw [priority_eq hr, priority_eq hr', sfRteRulePriority, sfRteRulePriority] at hle
    omega
  · right
    have hnone : ∀ r ∈ tableRules s g, ¬r.Matches aclRteIpv46Defs w.bytes :=
      fun r hr hmatches => hsome ⟨r, hr, hmatches⟩
    refine ⟨Set.eq_empty_of_forall_notMem fun o ho => ?_, acl.classify_none _ _ _ hnone⟩
    obtain ⟨r, hr, hmatches, -⟩ := (stored.mem_accepting pton w).mp ho
    exact hnone r hr hmatches

end Stored

/-- In the metadata of a packet, a rule of the packet's family accepts what it admits. -/
theorem accepts_wdata (c : TupleRuleCfg) (p : Packet) (cachelineBytes : Vector UInt8 64) :
    c.Accepts p.isIpv6 (p.wdata cachelineBytes).tuple ↔ c.Admits p.isIpv6 p.tuple := by
  rw [p.wdata_tuple]
  cases h : p.isIpv6 with
  | true => simp [TupleRuleCfg.Accepts]
  | false => simp [TupleRuleCfg.Accepts]

/-- With rules of one family only, a packet of that family gets the smallest outer id whose
configuration admits it, and 0 when none does. -/
theorem classified_exactly (acl : RteAcl) (pton : InetPtonLength env) (stored : Stored env s g)
    (hfamily : ∀ o f' a, s.ruleMap g o = ⟨.ofFamily f', a⟩ → f' = f) (p : Packet)
    (hp : p.isIpv6 = f) (cachelineBytes : Vector UInt8 64) :
    ∃ context, rteAclTableSetup acl s g = some context ∧
      (IsLeast (admitting s g f p.tuple)
          (sfAclEntryResult acl context (p.wdata cachelineBytes)) ∨
        admitting s g f p.tuple = ∅ ∧
          sfAclEntryResult acl context (p.wdata cachelineBytes) = 0) := by
  obtain ⟨context, hsetup, hresult⟩ := stored.rteAclTableSetup_spec acl
  refine ⟨context, hsetup, ?_⟩
  have hsame : accepting s g (p.wdata cachelineBytes).tuple = admitting s g f p.tuple := by
    ext o
    constructor
    · rintro ⟨f', a, hmap, haccepts⟩
      obtain rfl := hfamily o f' a hmap
      subst hp
      exact ⟨a, hmap, (accepts_wdata _ p cachelineBytes).mp haccepts⟩
    · rintro ⟨a, hmap, hadmits⟩
      subst hp
      exact ⟨p.isIpv6, a, hmap, (accepts_wdata _ p cachelineBytes).mpr hadmits⟩
  rw [hresult, ← hsame]
  exact stored.classify_isLeast pton acl _

/-- A call maps rules of the family of its configuration. -/
theorem TryMap.family {ruleCfg : RuleCfg} {ret : Int} (h : TryMap env s g o ruleCfg s' ret)
    (hs : ∀ o f a, s.ruleMap g o = ⟨.ofFamily f, a⟩ → f = decide (ruleCfg.isIpv6 ≠ 0)) :
    ∀ o f a, s'.ruleMap g o = ⟨.ofFamily f, a⟩ → f = decide (ruleCfg.isIpv6 ≠ 0) := by
  have hunmapped {t t' : Conf} (hunmap : Unmap env t g o t') (ht : t.ruleMap = s.ruleMap)
      (o' : Nat) (f : Bool) (a : Nat) (hmap : t'.ruleMap g o' = ⟨.ofFamily f, a⟩) :
      f = decide (ruleCfg.isIpv6 ≠ 0) := by
    cases hunmap with
    | free => exact hs o' f a (by rwa [← ht])
    | mapped =>
        rw [unmapRule_ruleMap] at hmap
        split at hmap
        · exact absurd (RuleMap.mk.inj hmap).1.symm (ofFamily_ne_none f)
        · exact hs o' f a (by rwa [← ht])
  have hlinked {t : Conf} {b : Nat} (ht : ∀ o' f a, t.ruleMap g o' = ⟨.ofFamily f, a⟩ →
      f = decide (ruleCfg.isIpv6 ≠ 0)) (o' : Nat) (f : Bool) (a : Nat)
      (hmap : (linkRule env t g o (decide (ruleCfg.isIpv6 ≠ 0)) b).ruleMap g o' =
        ⟨.ofFamily f, a⟩) : f = decide (ruleCfg.isIpv6 ≠ 0) := by
    rw [linkRule_ruleMap] at hmap
    split at hmap
    · exact (ofFamily_inj (RuleMap.mk.inj hmap).1).symm
    · exact ht o' f a hmap
  cases h with
  | found => exact hs
  | reused _ _ _ hunmap _ => exact hlinked (hunmapped hunmap rfl)
  | created _ _ _ hunmap _ => exact hlinked (hunmapped hunmap rfl)

theorem sampleInetPton_length : InetPtonLength sampleEnv := by
  intro isIpv6 src dst h
  simp only [sampleEnv, sampleInetPton] at h
  split at h
  · cases h
  · next hv4 =>
      rw [if_neg hv4]
      split at h
      · exact Option.some.inj h ▸ rfl
      · split at h
        · exact Option.some.inj h ▸ rfl
        · split at h
          · exact Option.some.inj h ▸ rfl
          · cases h

/-- A UDP packet between the two hosts of `ruleA`. -/
def samplePacket : Packet where
  ip := .v4 #v[10, 0, 0, 1] #v[10, 0, 0, 2]
  offset := 14
  protocol := 17
  headerLen := 20
  payloadLen := 8
  isFrag := 0
  l4 := some ⟨34, #v[0x12, 0x34], #v[0, 53], 8⟩

/-- A step that maps a rule leaves only rules of its family in a group that had no others. -/
theorem Step.family {ruleCfg : RuleCfg} {ret : Int} {s s' : Conf} (inv : MapInv s)
    (h : Step env s (.tryMap g o ruleCfg true, ret) s')
    (hs : ∀ o f a, s.ruleMap g o = ⟨.ofFamily f, a⟩ → f = decide (ruleCfg.isIpv6 ≠ 0)) :
    ∀ o f a, s'.ruleMap g o = ⟨.ofFamily f, a⟩ → f = decide (ruleCfg.isIpv6 ≠ 0) := by
  obtain ⟨fuel, hrun⟩ := h
  rcases tupleTryMapNewRule_cases inv.ruleMapOk hrun with ⟨rfl, -⟩ | ⟨g', o', hg, -, -, -, -, htry⟩
  · exact hs
  · obtain rfl : g' = g := by omega
    exact htry.family hs

/-- All traffic between the networks of the two hosts. -/
def wideRule : RuleCfg := { ruleA with sipMask := 24, dipMask := 16 }

def narrowStore : Conf := Call.after sampleEnv 2 (Conf.empty 0 0) (.tryMap 1 5 ruleA true)

/-- Rule 5 is mapped first, and rule 2 admits more than it. -/
def overlapStore : Conf := Call.after sampleEnv 2 narrowStore (.tryMap 1 2 wideRule true)

theorem narrowStore_step :
    Step sampleEnv (Conf.empty 0 0) (.tryMap 1 5 ruleA true, 0) narrowStore :=
  Step.after 2 (by decide +kernel)

theorem overlapStore_step :
    Step sampleEnv narrowStore (.tryMap 1 2 wideRule true, 0) overlapStore :=
  Step.after 2 (by decide +kernel)

theorem overlapStore_run : Run (Step sampleEnv) (Conf.empty 0 0)
    [(.tryMap 1 5 ruleA true, 0), (.tryMap 1 2 wideRule true, 0)] overlapStore :=
  .cons narrowStore_step (.cons overlapStore_step (.refl _))

theorem classified_exactly_sample :
    2 ∈ admitting overlapStore 1 false samplePacket.tuple ∧
      5 ∈ admitting overlapStore 1 false samplePacket.tuple ∧
      ∃ context, rteAclTableSetup sampleRteAcl overlapStore 1 = some context ∧
        (IsLeast (admitting overlapStore 1 false samplePacket.tuple)
            (sfAclEntryResult sampleRteAcl context (samplePacket.wdata (.replicate 64 0))) ∨
          admitting overlapStore 1 false samplePacket.tuple = ∅ ∧
            sfAclEntryResult sampleRteAcl context (samplePacket.wdata (.replicate 64 0)) = 0) := by
  have hempty (o : Nat) (f : Bool) (a : Nat)
      (hmap : (Conf.empty 0 0).ruleMap 1 o = ⟨.ofFamily f, a⟩) : f = false :=
    absurd (RuleMap.mk.inj hmap).1.symm (ofFamily_ne_none f)
  have hv4 : decide (ruleA.isIpv6 ≠ 0) = false ∧ decide (wideRule.isIpv6 ≠ 0) = false := by
    decide
  have hnarrow := narrowStore_step.family (g := 1) (o := 5) (MapInv.empty 0 0) (by rwa [hv4.1])
  rw [hv4.1, ← hv4.2] at hnarrow
  have hfamily := overlapStore_step.family (g := 1) (o := 2)
    ((MapInv.empty 0 0).step narrowStore_step) hnarrow
  rw [hv4.2] at hfamily
  have htwo : overlapStore.ruleMap 1 2 = ⟨.ofFamily false, 2⟩ ∧
      ((overlapStore.tuple 1 false).ruleCfg 2).Admits false samplePacket.tuple := by
    decide +kernel
  have hfive : overlapStore.ruleMap 1 5 = ⟨.ofFamily false, 1⟩ ∧
      ((overlapStore.tuple 1 false).ruleCfg 1).Admits false samplePacket.tuple := by
    decide +kernel
  exact ⟨⟨2, htwo⟩, ⟨1, hfive⟩, classified_exactly sampleRteAcl sampleInetPton_length
    (.of_run sampleInetPton_length overlapStore_run 1) hfamily samplePacket rfl _⟩

/-! ## The other family -/

/-- A rule of the other family accepts a packet: a tuple6 rule one that has the addresses of the
packet followed by zeros under its prefixes, a tuple4 rule one whose addresses end with 96 zero
bits and begin with addresses that it admits. -/
def TupleRuleCfg.Crosses (c : TupleRuleCfg) (p : Packet) : Prop :=
  if p.isIpv6 then p.tuple.sip % 2 ^ 96 = 0 ∧ p.tuple.dip % 2 ^ 96 = 0 ∧
    c.Admits false { p.tuple with sip := p.tuple.sip / 2 ^ 96, dip := p.tuple.dip / 2 ^ 96 }
  else c.Admits true { p.tuple with sip := p.tuple.sip * 2 ^ 96, dip := p.tuple.dip * 2 ^ 96 }

instance (c : TupleRuleCfg) (p : Packet) : Decidable (c.Crosses p) := by
  unfold TupleRuleCfg.Crosses
  infer_instance

/-- The outer ids of the rules of the other family that accept a packet. -/
def crossing (s : Conf) (g : Nat) (p : Packet) : Set Nat :=
  {o | ∃ a, s.ruleMap g o = ⟨.ofFamily !p.isIpv6, a⟩ ∧
    ((s.tuple g !p.isIpv6).ruleCfg a).Crosses p}

theorem crosses_wdata (c : TupleRuleCfg) (p : Packet) (cachelineBytes : Vector UInt8 64) :
    c.Accepts (!p.isIpv6) (p.wdata cachelineBytes).tuple ↔ c.Crosses p := by
  rw [p.wdata_tuple]
  cases h : p.isIpv6 with
  | true => simp [TupleRuleCfg.Accepts, TupleRuleCfg.Crosses, h]
  | false => simp [TupleRuleCfg.Accepts, TupleRuleCfg.Crosses, h]

theorem accepting_eq (s : Conf) (g : Nat) (p : Packet) (cachelineBytes : Vector UInt8 64) :
    accepting s g (p.wdata cachelineBytes).tuple =
      admitting s g p.isIpv6 p.tuple ∪ crossing s g p := by
  ext o
  constructor
  · rintro ⟨f, a, hmap, haccepts⟩
    by_cases hf : f = p.isIpv6
    · subst hf
      exact .inl ⟨a, hmap, (accepts_wdata _ p cachelineBytes).mp haccepts⟩
    · rw [← ne_eq, ← Bool.eq_not] at hf
      subst hf
      exact .inr ⟨a, hmap, (crosses_wdata _ p cachelineBytes).mp haccepts⟩
  · rintro (⟨a, hmap, hadmits⟩ | ⟨a, hmap, hcrosses⟩)
    · exact ⟨p.isIpv6, a, hmap, (accepts_wdata _ p cachelineBytes).mpr hadmits⟩
    · exact ⟨!p.isIpv6, a, hmap, (crosses_wdata _ p cachelineBytes).mpr hcrosses⟩

/-- A packet gets no rule of the other family if and only if every rule of the other family that
accepts it comes after a rule of its own family that admits it. -/
theorem families_apart_iff (acl : RteAcl) (pton : InetPtonLength env) (stored : Stored env s g)
    (p : Packet) (cachelineBytes : Vector UInt8 64) :
    ∃ context, rteAclTableSetup acl s g = some context ∧
      ((∀ a, s.ruleMap g (sfAclEntryResult acl context (p.wdata cachelineBytes)) ≠
          ⟨.ofFamily !p.isIpv6, a⟩) ↔
        ∀ o ∈ crossing s g p, ∃ o' ∈ admitting s g p.isIpv6 p.tuple, o' < o) := by
  obtain ⟨context, hsetup, hresult⟩ := stored.rteAclTableSetup_spec acl
  refine ⟨context, hsetup, ?_⟩
  have hleast := stored.classify_isLeast pton acl (p.wdata cachelineBytes)
  rw [accepting_eq] at hleast
  rw [hresult]
  generalize acl.classify aclRteIpv46Defs (tableRules s g) (p.wdata cachelineBytes).bytes = r
    at hleast ⊢
  constructor
  · intro happart o ho
    rcases hleast with ⟨hmem, hlower⟩ | ⟨hempty, -⟩
    · rcases hmem with hown | ⟨a, hmap, -⟩
      · refine ⟨r, hown, lt_of_le_of_ne (hlower (.inr ho)) ?_⟩
        rintro rfl
        obtain ⟨a, hmap, -⟩ := ho
        exact happart a hmap
      · exact absurd hmap (happart a)
    · exact absurd (.inr ho : o ∈ _ ∪ crossing s g p) (hempty ▸ Set.notMem_empty o)
  · intro hbefore a hmap
    rcases hleast with ⟨hmem, hlower⟩ | ⟨-, hzero⟩
    · rcases hmem with ⟨a', hmap', -⟩ | hcross
      · have htype := (RuleMap.mk.inj (hmap.symm.trans hmap')).1
        exact Bool.not_ne_self _ (ofFamily_inj htype)
      · obtain ⟨o', ho', hlt⟩ := hbefore r hcross
        exact absurd (hlower (.inl ho')) (Nat.not_le.mpr hlt)
    · exact (stored.forward r _ a hmap).1 hzero

/-- A library that knows the address `::` besides. -/
def anyEnv : Env where
  getHashIndexNshell := sfCrc32Gen
  inetPton isIpv6 address :=
    if isIpv6 then if address = "::" then some (List.replicate 16 0) else none
    else sampleInetPton false address

/-- All IPv6 traffic. -/
def anyRule6 : RuleCfg := ⟨1, 0, 65535, 0, 65535, 0, 255, "::", 0, "::", 0⟩

theorem anyEnv_inetPtonLength : InetPtonLength anyEnv := by
  intro isIpv6 src dst h
  cases isIpv6 with
  | false => exact sampleInetPton_length false src dst h
  | true =>
      simp only [anyEnv, if_true] at h
      split at h
      · exact Option.some.inj h ▸ rfl
      · cases h

/-- A tuple4 rule, and behind it the rule for all IPv6 traffic. -/
def bothStore : Conf :=
  Call.after anyEnv 2 (Call.after anyEnv 2 (Conf.empty 0 0) (.tryMap 1 1 ruleA true))
    (.tryMap 1 4 anyRule6 true)

theorem families_apart_iff_sample :
    4 ∈ crossing bothStore 1 samplePacket ∧ 1 ∈ admitting bothStore 1 false samplePacket.tuple ∧
      ∃ context, rteAclTableSetup sampleRteAcl bothStore 1 = some context ∧
        ((∀ a, bothStore.ruleMap 1 (sfAclEntryResult sampleRteAcl context
              (samplePacket.wdata (.replicate 64 0))) ≠ ⟨.ofFamily true, a⟩) ↔
          ∀ o ∈ crossing bothStore 1 samplePacket,
            ∃ o' ∈ admitting bothStore 1 false samplePacket.tuple, o' < o) := by
  have hrun : Run (Step anyEnv) (Conf.empty 0 0)
      [(.tryMap 1 1 ruleA true, 0), (.tryMap 1 4 anyRule6 true, 0)] bothStore :=
    .cons (Step.after 2 (by decide +kernel)) (.cons (Step.after 2 (by decide +kernel)) (.refl _))
  have hcrosses : bothStore.ruleMap 1 4 = ⟨.ofFamily true, 1⟩ ∧
      ((bothStore.tuple 1 true).ruleCfg 1).Crosses samplePacket := by
    decide +kernel
  have hadmits : bothStore.ruleMap 1 1 = ⟨.ofFamily false, 1⟩ ∧
      ((bothStore.tuple 1 false).ruleCfg 1).Admits false samplePacket.tuple := by
    decide +kernel
  exact ⟨⟨1, hcrosses⟩, ⟨1, hadmits⟩, families_apart_iff sampleRteAcl anyEnv_inetPtonLength
    (.of_run anyEnv_inetPtonLength hrun 1) samplePacket _⟩

/-- A rule for all IPv6 traffic is the result of an IPv4 packet. -/
theorem ipv4_gets_tuple6 : ∃ s,
    Run (Step anyEnv) (Conf.empty 0 0) [(.tryMap 1 1 anyRule6 true, 0)] s ∧
      s.ruleMap 1 1 = ⟨.ofFamily true, 1⟩ ∧ samplePacket.isIpv6 = false ∧
      ∀ acl cachelineBytes, ∃ context, rteAclTableSetup acl s 1 = some context ∧
        sfAclEntryResult acl context (samplePacket.wdata cachelineBytes) = 1 := by
  have hrun : Run (Step anyEnv) (Conf.empty 0 0) [(.tryMap 1 1 anyRule6 true, 0)]
      (Call.after anyEnv 2 (Conf.empty 0 0) (.tryMap 1 1 anyRule6 true)) :=
    .cons (Step.after 2 (by decide +kernel)) (.refl _)
  have stored := Stored.of_run anyEnv_inetPtonLength hrun 1
  have hmap : (Call.after anyEnv 2 (Conf.empty 0 0) (.tryMap 1 1 anyRule6 true)).ruleMap 1 1 =
      ⟨.ofFamily true, 1⟩ := by
    decide +kernel
  have hcfg : ((Call.after anyEnv 2 (Conf.empty 0 0) (.tryMap 1 1 anyRule6 true)).tuple 1
      true).ruleCfg 1 = tupleCfg anyEnv anyRule6 := by
    decide +kernel
  refine ⟨_, hrun, hmap, rfl, fun acl cachelineBytes => ?_⟩
  obtain ⟨context, hsetup, hresult⟩ := stored.rteAclTableSetup_spec acl
  refine ⟨context, hsetup, ?_⟩
  have hone : 1 ∈ accepting (Call.after anyEnv 2 (Conf.empty 0 0) (.tryMap 1 1 anyRule6 true)) 1
      (samplePacket.wdata cachelineBytes).tuple := by
    rw [accepting_eq]
    refine .inr ⟨1, hmap, ?_⟩
    change TupleRuleCfg.Crosses (((Call.after anyEnv 2 (Conf.empty 0 0)
      (.tryMap 1 1 anyRule6 true)).tuple 1 true).ruleCfg 1) samplePacket
    rw [hcfg]
    decide +kernel
  rw [hresult]
  rcases stored.classify_isLeast anyEnv_inetPtonLength acl (samplePacket.wdata cachelineBytes) with
    ⟨⟨f, a, hleast, -⟩, hlower⟩ | ⟨hempty, -⟩
  · have hpos := (stored.forward _ f a hleast).1
    have hle := hlower hone
    omega
  · exact absurd hone (hempty ▸ Set.notMem_empty 1)

end Tapplet.Acl
