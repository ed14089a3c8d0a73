import Tapplet.Acl.Duplicates
import Tapplet.Acl.Undo

/-!
# Searches that end

`acl_hash_find` follows a chain until it reaches 0. The release of a rule never changes a
forward link, so it can only cut chains off; the insertion of a rule links it to the first
rule of its chain. If the rule still hangs in that chain from an earlier use, the chain is
closed to a cycle. That is the only way a search can lose its end.
-/

namespace Tapplet.Acl

open Transition Linked

variable {env : Env} {s s' t : Conf} {g o a total : Nat} {f : Bool} {ruleCfg : RuleCfg}

/-- The walk of `acl_hash_find` along the chain of every key reaches 0, after at most as many
steps as there are inner rule ids. -/
def LookupEnds (env : Env) (s : Conf) : Prop :=
  ∀ g f key, aclHashFindLoop (s.tuple g f).hash.node (fun _ => false) (tupleBitmapGetTotalCnt f)
    ((s.tuple g f).hash.bucket
      (aclHashIndex env key (tupleRuleHashBucketCnt f))).hashNextRule = some 0

/-- The start of the chain of a bucket. -/
def TupleHash.first (h : TupleHash) (i : Nat) : Option Nat := ptr (h.bucket i).hashNextRule

/-- The chain of every key ends. -/
def TupleTable.Acyclic (env : Env) (f : Bool) (t : TupleTable) : Prop :=
  ∀ key, Ends t.hash.nextOf (t.hash.first (aclHashIndex env key (tupleRuleHashBucketCnt f)))

/-! ## The walk -/

/-- The walk reaches 0 along a null-terminated chain that is short enough, and only there. -/
theorem aclHashFindLoop_eq_zero {h : TupleHash} {fuel p : Nat} :
    aclHashFindLoop h.node (fun _ => false) fuel p = some 0 ↔
      ∃ xs, Seg h.nextOf (ptr p) xs none ∧ xs.length ≤ fuel := by
  constructor
  · intro hwalk
    induction fuel generalizing p with
    | zero =>
        cases p with
        | zero => exact ⟨[], rfl, Nat.zero_le _⟩
        | succ p => simp [aclHashFindLoop] at hwalk
    | succ fuel ih =>
        cases p with
        | zero => exact ⟨[], rfl, Nat.zero_le _⟩
        | succ p =>
            obtain ⟨xs, hxs, hlen⟩ := ih (by simpa [aclHashFindLoop] using hwalk)
            exact ⟨(p + 1) :: xs, ⟨rfl, hxs⟩, Nat.succ_le_succ hlen⟩
  · rintro ⟨xs, hxs, hlen⟩
    induction xs generalizing p fuel with
    | nil =>
        obtain rfl := ptr_eq_none.mp hxs
        cases fuel <;> rfl
    | cons x xs ih =>
        obtain ⟨hp, hxs⟩ := hxs
        obtain ⟨hne, rfl⟩ := ptr_eq_some.mp hp
        obtain ⟨p, rfl⟩ := Nat.exists_eq_succ_of_ne_zero hne
        cases fuel with
        | zero => simp at hlen
        | succ fuel => simpa [aclHashFindLoop] using ih hxs (by simpa using hlen)

/-- A walk that reaches 0 bounds every search along the chain. -/
theorem aclHashFindLoop_isSome {node : Nat → HashNode} {cmp : Nat → Bool} {fuel p : Nat}
    (hwalk : aclHashFindLoop node (fun _ => false) fuel p = some 0) :
    ∃ r, aclHashFindLoop node cmp fuel p = some r := by
  induction fuel generalizing p with
  | zero =>
      cases p with
      | zero => exact ⟨0, rfl⟩
      | succ p => simp [aclHashFindLoop] at hwalk
  | succ fuel ih =>
      cases p with
      | zero => exact ⟨0, rfl⟩
      | succ p =>
          simp only [aclHashFindLoop]
          split
          next => exact ⟨p + 1, rfl⟩
          next => exact ih (by simpa [aclHashFindLoop] using hwalk)

/-- Where the walks end, so does every search of the hash, for whatever it compares. -/
theorem LookupEnds.aclHashFind (h : LookupEnds env s) (g : Nat) (f : Bool) (key : List UInt8)
    (cmp : Nat → Bool) : ∃ r, aclHashFind env (tupleBitmapGetTotalCnt f) (s.tuple g f).hash
      (tupleRuleHashBucketCnt f) key cmp = some r := by
  simp only [Acl.aclHashFind]
  split
  next => exact ⟨0, rfl⟩
  next => exact aclHashFindLoop_isSome (h g f key)

/-- A chain of ids of the table is no longer than the table. -/
theorem LinksIn.length_le {h : TupleHash} {p : Nat} {xs : List Nat} (links : LinksIn total h)
    (hp : p ≤ total) (hxs : Seg h.nextOf (ptr p) xs none) : xs.length ≤ total := by
  have hmem : ∀ {xs p}, p ≤ total → Seg h.nextOf (ptr p) xs none →
      ∀ x ∈ xs, x ∈ List.range' 1 total := by
    intro xs
    induction xs with
    | nil => simp
    | cons x xs ih =>
        intro p hp hxs y hy
        obtain ⟨hne, rfl⟩ := ptr_eq_some.mp hxs.1
        obtain rfl | hy := List.mem_cons.mp hy
        · exact List.mem_range'_1.mpr ⟨Nat.pos_of_ne_zero hne, by omega⟩
        · exact ih (links.node p).1 hxs.2 y hy
  have hsub := (List.subperm_of_subset hxs.nodup (hmem hp hxs)).length_le
  rwa [List.length_range'] at hsub

theorem MapInv.lookupEnds_iff (inv : MapInv s) :
    LookupEnds env s ↔ ∀ g f, (s.tuple g f).Acyclic env f := by
  constructor
  · intro h g f key
    obtain ⟨xs, hxs, -⟩ := aclHashFindLoop_eq_zero.mp (h g f key)
    exact ⟨xs, hxs⟩
  · intro h g f key
    obtain ⟨xs, hxs⟩ := h g f key
    have links := inv.links g f
    exact aclHashFindLoop_eq_zero.mpr ⟨xs, hxs, links.length_le (links.bucket _) hxs⟩

/-! ## What the two changes do to the chains -/

theorem aclHashInsert_nextOf (h : TupleHash) (cnt : Nat) (key : List UInt8) :
    (aclHashInsert env h cnt key a).nextOf =
      Function.update h.nextOf a (h.first (aclHashIndex env key cnt)) := by
  funext x
  rw [Function.update_apply]
  show ptr _ = _
  rw [aclHashInsert_next]
  split <;> rfl

theorem aclHashInsert_first (h : TupleHash) (cnt : Nat) (key : List UInt8) (ha : a ≠ 0) (i : Nat) :
    (aclHashInsert env h cnt key a).first i =
      if i = aclHashIndex env key cnt then some a else h.first i := by
  show ptr _ = _
  rw [aclHashInsert_bucket]
  split
  · exact ptr_of_ne ha
  · rfl

theorem aclHashFree_first (h : TupleHash) (cnt : Nat) (key : List UInt8) (i : Nat) :
    (aclHashFree env h cnt key a).first i =
      if (h.node a).hashPrev = 0 ∧ i = aclHashIndex env key cnt then none else h.first i := by
  show ptr _ = _
  by_cases hi : i = aclHashIndex env key cnt
  · subst hi
    rw [aclHashFree_bucket]
    split
    next hprev => rw [if_pos ⟨hprev, rfl⟩]; rfl
    next hprev => rw [if_neg fun h => hprev h.1]; rfl
  · rw [aclHashFree_bucket_of_ne _ _ _ hi, if_neg fun h => hi h.2]
    rfl

namespace TupleTable

variable {t : TupleTable}

/-- A release only cuts chains off. -/
theorem Acyclic.unmapped (h : t.Acyclic env f) (a : Nat) : (t.unmapped env f a).Acyclic env f := by
  intro key
  have hnext : (t.unmapped env f a).hash.nextOf = t.hash.nextOf :=
    funext fun x => aclHashFree_nextOf _ _ _ x
  rw [hnext, TupleTable.unmapped, aclHashFree_first]
  split
  · exact Ends.none
  · exact h key

/-- An insertion keeps the chains ending exactly when the rule does not hang in its chain. -/
theorem Acyclic.linked_iff (h : t.Acyclic env f) (ha : a ≠ 0) :
    (t.linked env f g o a).Acyclic env f ↔
      ¬Reaches t.hash.nextOf (t.hash.first (ruleIndex env f t a)) a := by
  have hnext : (t.linked env f g o a).hash.nextOf =
      Function.update t.hash.nextOf a (t.hash.first (ruleIndex env f t a)) :=
    aclHashInsert_nextOf _ _ _
  have hfirst : ∀ i, (t.linked env f g o a).hash.first i =
      if i = ruleIndex env f t a then some a else t.hash.first i :=
    aclHashInsert_first _ _ _ ha
  constructor
  · intro hlinked hreach
    have hend : Ends (t.linked env f g o a).hash.nextOf
        ((t.linked env f g o a).hash.first (ruleIndex env f t a)) := hlinked _
    rw [hnext, hfirst, if_pos rfl] at hend
    exact hreach.not_ends (h _) hend
  · intro hreach key
    rw [hnext, hfirst]
    split
    · obtain ⟨xs, hxs⟩ := h (t.ruleCfg a).bytes
      exact ⟨a :: xs, hxs.push (mt hxs.mem_iff_reaches.mp hreach)⟩
    · exact (h key).relink (h _) hreach

end TupleTable

/-! ## The call that closes a cycle -/

/-- A mapping call takes inner rule `a`: the one that the search finds when no outer rule uses
it, the first unused one when the search finds none. -/
def Takes (env : Env) (s : Conf) (g : Nat) (ruleCfg : RuleCfg) (a : Nat) : Prop :=
  a ≠ 0 ∧ ∃ b, Finds env s g ruleCfg b ∧
    if b = 0 then tupleBitmapGetFirstUnused s g (decide (ruleCfg.isIpv6 ≠ 0)) = a
    else b = a ∧ tupleHashFindOuter s g b (decide (ruleCfg.isIpv6 ≠ 0)) = 0

/-- The bucket of a configuration. -/
def cfgIndex (env : Env) (ruleCfg : RuleCfg) : Nat :=
  aclHashIndex env (tupleCfg env ruleCfg).bytes
    (tupleRuleHashBucketCnt (decide (ruleCfg.isIpv6 ≠ 0)))

/-- The release of the rule that `o` is mapped to empties the bucket of the configuration. -/
def Empties (env : Env) (s : Conf) (g o : Nat) (ruleCfg : RuleCfg) : Prop :=
  let t := s.tuple g (decide (ruleCfg.isIpv6 ≠ 0))
  ∃ x, s.ruleMap g o = ⟨.ofFamily (decide (ruleCfg.isIpv6 ≠ 0)), x⟩ ∧
    (t.hash.node x).hashPrev = 0 ∧
    cfgIndex env ruleCfg = ruleIndex env (decide (ruleCfg.isIpv6 ≠ 0)) t x

/-- The call takes an inner rule that still hangs in the chain it is inserted into. -/
inductive Relinks (env : Env) (s : Conf) : Call → Prop where
  | tryMap {g o : Nat} {ruleCfg checkOld a} (hid : ValidIds g o)
      (hold : checkOld = true → s.ruleMap g o = ⟨.none, 0⟩)
      (hcheck : checkTupleRuleCfg env ruleCfg = 0) (htakes : Takes env s g ruleCfg a)
      (hreach : Reaches (s.tuple g (decide (ruleCfg.isIpv6 ≠ 0))).hash.nextOf
        ((s.tuple g (decide (ruleCfg.isIpv6 ≠ 0))).hash.first (cfgIndex env ruleCfg)) a)
      (hkept : ¬Empties env s g o ruleCfg) : Relinks env s (.tryMap g o ruleCfg checkOld)

theorem Relinks.inv {g o : Nat} {checkOld : Bool}
    (h : Relinks env s (.tryMap g o ruleCfg checkOld)) :
    ∃ a, Takes env s g ruleCfg a ∧
      Reaches (s.tuple g (decide (ruleCfg.isIpv6 ≠ 0))).hash.nextOf
        ((s.tuple g (decide (ruleCfg.isIpv6 ≠ 0))).hash.first (cfgIndex env ruleCfg)) a ∧
      ¬Empties env s g o ruleCfg := by
  generalize hcall : Call.tryMap (g : Int) (o : Int) ruleCfg checkOld = call at h
  cases h with
  | @tryMap g' o' _ _ a hid hold hcheck htakes hreach hkept =>
      obtain ⟨hg, ho, rfl, rfl⟩ := Call.tryMap.inj hcall
      obtain rfl := Int.ofNat.inj hg
      obtain rfl := Int.ofNat.inj ho
      exact ⟨a, htakes, hreach, hkept⟩

theorem Finds.unique {b : Nat} (ha : Finds env s g ruleCfg a) (hb : Finds env s g ruleCfg b) :
    a = b := by
  obtain ⟨fuel, ha⟩ := ha
  obtain ⟨fuel', hb⟩ := hb
  have hmore := tupleHashFindActual_mono ha fuel'
  have hmore' := tupleHashFindActual_mono hb fuel
  rw [Nat.add_comm, hmore] at hmore'
  exact Option.some.inj hmore'

theorem Takes.unique {b : Nat} (ha : Takes env s g ruleCfg a) (hb : Takes env s g ruleCfg b) :
    a = b := by
  obtain ⟨-, x, hx, hxa⟩ := ha
  obtain ⟨-, y, hy, hyb⟩ := hb
  obtain rfl := hx.unique hy
  split at hxa
  next hzero =>
    rw [if_pos hzero] at hyb
    exact hxa.symm.trans hyb
  next hzero =>
    rw [if_neg hzero] at hyb
    exact hxa.1.symm.trans hyb.1

/-- A mapping call that goes on from `s` to `t` has taken the inner rule `a`, may have written
the configuration to it, and has put it into its chain after the old rule was released. -/
structure Places (env : Env) (s : Conf) (g o : Nat) (ruleCfg : RuleCfg) (a : Nat)
    (s₁ s₂ t : Conf) : Prop where
  takes : Takes env s g ruleCfg a
  map : s₁.ruleMap = s.ruleMap
  hash : ∀ g f, (s₁.tuple g f).hash = (s.tuple g f).hash
  cfg : ∀ g f x, (s.tuple g f).InUse x → (s₁.tuple g f).ruleCfg x = (s.tuple g f).ruleCfg x
  bytes : ((s₁.tuple g (decide (ruleCfg.isIpv6 ≠ 0))).ruleCfg a).bytes =
    (tupleCfg env ruleCfg).bytes
  unmap : Unmap env s₁ g o s₂
  link : t = linkRule env s₂ g o (decide (ruleCfg.isIpv6 ≠ 0)) a

theorem TryMap.places {ret : Int} (inv : MapInv s) (hcheck : checkTupleRuleCfg env ruleCfg = 0)
    (h : TryMap env s g o ruleCfg t ret) :
    (t = s ∧ ∃ a o', Finds env s g ruleCfg a ∧ a ≠ 0 ∧
      tupleHashFindOuter s g a (decide (ruleCfg.isIpv6 ≠ 0)) = o' ∧ 0 < o' ∧
      ret = if o' = o then (0 : Int) else o') ∨
      ret = 0 ∧ ∃ a s₁ s₂, Places env s g o ruleCfg a s₁ s₂ t := by
  cases h with
  | @found a o' _ hfind hinner houter hpos hret =>
      exact .inl ⟨rfl, a, o', hfind, hinner, houter, hpos, hret⟩
  | @reused a s₂ _ hfind hinner houter hunmap hret =>
      refine .inr ⟨hret, a, s, s₂, ⟨hinner, a, hfind, ?_⟩, rfl, fun _ _ => rfl, fun _ _ _ _ => rfl,
        (inv.finds_le hcheck hfind hinner).2.symm, hunmap, rfl⟩
      rw [if_neg hinner]
      exact ⟨rfl, houter⟩
  | @created a s₂ _ hfind hunused hinner hunmap hret =>
      refine .inr
        ⟨hret, a, setCfg env s g ruleCfg a, s₂, ⟨hinner, 0, hfind, ?_⟩, rfl, fun g' f' => ?_,
        fun g' f' x hx => ?_, ?_, hunmap, rfl⟩
      · rw [if_pos rfl, hunused]
      · rw [setCfg_tuple]
      · obtain ⟨-, hclear⟩ := tupleBitmapGetFirstUnused_spec (hunused ▸ hinner)
        rw [hunused] at hclear
        rw [setCfg_tuple]
        dsimp only
        split
        next hsame =>
          obtain ⟨rfl, rfl⟩ := hsame
          refine Function.update_of_ne ?_ _ _
          rintro rfl
          have hused := (inv.bits _ _ _ hinner).mpr hx
          exact absurd (hused.symm.trans hclear) (by simp)
        next => rfl
      · rw [setCfg_tuple, if_pos ⟨rfl, rfl⟩]
        exact congrArg TupleRuleCfg.bytes (Function.update_self ..)

theorem Unmap.acyclic (h : Unmap env s g o s') (ends : ∀ g f, (s.tuple g f).Acyclic env f)
    (g' : Nat) (f' : Bool) : (s'.tuple g' f').Acyclic env f' := by
  cases h with
  | free => exact ends g' f'
  | @mapped f a hmap =>
      rw [unmapRule_tuple]
      split
      next hsame =>
        obtain ⟨rfl, rfl⟩ := hsame
        exact (ends g' f').unmapped a
      next => exact ends g' f'

/-- A release leaves what hangs in a chain, unless it empties the bucket. -/
theorem Unmap.reaches_iff (h : Unmap env s g o s') (f : Bool) (i : Nat) :
    Reaches (s'.tuple g f).hash.nextOf ((s'.tuple g f).hash.first i) a ↔
      Reaches (s.tuple g f).hash.nextOf ((s.tuple g f).hash.first i) a ∧
        ¬∃ x, s.ruleMap g o = ⟨.ofFamily f, x⟩ ∧ ((s.tuple g f).hash.node x).hashPrev = 0 ∧
          i = ruleIndex env f (s.tuple g f) x := by
  cases h with
  | free hmap =>
      refine (and_iff_left ?_).symm
      rintro ⟨x, hx, -⟩
      exact ofFamily_ne_none f (RuleMap.mk.inj (hmap.symm.trans hx)).1.symm
  | @mapped f' x hmap =>
      rw [unmapRule_tuple]
      by_cases hf : f = f'
      · subst hf
        have hnext : ((s.tuple g f).unmapped env f x).hash.nextOf = (s.tuple g f).hash.nextOf :=
          funext fun y => aclHashFree_nextOf _ _ _ y
        rw [if_pos ⟨rfl, rfl⟩, hnext, TupleTable.unmapped, aclHashFree_first]
        split
        next hempty =>
          refine iff_of_false not_reaches_none ?_
          rintro ⟨-, hkept⟩
          exact hkept ⟨x, hmap, hempty⟩
        next hempty =>
          refine (and_iff_left ?_).symm
          rintro ⟨y, hy, hprev, hi⟩
          obtain rfl := (RuleMap.mk.inj (hmap.symm.trans hy)).2
          exact hempty ⟨hprev, hi⟩
      · rw [if_neg fun h => hf h.2]
        refine (and_iff_left ?_).symm
        rintro ⟨y, hy, -⟩
        exact hf (ofFamily_inj (RuleMap.mk.inj (hy.symm.trans hmap)).1)

theorem Places.acyclic_iff {s₁ s₂ : Conf} (h : Places env s g o ruleCfg a s₁ s₂ t)
    (inv : MapInv s) (ends : ∀ g f, (s.tuple g f).Acyclic env f) :
    (∀ g f, (t.tuple g f).Acyclic env f) ↔
      ¬(Reaches (s.tuple g (decide (ruleCfg.isIpv6 ≠ 0))).hash.nextOf
          ((s.tuple g (decide (ruleCfg.isIpv6 ≠ 0))).hash.first (cfgIndex env ruleCfg)) a ∧
        ¬Empties env s g o ruleCfg) := by
  obtain ⟨htakes, hmap, hhash, hcfg, hbytes, hunmap, rfl⟩ := h
  have ends₁ (g : Nat) (f : Bool) : (s₁.tuple g f).Acyclic env f := by
    rw [TupleTable.Acyclic, hhash]
    exact ends g f
  have ends₂ := hunmap.acyclic ends₁
  obtain ⟨hcfg₂, -⟩ := DupInv.of_unmap hunmap g (decide (ruleCfg.isIpv6 ≠ 0))
  have hindex : ruleIndex env (decide (ruleCfg.isIpv6 ≠ 0))
      (s₂.tuple g (decide (ruleCfg.isIpv6 ≠ 0))) a = cfgIndex env ruleCfg := by
    rw [ruleIndex, hcfg₂, hbytes, cfgIndex]
  have hempties : Empties env s g o ruleCfg ↔
      ∃ x, s₁.ruleMap g o = ⟨.ofFamily (decide (ruleCfg.isIpv6 ≠ 0)), x⟩ ∧
        ((s₁.tuple g (decide (ruleCfg.isIpv6 ≠ 0))).hash.node x).hashPrev = 0 ∧
        cfgIndex env ruleCfg = ruleIndex env (decide (ruleCfg.isIpv6 ≠ 0))
          (s₁.tuple g (decide (ruleCfg.isIpv6 ≠ 0))) x := by
    refine exists_congr fun x => ?_
    rw [hmap, hhash]
    refine and_congr_right fun hx => ?_
    have hin := congrArg MapRule.outerIdValid (inv.forward _ _ _ _ hx).2.2.2
    rw [ruleIndex, ruleIndex, hcfg _ _ _ hin]
  have hlinked := (ends₂ g (decide (ruleCfg.isIpv6 ≠ 0))).linked_iff (g := g) (o := o) htakes.1
  rw [hindex, hunmap.reaches_iff, ← hempties, hhash] at hlinked
  rw [← hlinked]
  constructor
  · intro hall
    have hsame := hall g (decide (ruleCfg.isIpv6 ≠ 0))
    rwa [linkRule_tuple, if_pos ⟨rfl, rfl⟩] at hsame
  · intro hsame g' f'
    rw [linkRule_tuple]
    split
    next heq =>
      obtain ⟨rfl, rfl⟩ := heq
      exact hsame
    next => exact ends₂ g' f'

/-- A step keeps the chains ending exactly when it does not take a rule that still hangs in
the chain it is inserted into. -/
theorem MapInv.acyclic_step {e : Call × Int} (inv : MapInv s)
    (ends : ∀ g f, (s.tuple g f).Acyclic env f) (h : Step env s e t) :
    (∀ g f, (t.tuple g f).Acyclic env f) ↔ ¬Relinks env s e.1 := by
  obtain ⟨fuel, hrun⟩ := h
  obtain ⟨call, ret⟩ := e
  cases call with
  | tryMap groupId outerRuleId ruleCfg checkOld =>
      obtain ⟨rfl, -, hrefuses⟩ | ⟨g, o, rfl, rfl, hid, hold, hcheck, htry⟩ :=
        tupleTryMapNewRule_cases inv.ruleMapOk hrun
      · refine iff_of_true ends ?_
        rintro ⟨hid, hold, hcheck, ⟨ha, b, hb, htakes⟩, -, -⟩
        obtain ⟨hnone, hfull, -⟩ := hrefuses _ _ rfl rfl hid hold hcheck
        obtain rfl := hnone.unique hb
        rw [if_pos rfl] at htakes
        exact ha (htakes.symm.trans hfull)
      obtain ⟨rfl, b, o', hfind, hinner, houter, hpos, -⟩ | ⟨-, a, s₁, s₂, hplaces⟩ :=
        htry.places inv hcheck
      · refine iff_of_true ends ?_
        intro hrel
        obtain ⟨c, ⟨-, x, hx, htakes⟩, -, -⟩ := hrel.inv
        -- the rule that the search finds is in use, so none is taken
        obtain rfl := hfind.unique hx
        rw [if_neg hinner, houter] at htakes
        omega
      rw [hplaces.acyclic_iff inv ends, not_iff_not]
      constructor
      · rintro ⟨hreach, hkept⟩
        exact .tryMap hid hold hcheck hplaces.takes hreach hkept
      · intro hrel
        obtain ⟨b, htakes, hreach, hkept⟩ := hrel.inv
        obtain rfl := hplaces.takes.unique htakes
        exact ⟨hreach, hkept⟩
  | delete groupId outerRuleId noCheck =>
      have hres : (aclDeleteOldMap env s groupId outerRuleId noCheck).1 = t :=
        congrArg Prod.fst (Option.some.inj hrun)
      refine iff_of_true ?_ (by rintro ⟨⟩)
      obtain hsame | ⟨g, o, f, a, -, -, -, hmap, hunmap⟩ :=
        aclDeleteOldMap_cases inv.ruleMapOk groupId outerRuleId noCheck
      · rw [← hres, hsame]
        exact ends
      · rw [← hres, hunmap]
        exact (Unmap.mapped hmap).acyclic ends
  | reset =>
      have hres : (resetConfig s).1 = t := congrArg Prod.fst (Option.some.inj hrun)
      refine iff_of_true ?_ (by rintro ⟨⟩)
      rw [← hres, resetConfig]
      split
      · exact ends
      · exact fun g f key => Ends.none

/-- Searches end in every state of a run from the cleared store, within as many steps as there
are inner rule ids, if and only if no call of the run takes an inner rule that still hangs in
the chain it is inserted into. -/
theorem lookup_ends_iff {flag times : Int} {es : List (Call × Int)} :
    LookupEnds env (Conf.empty flag times) ∧
      (Run (Into (LookupEnds env) (Step env)) (Conf.empty flag times) es s ↔
        Run (Along (fun s e => ¬Relinks env s e.1) (Step env)) (Conf.empty flag times) es s) := by
  have init : LookupEnds env (Conf.empty flag times) := by
    apply (MapInv.empty flag times).lookupEnds_iff.mpr
    exact fun g f key => Ends.none
  refine ⟨init, Run.into_iff_along (J := MapInv) (.empty flag times) init ?_ ?_⟩
  · intro s e t inv hstep
    exact inv.step hstep
  · intro s e t inv hends hstep
    rw [(inv.step hstep).lookupEnds_iff]
    exact inv.acyclic_step (inv.lookupEnds_iff.mp hends) hstep

/-! ## A cycle -/

/-- A search among rules that lead to each other, none of which it looks for, has no end. -/
theorem aclHashFindLoop_endless {node : Nat → HashNode} {cmp : Nat → Bool} {C : Nat → Prop}
    (closed : ∀ a, C a → a ≠ 0 ∧ cmp a = false ∧ C (node a).hashNext) (fuel : Nat) {p : Nat}
    (hp : C p) : aclHashFindLoop node cmp fuel p = none := by
  induction fuel generalizing p with
  | zero =>
      obtain ⟨p, rfl⟩ := Nat.exists_eq_succ_of_ne_zero (closed p hp).1
      rfl
  | succ fuel ih =>
      obtain ⟨hne, hcmp, hnext⟩ := closed p hp
      obtain ⟨p, rfl⟩ := Nat.exists_eq_succ_of_ne_zero hne
      rw [aclHashFindLoop, if_neg (by rw [hcmp]; exact Bool.false_ne_true)]
      exact ih hnext

/-- A third configuration of the bucket of `ruleA` and `ruleB`. -/
def ruleC : RuleCfg := { ruleA with sportMin := 213 }

/-- `ruleA` and `ruleB` are mapped, `ruleA` is released and mapped again. -/
def cyclicStore : Conf :=
  [Call.tryMap 1 1 ruleA true, .tryMap 1 2 ruleB true, .delete 1 1 false,
    .tryMap 1 1 ruleA true].foldl (Call.after sampleEnv 2) (Conf.empty 0 0)

/-- The search for `ruleA` finds its old inner rule behind `ruleB` and links it in front of
it. From then on the search for another configuration of the bucket never ends. -/
theorem lookup_endless :
    Run (Step sampleEnv) (Conf.empty 0 0)
        [(.tryMap 1 1 ruleA true, 0), (.tryMap 1 2 ruleB true, 0), (.delete 1 1 false, 0),
          (.tryMap 1 1 ruleA true, 0)] cyclicStore ∧
      ¬LookupEnds sampleEnv cyclicStore ∧
      ∀ fuel, tupleHashFindActual sampleEnv fuel cyclicStore 1 ruleC = none := by
  have closed : ∀ a, (a = 1 ∨ a = 2) → a ≠ 0 ∧
      tupleRuleCfgCmp (cyclicStore.tuple 1 false) (tupleCfg sampleEnv ruleC).bytes a = false ∧
      (((cyclicStore.tuple 1 false).hash.node a).hashNext = 1 ∨
        ((cyclicStore.tuple 1 false).hash.node a).hashNext = 2) := by
    rintro a (rfl | rfl)
    · decide +kernel
    · decide +kernel
  have hfirst : ((cyclicStore.tuple 1 false).hash.bucket
      (aclHashIndex sampleEnv (tupleCfg sampleEnv ruleC).bytes
        (tupleRuleHashBucketCnt false))).hashNextRule = 1 := by
    decide +kernel
  refine ⟨?_, fun h => ?_, fun fuel => ?_⟩
  · exact .cons (Step.after 2 (by decide +kernel)) <|
      .cons (Step.after 2 (by decide +kernel)) <|
      .cons (Step.after 2 (by decide +kernel)) <|
      .cons (Step.after 2 (by decide +kernel)) (.refl _)
  · have hends := h 1 false (tupleCfg sampleEnv ruleC).bytes
    rw [hfirst, aclHashFindLoop_endless (C := fun a => a = 1 ∨ a = 2)
      (fun a ha => ⟨(closed a ha).1, rfl, (closed a ha).2.2⟩) _ (.inl rfl)] at hends
    cases hends
  · have hcopy : copyTupleCfg sampleEnv false default ruleC = (tupleCfg sampleEnv ruleC, 0) := by
      decide +kernel
    have hcount : ((cyclicStore.tuple 1 false).hash.bucket
        (aclHashIndex sampleEnv (tupleCfg sampleEnv ruleC).bytes
          (tupleRuleHashBucketCnt false))).nodeCnt ≠ 0 := by
      decide +kernel
    have hfamily : decide (ruleC.isIpv6 ≠ 0) = false := rfl
    simp only [tupleHashFindActual, hfamily, hcopy, ne_eq, not_true_eq_false, if_false,
      aclHashFind, hfirst]
    rw [if_neg hcount]
    exact aclHashFindLoop_endless closed fuel (.inl rfl)

end Tapplet.Acl
