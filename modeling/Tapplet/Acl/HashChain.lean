import Tapplet.Lib.Linked
import Tapplet.Acl.Basic

/-!
# Chained hash

`Chained` says what the buckets and nodes of a hash stand for: the ids that are present are
linked, in both directions, from the bucket they fall into. Insertion keeps it always. The
release of an id reads and writes the wrong links, so it keeps it exactly when the id is
alone in its chain.
-/

namespace Tapplet.Acl

open Linked

/-- An id as a pointer. -/
def ptr : Nat → Option Nat
  | 0 => none
  | a + 1 => some (a + 1)

@[simp] theorem ptr_zero : ptr 0 = none := rfl

theorem ptr_of_ne {a : Nat} (h : a ≠ 0) : ptr a = some a := by
  cases a with
  | zero => exact absurd rfl h
  | succ a => rfl

theorem ptr_eq_none {a : Nat} : ptr a = none ↔ a = 0 := by
  cases a <;> simp [ptr]

theorem ptr_eq_some {a b : Nat} : ptr a = some b ↔ a ≠ 0 ∧ a = b := by
  cases a <;> simp [ptr]

def TupleHash.nextOf (h : TupleHash) (a : Nat) : Option Nat := ptr (h.node a).hashNext

def TupleHash.prevOf (h : TupleHash) (a : Nat) : Option Nat := ptr (h.node a).hashPrev

/-- No other id is linked to the id, in either direction. -/
def TupleHash.Alone (h : TupleHash) (a : Nat) : Prop :=
  (h.node a).hashPrev = 0 ∧ (h.node a).hashNext = 0

/-- `chain i` is the list linked from bucket `i`, and holds the ids that are present and fall
into it. -/
structure Chained (h : TupleHash) (index : Nat → Nat) (present : Nat → Prop)
    (chain : Nat → List Nat) : Prop where
  linked : ∀ i, DSeg h.prevOf h.nextOf none (ptr (h.bucket i).hashNextRule) (chain i)
  nodup : ∀ i, (chain i).Nodup
  counted : ∀ i, chain i ≠ [] → (h.bucket i).nodeCnt ≠ 0
  sound : ∀ i, ∀ a ∈ chain i, present a ∧ index a = i
  complete : ∀ a, present a → a ∈ chain (index a)

variable {env : Env} {h : TupleHash} {index index' : Nat → Nat} {present present' : Nat → Prop}
  {chain : Nat → List Nat} {cnt : Nat} {key : List UInt8} {a : Nat}

/-! ## Searching -/

/-- A search along a chain finds one of its rules with the wanted configuration, or
there is none. -/
theorem aclHashFindLoop_of_seg {cmp : Nat → Bool} {fuel p r : Nat}
    {xs : List Nat} (hseg : Seg h.nextOf (ptr p) xs none)
    (hfind : aclHashFindLoop h.node cmp fuel p = some r) :
    (r = 0 ∧ ∀ x ∈ xs, cmp x = false) ∨ (r ≠ 0 ∧ r ∈ xs ∧ cmp r = true) := by
  induction xs generalizing p fuel with
  | nil =>
      obtain rfl := ptr_eq_none.mp hseg
      cases fuel <;> exact .inl ⟨(Option.some.inj hfind).symm, by simp⟩
  | cons x xs ih =>
      obtain ⟨hp, hrest⟩ := hseg
      obtain ⟨hne, rfl⟩ := ptr_eq_some.mp hp
      obtain ⟨p, rfl⟩ := Nat.exists_eq_succ_of_ne_zero hne
      cases fuel with
      | zero => simp [aclHashFindLoop] at hfind
      | succ fuel =>
          simp only [aclHashFindLoop] at hfind
          split at hfind
          next hcmp =>
            obtain rfl := Option.some.inj hfind
            exact .inr ⟨hne, by simp, hcmp⟩
          next hcmp =>
            rcases ih hrest hfind with ⟨rfl, hall⟩ | ⟨hr, hmem, hcmp'⟩
            · refine .inl ⟨rfl, fun y hy => ?_⟩
              rcases List.mem_cons.mp hy with rfl | hy
              · exact Bool.not_eq_true _ ▸ hcmp
              · exact hall y hy
            · exact .inr ⟨hr, by simp [hmem], hcmp'⟩

/-- The search ends within as many rounds as the chain has ids. -/
theorem aclHashFindLoop_isSome_of_seg {cmp : Nat → Bool} {fuel p : Nat} {xs : List Nat}
    (hseg : Seg h.nextOf (ptr p) xs none) (hfuel : xs.length ≤ fuel) :
    ∃ r, aclHashFindLoop h.node cmp fuel p = some r := by
  induction xs generalizing p fuel with
  | nil =>
      obtain rfl := ptr_eq_none.mp hseg
      cases fuel <;> exact ⟨0, rfl⟩
  | cons x xs ih =>
      obtain ⟨hp, hrest⟩ := hseg
      obtain ⟨hne, rfl⟩ := ptr_eq_some.mp hp
      obtain ⟨p, rfl⟩ := Nat.exists_eq_succ_of_ne_zero hne
      cases fuel with
      | zero => simp at hfuel
      | succ fuel =>
          simp only [aclHashFindLoop]
          split
          next => exact ⟨p + 1, rfl⟩
          next => exact ih hrest (by simpa using hfuel)

namespace Chained

theorem congr (ok : Chained h index present chain) (hpresent : ∀ x, present' x ↔ present x)
    (hindex : ∀ x, present x → index' x = index x) : Chained h index' present' chain := by
  refine ⟨ok.linked, ok.nodup, ok.counted, fun i x hx => ?_, fun x hx => ?_⟩
  · obtain ⟨hin, hi⟩ := ok.sound i x hx
    exact ⟨(hpresent x).mpr hin, (hindex x hin).trans hi⟩
  · have hin := (hpresent x).mp hx
    rw [hindex x hin]
    exact ok.complete x hin

/-- What the search of the hash answers: an id of the key's chain that compares equal, or 0
when there is none. -/
theorem find (ok : Chained h index present chain) {cmp : Nat → Bool} {fuel r : Nat}
    (hfind : aclHashFind env fuel h cnt key cmp = some r) :
    (r = 0 ∧ ∀ x ∈ chain (aclHashIndex env key cnt), cmp x = false) ∨
      (r ≠ 0 ∧ r ∈ chain (aclHashIndex env key cnt) ∧ cmp r = true) := by
  simp only [aclHashFind] at hfind
  split at hfind
  next hzero =>
    refine .inl ⟨(Option.some.inj hfind).symm, fun x hx => ?_⟩
    exact absurd hzero (ok.counted _ (List.ne_nil_of_mem hx))
  next => exact aclHashFindLoop_of_seg (ok.linked _).seg hfind

theorem find_isSome (ok : Chained h index present chain) {cmp : Nat → Bool} {fuel : Nat}
    (hfuel : (chain (aclHashIndex env key cnt)).length ≤ fuel) :
    ∃ r, aclHashFind env fuel h cnt key cmp = some r := by
  simp only [aclHashFind]
  split
  next => exact ⟨0, rfl⟩
  next => exact aclHashFindLoop_isSome_of_seg (ok.linked _).seg hfuel

end Chained

/-! ## Insertion -/

section Insert

variable (env h cnt key a)

theorem aclHashInsert_next (x : Nat) :
    ((aclHashInsert env h cnt key a).node x).hashNext =
      if x = a then (h.bucket (aclHashIndex env key cnt)).hashNextRule
      else (h.node x).hashNext := by
  simp only [aclHashInsert]
  split
  · simp only [Function.update_apply]
    by_cases hx : x = a
    · subst hx
      split <;> simp_all
    · rw [if_neg hx, if_neg hx]
      split
      next hfirst => rw [← hfirst, if_neg hx]
      next => rfl
  · rw [Function.update_apply]
    split <;> rfl

theorem aclHashInsert_prev (x : Nat) :
    ((aclHashInsert env h cnt key a).node x).hashPrev =
      if (h.bucket (aclHashIndex env key cnt)).hashNextRule ≠ 0 ∧
          x = (h.bucket (aclHashIndex env key cnt)).hashNextRule then a
      else if x = a then 0 else (h.node x).hashPrev := by
  simp only [aclHashInsert]
  by_cases hfirst : (h.bucket (aclHashIndex env key cnt)).hashNextRule = 0
  · simp only [hfirst, ne_eq, not_true_eq_false, if_false, false_and, Function.update_apply]
    split <;> rfl
  · simp only [hfirst, ne_eq, not_false_eq_true, if_true, true_and, Function.update_apply]
    split
    · rfl
    · split <;> rfl

theorem aclHashInsert_bucket (i : Nat) :
    ((aclHashInsert env h cnt key a).bucket i).hashNextRule =
      if i = aclHashIndex env key cnt then a else (h.bucket i).hashNextRule := by
  simp only [aclHashInsert, Function.update_apply]
  split <;> rfl

theorem aclHashInsert_nodeCnt (i : Nat) :
    (i = aclHashIndex env key cnt → ((aclHashInsert env h cnt key a).bucket i).nodeCnt ≠ 0) ∧
      (i ≠ aclHashIndex env key cnt →
        ((aclHashInsert env h cnt key a).bucket i).nodeCnt = (h.bucket i).nodeCnt) := by
  simp only [aclHashInsert, Function.update_apply]
  refine ⟨fun hi => ?_, fun hi => by rw [if_neg hi]⟩
  rw [if_pos hi]
  -- the counter stays at its largest value, so it never wraps around to 0
  split <;> grind

end Insert

/-- Insertion puts an id that was not present in front of its chain. -/
theorem Chained.insert (ok : Chained h index present chain) (ha : a ≠ 0) (hfree : ¬present a)
    (hat : aclHashIndex env key cnt = index a) :
    Chained (aclHashInsert env h cnt key a) index (fun x => x = a ∨ present x)
      (Function.update chain (index a) (a :: chain (index a))) := by
  have hnotin : ∀ i, a ∉ chain i := fun i hmem => hfree (ok.sound i a hmem).1
  have hbucket : ∀ i, ptr ((aclHashInsert env h cnt key a).bucket i).hashNextRule =
      if i = index a then some a else ptr (h.bucket i).hashNextRule := by
    intro i
    rw [aclHashInsert_bucket, hat]
    split
    · exact ptr_of_ne ha
    · rfl
  have hnext : ∀ x, x ≠ a → (aclHashInsert env h cnt key a).nextOf x = h.nextOf x := by
    intro x hx
    exact congrArg ptr ((aclHashInsert_next ..).trans (if_neg hx))
  -- the only other id whose back link changes is the old first one of the same chain
  have hprev : ∀ x, x ≠ a → some x ≠ ptr (h.bucket (index a)).hashNextRule →
      (aclHashInsert env h cnt key a).prevOf x = h.prevOf x := by
    intro x hx hfirst
    have hcond : ¬((h.bucket (aclHashIndex env key cnt)).hashNextRule ≠ 0 ∧
        x = (h.bucket (aclHashIndex env key cnt)).hashNextRule) := by
      rintro ⟨hne, rfl⟩
      rw [hat] at hne hfirst
      exact hfirst (ptr_of_ne hne).symm
    exact congrArg ptr ((aclHashInsert_prev ..).trans ((if_neg hcond).trans (if_neg hx)))
  refine ⟨fun i => ?_, fun i => ?_, fun i hne => ?_, fun i x hx => ?_, fun x hx => ?_⟩
  · rw [hbucket]
    by_cases hi : i = index a
    · subst hi
      rw [if_pos rfl, Function.update_self]
      refine (ok.linked _).push (ok.nodup _) ?_ ?_ ?_ ?_ ?_
      · have hcond : ¬((h.bucket (aclHashIndex env key cnt)).hashNextRule ≠ 0 ∧
            a = (h.bucket (aclHashIndex env key cnt)).hashNextRule) := by
          rintro ⟨hne, heq⟩
          have hhead := (ok.linked (aclHashIndex env key cnt)).seg.head?_eq
          rw [← heq, ptr_of_ne ha] at hhead
          exact hnotin _ (List.mem_of_head? hhead.symm)
        exact congrArg ptr ((aclHashInsert_prev ..).trans ((if_neg hcond).trans (if_pos rfl)))
      · have hself := congrArg ptr ((aclHashInsert_next env h cnt key a a).trans (if_pos rfl))
        rwa [hat] at hself
      · intro x hx
        obtain ⟨hne, rfl⟩ := ptr_eq_some.mp hx
        rw [← hat] at hne ⊢
        exact (congrArg ptr ((aclHashInsert_prev ..).trans (if_pos ⟨hne, rfl⟩))).trans
          (ptr_of_ne ha)
      · intro x hx hfirst
        exact hprev x (ne_of_mem_of_not_mem hx (hnotin _)) fun h => hfirst h.symm
      · intro x hx
        exact hnext x (ne_of_mem_of_not_mem hx (hnotin _))
    · rw [if_neg hi, Function.update_of_ne hi]
      refine (ok.linked i).congr (fun x hx => hprev x (ne_of_mem_of_not_mem hx (hnotin _)) ?_)
        fun x hx => hnext x (ne_of_mem_of_not_mem hx (hnotin _))
      intro hfirst
      have hhead := (ok.linked (index a)).seg.head?_eq
      have hmem := List.mem_of_head? (hhead.symm.trans hfirst.symm)
      exact hi ((ok.sound _ x hx).2.symm.trans (ok.sound _ x hmem).2)
  · by_cases hi : i = index a
    · subst hi
      rw [Function.update_self]
      exact List.nodup_cons.mpr ⟨hnotin _, ok.nodup _⟩
    · rw [Function.update_of_ne hi]
      exact ok.nodup i
  · obtain ⟨hsame, hother⟩ := aclHashInsert_nodeCnt env h cnt key a i
    rw [hat] at hsame hother
    by_cases hi : i = index a
    · exact hsame hi
    · rw [Function.update_of_ne hi] at hne
      exact (hother hi).symm ▸ ok.counted i hne
  · by_cases hi : i = index a
    · subst hi
      rw [Function.update_self] at hx
      rcases List.mem_cons.mp hx with rfl | hx
      · exact ⟨.inl rfl, rfl⟩
      · exact ⟨.inr (ok.sound _ x hx).1, (ok.sound _ x hx).2⟩
    · rw [Function.update_of_ne hi] at hx
      exact ⟨.inr (ok.sound i x hx).1, (ok.sound i x hx).2⟩
  · rcases hx with rfl | hx
    · rw [Function.update_self]
      exact List.mem_cons_self
    · have hmem := ok.complete x hx
      by_cases hi : index x = index a
      · rw [hi] at hmem ⊢
        rw [Function.update_self]
        exact List.mem_cons_of_mem _ hmem
      · rwa [Function.update_of_ne hi]

/-! ## Release -/

/-- The release never changes a forward link. -/
theorem aclHashFree_nextOf (h : TupleHash) (cnt : Nat) (key : List UInt8) (x : Nat) :
    (aclHashFree env h cnt key a).nextOf x = h.nextOf x := by
  have hprev : ∀ (node : Nat → HashNode) (b v : Nat),
      (Function.update node b ⟨v, (node b).hashNext⟩ x).hashNext = (node x).hashNext := by
    intro node b v
    rw [Function.update_apply]
    split
    · rw [‹x = b›]
    · rfl
  simp only [TupleHash.nextOf, aclHashFree]
  congr 1
  by_cases hzero : (h.node a).hashPrev = 0
  · simp only [hzero, if_true, ne_eq, not_true_eq_false, if_false, hprev]
  · simp only [hzero, if_false, ne_eq, not_false_eq_true, if_true, hprev]

theorem aclHashFree_bucket (h : TupleHash) (cnt : Nat) (key : List UInt8) :
    ((aclHashFree env h cnt key a).bucket (aclHashIndex env key cnt)).hashNextRule =
      if (h.node a).hashPrev = 0 then 0
      else (h.bucket (aclHashIndex env key cnt)).hashNextRule := by
  simp only [aclHashFree, Function.update_self]
  split <;> simp [*]

theorem aclHashFree_bucket_of_ne (h : TupleHash) (cnt : Nat) (key : List UInt8) {i : Nat}
    (hi : i ≠ aclHashIndex env key cnt) :
    (aclHashFree env h cnt key a).bucket i = h.bucket i := by
  simp only [aclHashFree, Function.update_of_ne hi]

namespace Chained

/-- An id that is present and alone is the whole chain of its bucket. -/
theorem chain_of_alone (ok : Chained h index present chain) (hin : present a)
    (halone : h.Alone a) : chain (index a) = [a] := by
  have hlinked := ok.linked (index a)
  have hmem := ok.complete a hin
  have hhead := hlinked.eq_head_of_prev_none hmem (ptr_eq_none.mpr halone.1)
  cases hchain : chain (index a) with
  | nil => simp [hchain] at hmem
  | cons x xs =>
      rw [hchain, hhead] at hlinked
      obtain ⟨hx, -, hrest⟩ := hlinked
      obtain rfl := Option.some.inj hx
      have hend : h.nextOf a = none := ptr_eq_none.mpr halone.2
      rw [hend] at hrest
      cases xs with
      | nil => rfl
      | cons y ys => exact absurd hrest.1 (by simp)

/-- The release of an id that is alone empties its chain. -/
theorem free_of_alone (ok : Chained h index present chain) (hin : present a)
    (hat : aclHashIndex env key cnt = index a) (halone : h.Alone a) :
    Chained (aclHashFree env h cnt key a) index (fun x => x ≠ a ∧ present x)
      (Function.update chain (index a) []) := by
  have hchain := ok.chain_of_alone hin halone
  have hnode : (aclHashFree env h cnt key a).node = h.node := by
    simp only [aclHashFree, halone.1, if_true, ne_eq, not_true_eq_false, if_false]
    exact Function.update_eq_self_iff.mpr (by rw [← halone.1])
  have hother : ∀ i, i ≠ index a → (aclHashFree env h cnt key a).bucket i = h.bucket i :=
    fun i hi => aclHashFree_bucket_of_ne _ _ _ (hat ▸ hi)
  have houtside : ∀ i x, i ≠ index a → x ∈ chain i → x ≠ a := by
    rintro i x hi hx rfl
    exact hi (ok.sound i x hx).2.symm
  refine ⟨fun i => ?_, fun i => ?_, fun i hne => ?_, fun i x hx => ?_, fun x hx => ?_⟩
  · by_cases hi : i = index a
    · subst hi
      rw [Function.update_self, ← hat]
      refine (congrArg ptr (aclHashFree_bucket _ _ _)).trans ?_
      rw [if_pos halone.1]
      rfl
    · rw [Function.update_of_ne hi, hother i hi]
      refine (ok.linked i).congr (fun x _ => ?_) fun x _ => ?_
      · rw [TupleHash.prevOf, hnode]
        rfl
      · rw [TupleHash.nextOf, hnode]
        rfl
  · by_cases hi : i = index a
    · subst hi
      simp
    · rw [Function.update_of_ne hi]
      exact ok.nodup i
  · by_cases hi : i = index a
    · subst hi
      simp at hne
    · rw [Function.update_of_ne hi] at hne
      rw [hother i hi]
      exact ok.counted i hne
  · by_cases hi : i = index a
    · subst hi
      simp at hx
    · rw [Function.update_of_ne hi] at hx
      exact ⟨⟨houtside i x hi hx, (ok.sound i x hx).1⟩, (ok.sound i x hx).2⟩
  · obtain ⟨hne, hx⟩ := hx
    have hmem := ok.complete x hx
    by_cases hi : index x = index a
    · rw [hi, hchain, List.mem_singleton] at hmem
      exact absurd hmem hne
    · rwa [Function.update_of_ne hi]

/-- The release keeps the chains right exactly when the id is alone in its chain. Behind the
first id of a longer chain the others are lost, and any other id stays linked. -/
theorem free_iff (ok : Chained h index present chain) (hin : present a)
    (hat : aclHashIndex env key cnt = index a) :
    (∃ chain', Chained (aclHashFree env h cnt key a) index (fun x => x ≠ a ∧ present x) chain') ↔
      h.Alone a := by
  refine ⟨fun ⟨chain', ok'⟩ => ?_, fun halone => ⟨_, ok.free_of_alone hin hat halone⟩⟩
  have hmem := ok.complete a hin
  have hlinked := ok.linked (index a)
  have hlinked' := (ok'.linked (index a)).seg
  have hnext : ∀ x, (aclHashFree env h cnt key a).nextOf x = h.nextOf x :=
    fun x => aclHashFree_nextOf _ _ _ x
  have hfirst : ptr ((aclHashFree env h cnt key a).bucket (index a)).hashNextRule =
      if (h.node a).hashPrev = 0 then none else ptr (h.bucket (index a)).hashNextRule := by
    rw [← hat]
    refine (congrArg ptr (aclHashFree_bucket _ _ _)).trans ?_
    split <;> rfl
  rw [hfirst] at hlinked'
  by_cases hprev : (h.node a).hashPrev = 0
  · -- the first id: the bucket is empty now, so no other id may have been linked
    refine ⟨hprev, ?_⟩
    rw [if_pos hprev] at hlinked'
    have hempty : chain' (index a) = [] := (hlinked'.eq_none_iff).mp rfl
    have hhead := hlinked.eq_head_of_prev_none hmem (ptr_eq_none.mpr hprev)
    cases hchain : chain (index a) with
    | nil => simp [hchain] at hmem
    | cons x xs =>
        have hnodup := ok.nodup (index a)
        rw [hchain, hhead] at hlinked
        obtain ⟨hx, -, hrest⟩ := hlinked
        obtain rfl := Option.some.inj hx
        cases xs with
        | nil => exact ptr_eq_none.mp hrest
        | cons y ys =>
            rw [hchain] at hnodup
            have hy := ok.sound (index a) y (by simp [hchain])
            have hya : y ≠ a := by
              rintro rfl
              simp at hnodup
            have hymem := ok'.complete y ⟨hya, hy.1⟩
            rw [hy.2, hempty] at hymem
            simp at hymem
  · -- any other id: the bucket still leads to it, though it is not present
    rw [if_neg hprev] at hlinked'
    have hsame : chain' (index a) = chain (index a) :=
      (hlinked'.congr fun x _ => (hnext x).symm).unique hlinked.seg
    have hstill := (ok'.sound (index a) a (by rw [hsame]; exact hmem)).1
    exact absurd rfl hstill.1

end Chained

end Tapplet.Acl
