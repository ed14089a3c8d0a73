import Mathlib.Data.Finset.Card
import Tapplet.Lib.Run
import Tapplet.Acl.HashChain

/-!
# The chained hash as a finite map

What the hash is for: it gives the ids that are present back by the keys they were inserted
under. `acl_hash_insert` and `acl_hash_free` are called with ids that are not and that are
present, in any order. The chains stand for the map as long as every id that is released is
alone in its chain. The first other release breaks them, because `acl_hash_free` reads and
writes `hash_prev` where `hash_next` is meant.
-/

namespace Tapplet.Acl.HashMap

open Transition Linked

/-- The hash, the keys as the comparison reads them, and the ids that are present. -/
structure Keyed where
  hash : TupleHash
  cfg : Nat → List UInt8
  ids : Finset Nat

/-- The memory before the first call. -/
def Keyed.empty : Keyed where
  hash := ⟨fun _ => ⟨0, 0⟩, fun _ => ⟨0, 0⟩⟩
  cfg _ := []
  ids := ∅

inductive Call where
  | insert (id : Nat) (key : List UInt8)
  | free (id : Nat)

/-- One call. An id is released under the key that it was inserted under. -/
inductive Step (env : Env) (cnt : Nat) : Keyed → Call → Keyed → Prop where
  | insert {s id key} : id ≠ 0 → id ∉ s.ids →
      Step env cnt s (.insert id key)
        { hash := aclHashInsert env s.hash cnt key id
          cfg := Function.update s.cfg id key
          ids := insert id s.ids }
  | free {s id} : id ∈ s.ids →
      Step env cnt s (.free id)
        { s with
          hash := aclHashFree env s.hash cnt (s.cfg id) id
          ids := s.ids.erase id }

/-- The bucket of an id. -/
def Keyed.index (env : Env) (cnt : Nat) (s : Keyed) (id : Nat) : Nat :=
  aclHashIndex env (s.cfg id) cnt

/-- The comparison that the search is given. -/
def Keyed.cmp (s : Keyed) (key : List UInt8) (id : Nat) : Bool := decide (key = s.cfg id)

/-- `acl_hash_find`. No chain can be longer than there are ids present. -/
def Keyed.find (env : Env) (cnt : Nat) (s : Keyed) (key : List UInt8) : Option Nat :=
  aclHashFind env s.ids.card s.hash cnt key (s.cmp key)

/-- What a search for `key` has to answer. -/
def Keyed.Answer (s : Keyed) (key : List UInt8) (r : Nat) : Prop :=
  (r ≠ 0 ∧ r ∈ s.ids ∧ s.cfg r = key) ∨ (r = 0 ∧ ∀ id ∈ s.ids, s.cfg id ≠ key)

/-- The hash stands for the map: its chains list the ids that are present in each bucket,
and every search answers from the map. -/
structure RefinesMap (env : Env) (cnt : Nat) (s : Keyed) : Prop where
  chained : ∃ chain, Chained s.hash (s.index env cnt) (· ∈ s.ids) chain
  answers : ∀ key, ∃ r, s.find env cnt key = some r ∧ s.Answer key r

/-- An id that the call releases has no neighbour in its chain. -/
def FreesAlone (s : Keyed) (e : Call) : Prop := ∀ id, e = .free id → s.hash.Alone id

variable {env : Env} {cnt : Nat} {s t : Keyed} {chain : Nat → List Nat}

theorem chain_length_le (ok : Chained s.hash (s.index env cnt) (· ∈ s.ids) chain) (i : Nat) :
    (chain i).length ≤ s.ids.card := by
  rw [← List.toFinset_card_of_nodup (ok.nodup i)]
  apply Finset.card_le_card
  intro id hid
  exact (ok.sound i id (List.mem_toFinset.mp hid)).1

/-- Right chains give right answers. -/
theorem answer_of_chained (ok : Chained s.hash (s.index env cnt) (· ∈ s.ids) chain)
    (key : List UInt8) : ∃ r, s.find env cnt key = some r ∧ s.Answer key r := by
  obtain ⟨r, hfind⟩ : ∃ r, s.find env cnt key = some r := ok.find_isSome (chain_length_le ok _)
  refine ⟨r, hfind, ?_⟩
  obtain ⟨rfl, hall⟩ | ⟨hr, hmem, hcmp⟩ := ok.find hfind
  · refine .inr ⟨rfl, fun id hid hkey => ?_⟩
    have hin := ok.complete id hid
    rw [Keyed.index, hkey] at hin
    have hcmp := hall id hin
    simp [Keyed.cmp, hkey] at hcmp
  · exact .inl ⟨hr, (ok.sound _ r hmem).1, (of_decide_eq_true hcmp).symm⟩

theorem refinesMap_iff :
    RefinesMap env cnt s ↔ ∃ chain, Chained s.hash (s.index env cnt) (· ∈ s.ids) chain :=
  ⟨RefinesMap.chained, fun ⟨chain, ok⟩ => ⟨⟨chain, ok⟩, answer_of_chained ok⟩⟩

theorem RefinesMap.empty : RefinesMap env cnt .empty := by
  apply refinesMap_iff.mpr
  refine ⟨fun _ => [], fun _ => rfl, fun _ => .nil, fun _ h => absurd rfl h, ?_, ?_⟩
  · intro i id hid
    simp at hid
  · intro id hid
    simp [Keyed.empty] at hid

/-- A call leaves the hash standing for the map exactly when it releases no id that has a
neighbour in its chain. -/
theorem RefinesMap.step_iff {e : Call} (h : RefinesMap env cnt s) (hstep : Step env cnt s e t) :
    RefinesMap env cnt t ↔ FreesAlone s e := by
  obtain ⟨chain, ok⟩ := h.chained
  rw [refinesMap_iff]
  cases hstep with
  | @insert id key hid hfree =>
      refine iff_of_true ?_ (by rintro id ⟨⟩)
      have hsame : ∀ x, x ∈ s.ids → Function.update s.cfg id key x = s.cfg x := by
        intro x hx
        exact Function.update_of_ne (ne_of_mem_of_not_mem hx hfree) _ _
      -- the new id brings its key with it, before it is linked
      have hkeyed : Chained s.hash
          (fun x => aclHashIndex env (Function.update s.cfg id key x) cnt) (· ∈ s.ids) chain := by
        apply ok.congr fun _ => Iff.rfl
        intro x hx
        rw [hsame x hx]
        rfl
      have hat : aclHashIndex env key cnt = aclHashIndex env (Function.update s.cfg id key id)
        cnt := by
        rw [Function.update_self]
      have hinserted := hkeyed.insert hid hfree hat
      exact ⟨_, hinserted.congr (fun x => Finset.mem_insert) fun _ _ => rfl⟩
  | @free id hid =>
      have hat : aclHashIndex env (s.cfg id) cnt = s.index env cnt id := rfl
      refine Iff.trans (exists_congr fun chain' => ?_) ((ok.free_iff hid hat).trans ?_)
      · have hpresent : ∀ x, x ∈ s.ids.erase id ↔ x ≠ id ∧ x ∈ s.ids := fun _ => Finset.mem_erase
        constructor
        · intro ok'
          exact ok'.congr (fun x => (hpresent x).symm) fun _ _ => rfl
        · intro ok'
          exact ok'.congr hpresent fun _ _ => rfl
      · constructor
        · rintro halone _ ⟨⟩
          exact halone
        · intro halone
          exact halone id rfl

/-- The hash stands for the map in every state of a run exactly when every id that the run
releases is alone in its chain at that moment. -/
theorem hash_refines_map_iff (env : Env) (cnt : Nat) (es : List Call) (s : Keyed) :
    Run (Into (RefinesMap env cnt) (Step env cnt)) .empty es s ↔
      Run (Along FreesAlone (Step env cnt)) .empty es s :=
  Run.into_iff_along trivial .empty (fun _ _ _ _ _ => trivial)
    fun _ _ _ _ h hstep => h.step_iff hstep

/-- Two keys in one bucket. After the release of the id that is first in the chain, the other
one is present and is not found. -/
theorem present_id_not_found : ∃ env s,
    Run (Step env 1) .empty [.insert 1 [1], .insert 2 [2], .free 2] s ∧
      1 ∈ s.ids ∧ s.cfg 1 = [1] ∧ s.find env 1 [1] = some 0 := by
  refine ⟨⟨fun _ => 0, fun _ _ => none⟩, _, .cons (.insert (by decide) (by decide))
    (.cons (.insert (by decide) (by decide)) (.cons (.free (by decide)) (.refl _))), ?_⟩
  exact ⟨by decide, rfl, rfl⟩

end Tapplet.Acl.HashMap
