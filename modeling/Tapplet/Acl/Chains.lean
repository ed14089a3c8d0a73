import Tapplet.Acl.HashChain
import Tapplet.Acl.Mapping

/-!
# Collision chains

`ChainsOk` says what a family's hash is for: the inner rules in use whose configuration
falls into a bucket are linked, in both directions, from that bucket. Insertion keeps it
always, and the release of a rule exactly when the rule is alone in its chain.
-/

namespace Tapplet.Acl

open Linked

/-- An inner rule that an outer rule is mapped to. -/
def TupleTable.InUse (t : TupleTable) (a : Nat) : Prop := (t.mapRule a).outerIdValid = true

/-- The bucket of an inner rule's configuration. -/
def ruleIndex (env : Env) (f : Bool) (t : TupleTable) (a : Nat) : Nat :=
  aclHashIndex env (t.ruleCfg a).bytes (tupleRuleHashBucketCnt f)

/-- The family's hash holds the rules in use, each in the bucket of its configuration. -/
def ChainsOk (env : Env) (f : Bool) (t : TupleTable) (chain : Nat → List Nat) : Prop :=
  Chained t.hash (ruleIndex env f t) t.InUse chain

variable {env : Env} {f : Bool} {t : TupleTable} {chain : Nat → List Nat} {g o a : Nat}

/-- What the search of the hash answers when the chains are right. -/
theorem ChainsOk.find (ok : ChainsOk env f t chain) {fuel r : Nat} {key : List UInt8}
    (hfind : aclHashFind env fuel t.hash (tupleRuleHashBucketCnt f) key
      (tupleRuleCfgCmp t key) = some r) :
    (r = 0 ∧ ∀ x, t.InUse x → (t.ruleCfg x).bytes ≠ key) ∨ (r ≠ 0 ∧ t.InUse r) := by
  rcases Chained.find ok hfind with ⟨rfl, hall⟩ | ⟨hr, hmem, -⟩
  · refine .inl ⟨rfl, fun x hx hkey => ?_⟩
    have hmem := ok.complete x hx
    rw [ruleIndex, hkey] at hmem
    have hcmp := hall x hmem
    simp [tupleRuleCfgCmp, hkey] at hcmp
  · exact .inr ⟨hr, (ok.sound _ r hmem).1⟩

/-! ## Insertion -/

theorem linked_inUse {x : Nat} : (t.linked env f g o a).InUse x ↔ x = a ∨ t.InUse x := by
  simp only [TupleTable.InUse, TupleTable.linked, Function.update_apply]
  split <;> simp_all

/-- Insertion puts a rule that was not in use in front of its chain. -/
theorem ChainsOk.linked_table (ok : ChainsOk env f t chain) (ha : a ≠ 0) (hfree : ¬ t.InUse a) :
    ChainsOk env f (t.linked env f g o a)
      (Function.update chain (ruleIndex env f t a) (a :: chain (ruleIndex env f t a))) := by
  have hinserted := Chained.insert ok ha hfree rfl
  exact hinserted.congr (fun _ => linked_inUse) fun _ _ => rfl

/-! ## Release -/

/-- No other rule is linked to the rule, in either direction. -/
def TupleTable.Alone (t : TupleTable) (a : Nat) : Prop := t.hash.Alone a

theorem unmapped_inUse {x : Nat} : (t.unmapped env f a).InUse x ↔ x ≠ a ∧ t.InUse x := by
  simp only [TupleTable.InUse, TupleTable.unmapped, Function.update_apply]
  split <;> simp [*]

namespace ChainsOk

/-- The release of a rule that is alone empties its chain. -/
theorem unmapped_of_alone (ok : ChainsOk env f t chain) (hin : t.InUse a) (halone : t.Alone a) :
    ChainsOk env f (t.unmapped env f a) (Function.update chain (ruleIndex env f t a) []) := by
  have hfreed := Chained.free_of_alone ok hin rfl halone
  exact hfreed.congr (fun _ => unmapped_inUse) fun _ _ => rfl

end ChainsOk

end Tapplet.Acl
