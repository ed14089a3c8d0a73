import Mathlib.Data.List.Find
import Tapplet.Hash.Shared
import Tapplet.Lock.SpinLock

/-!
# Threads at one hash table

Any number of threads use one table. A thread locks the bucket of a hash, calls functions of the
table on it, and unlocks it; the instructions of the lock and the accesses of the functions come
in any order. `Contract` is what the functions ask of their caller: a node is only freed from the
bucket that it is in, and a node that is put in is the caller's own.

`AtomicStep` is the table as it is meant: a bucket is a list of nodes, and a function is done with
it at once. Whatever the order, the threads see what this table does.
-/

namespace Tapplet.GenericHash.Shared

open Access Linked Transition SpinLock

/-- A call of a function of the table. -/
inductive Call (α : Type) where
  | find (key : List UInt8)
  | insert (node : α)
  | free (node : α)

/-! ## The table as it is meant -/

/-- The nodes of each bucket, the bytes of each node, the thread that has a node that is not in
the table, and the answers so far. -/
structure Spec (τ α : Type) where
  cells : Nat → List α
  data : α → List UInt8
  held : α → Option τ
  log : List (τ × Nat × Call α × Option α)

variable {τ α : Type} [DecidableEq α]

namespace Call

/-- The answer to a call, in a bucket of these nodes. -/
def answer (data : α → List UInt8) (cells : List α) : Call α → Option α
  | find key => cells.find? fun x => (data x).take key.length = key
  | insert _ => none
  | free _ => none

/-- The nodes of the bucket after the call. -/
def after (cells : List α) : Call α → List α
  | find _ => cells
  | insert node => node :: cells
  | free node => cells.erase node

/-- Who has the nodes that are not in the table. -/
def heldAfter (held : α → Option τ) (t : τ) : Call α → α → Option τ
  | find _ => held
  | insert node => Function.update held node none
  | free node => Function.update held node (some t)

/-- The nodes that the call has to do with. -/
def nodes (cells : List α) : Call α → List α
  | find _ => cells
  | insert node => node :: cells
  | free _ => cells

end Call

/-- What a function asks of the thread that calls it. -/
def Contract (spec : Spec τ α) (t : τ) (i : Nat) : Call α → Prop
  | .find _ => True
  | .insert node => spec.held node = some t
  | .free node => node ∈ spec.cells i

/-- A call of `t` in bucket `i` is answered. -/
def Spec.answered (spec : Spec τ α) (t : τ) (i : Nat) (call : Call α) (r : Option α) :
    Spec τ α where
  cells := Function.update spec.cells i (call.after (spec.cells i))
  data := spec.data
  held := call.heldAfter spec.held t
  log := spec.log ++ [(t, i, call, r)]

/-- What a thread does beside the table: it gets a node, gives it away, or writes its bytes. -/
inductive Spec.Beside : Spec τ α → τ → Spec τ α → Prop where
  | take {spec t x} : spec.held x = none → (∀ i, x ∉ spec.cells i) →
      Beside spec t { spec with held := Function.update spec.held x (some t) }
  | give {spec t x} : spec.held x = some t →
      Beside spec t { spec with held := Function.update spec.held x none }
  | write {spec t x} (bytes : List UInt8) : spec.held x = some t →
      Beside spec t { spec with data := Function.update spec.data x bytes }

/-- The table with the threads that have its buckets. -/
structure Atomic (τ α : Type) where
  holder : Nat → Option τ
  spec : Spec τ α

inductive AtomicEvent (τ α : Type) where
  | lock (t : τ) (i : Nat)
  | unlock (t : τ) (i : Nat)
  | call (t : τ) (i : Nat) (call : Call α)
  | beside (t : τ)

/-- Locks are taken and given back at once, and the thread that has the bucket gets its answer
at once. -/
inductive AtomicStep : Atomic τ α → AtomicEvent τ α → Atomic τ α → Prop where
  | lock {a t i} : a.holder i = none →
      AtomicStep a (.lock t i) { a with holder := Function.update a.holder i (some t) }
  | unlock {a t i} : a.holder i = some t →
      AtomicStep a (.unlock t i) { a with holder := Function.update a.holder i none }
  | call {a t i call} : a.holder i = some t → Contract a.spec t i call →
      AtomicStep a (.call t i call)
        { a with spec := a.spec.answered t i call (call.answer a.spec.data (a.spec.cells i)) }
  | beside {a t spec} : a.spec.Beside t spec → AtomicStep a (.beside t) { a with spec := spec }

/-! ## The table as it is -/

/-- The code of a call in bucket `i`. -/
def Call.code (i : Nat) : Call α → Routine α (Option α)
  | find key => hashFindNodeMemcmp i key
  | insert node => hashInsertNode i node
  | free node => hashFreeNode i node

/-- Where a thread is: at the lock of bucket `i`, where `Spin.outside` is a thread that has to do
with no bucket, or in a function. -/
inductive Control (α : Type) where
  | spin (i : Nat) (state : Spin)
  | calling (i : Nat) (call : Call α) (code : Routine α (Option α))

/-- Where the thread is at the lock of bucket `i`. -/
def Control.spinAt (i : Nat) : Control α → Spin
  | .spin j state => if j = i then state else .outside
  | .calling j _ _ => if j = i then .holding else .outside

/-- The locks and the memory of the table, with the threads. `spec` takes part in no step: it is
the table as it is meant, which the contract is about. -/
structure System (τ α : Type) where
  locked : Nat → BitVec 32
  memory : Memory α
  control : τ → Control α
  spec : Spec τ α

/-- The lock of bucket `i`. -/
def System.lock (s : System τ α) (i : Nat) : Lock τ := ⟨s.locked i, fun t => (s.control t).spinAt i⟩

/-- The thread is not in a function of the table. -/
def Control.Outside (control : Control α) : Prop := ∃ i state, control = .spin i state

/-- `hash & (h->hashsize-1)`. -/
def bucketIndex (hashsize hash : Nat) : Nat := hash &&& (hashsize - 1)

inductive Event (τ α : Type) where
  | lock (t : τ) (hash : Nat)
  | unlock (t : τ)
  | call (t : τ) (call : Call α)
  | ret (t : τ)
  | instr (t : τ)
  | beside (t : τ)

inductive Step [DecidableEq τ] (hashsize : Nat) : System τ α → Event τ α → System τ α → Prop where
  | lock {s t i hash} (zf : Bool) : s.control t = .spin i .outside →
      Step hashsize s (.lock t hash)
        { s with
          control := Function.update s.control t
            (.spin (bucketIndex hashsize hash) (.locking .xchg 1 zf)) }
  | unlock {s t i} : s.control t = .spin i .holding →
      Step hashsize s (.unlock t)
        { s with control := Function.update s.control t (.spin i .unlocking) }
  | spin {s t i state state' locked} : s.control t = .spin i state →
      state.next (s.locked i) = some (state', locked) →
      Step hashsize s (.instr t)
        { s with
          locked := Function.update s.locked i locked
          control := Function.update s.control t (.spin i state') }
  | call {s t i call} : s.control t = .spin i .holding → Contract s.spec t i call →
      Step hashsize s (.call t call)
        { s with control := Function.update s.control t (.calling i call (call.code i)) }
  | access {s t i call code code' memory} : s.control t = .calling i call code →
      code.next body s.memory = some (code', memory) →
      Step hashsize s (.instr t)
        { s with
          memory := memory
          control := Function.update s.control t (.calling i call code') }
  | ret {s t i call r} : s.control t = .calling i call (.ret r) →
      Step hashsize s (.ret t)
        { s with
          control := Function.update s.control t (.spin i .holding)
          spec := s.spec.answered t i call r }
  | take {s t x} : (s.control t).Outside → s.spec.held x = none → (∀ i, x ∉ s.spec.cells i) →
      Step hashsize s (.beside t)
        { s with spec := { s.spec with held := Function.update s.spec.held x (some t) } }
  | give {s t x} : (s.control t).Outside → s.spec.held x = some t →
      Step hashsize s (.beside t)
        { s with spec := { s.spec with held := Function.update s.spec.held x none } }
  | write {s t x} (bytes : List UInt8) : (s.control t).Outside → s.spec.held x = some t →
      Step hashsize s (.beside t)
        { s with
          memory := Function.update s.memory (.nodeData x) bytes
          spec := { s.spec with data := Function.update s.spec.data x bytes } }

/-- The memory after `hashInit`. -/
def cleared (m : Memory α) : Memory α
  | .stat _ => (0 : UInt32)
  | .weight => (0 : UInt64)
  | .ncount _ => (0 : UInt32)
  | .head _ => (none : Option α)
  | .prev x => m (.prev x)
  | .next x => m (.next x)
  | .nodeData x => m (.nodeData x)

/-- The empty table. -/
def Spec.empty (m : Memory α) : Spec τ α where
  cells _ := []
  data x := m (.nodeData x)
  held _ := none
  log := []

/-- The table after `hashInit`, before any thread uses it. -/
def System.start (m : Memory α) : System τ α where
  locked _ := 0
  memory := cleared m
  control _ := .spin 0 .outside
  spec := .empty m

/-- The same for the table as it is meant. -/
def Atomic.start (m : Memory α) : Atomic τ α where
  holder _ := none
  spec := .empty m

/-! ## The invariant of the memory -/

/-- No node is in two places. -/
structure Spec.Apart (spec : Spec τ α) : Prop where
  nodup : ∀ i, (spec.cells i).Nodup
  unique : ∀ i j x, x ∈ spec.cells i → x ∈ spec.cells j → i = j
  held : ∀ i x t, spec.held x = some t → x ∉ spec.cells i

/-- The call that a thread is in. -/
def Control.call? : Control α → Option (Nat × Call α)
  | .spin _ _ => none
  | .calling i call _ => some (i, call)

/-- What is left of the call. -/
def Control.code : Control α → Routine α (Option α)
  | .spin _ _ => .ret none
  | .calling _ _ code => code

/-- The memory of a bucket that no function is at work on is the one of its nodes. A function
that is at work will leave it as the one of the nodes after it, and nobody else is at work on this
bucket. The bytes of a node are the ones that were written, wherever it is. -/
structure Table (memory : Memory α) (spec : Spec τ α) (calls : τ → Option (Nat × Call α))
    (code : τ → Routine α (Option α)) : Prop where
  single : ∀ t u i call call', calls t = some (i, call) → calls u = some (i, call') → t = u
  apart : spec.Apart
  bucket : ∀ i, (∀ t call, calls t ≠ some (i, call)) → Bucket memory spec.data i (spec.cells i)
  contract : ∀ t i call, calls t = some (i, call) → Contract spec t i call
  does : ∀ t i call, calls t = some (i, call) →
    Does body (owned i (call.nodes (spec.cells i))) racy
      (Leaves spec.data i (call.nodes (spec.cells i)) (call.after (spec.cells i))
        (call.answer spec.data (spec.cells i))) (code t) memory
  nodeData : ∀ x, (∀ t i call, calls t = some (i, call) → x ∉ call.nodes (spec.cells i)) →
    memory (.nodeData x) = spec.data x

omit [DecidableEq α] in
/-- The nodes of a call are in its bucket, or the one that is put in. -/
theorem Contract.mem_nodes {spec : Spec τ α} {t : τ} {i : Nat} {call : Call α} {x : α}
    (h : Contract spec t i call) (hx : x ∈ call.nodes (spec.cells i)) :
    x ∈ spec.cells i ∨ spec.held x = some t := by
  cases call with
  | find _ => exact .inl hx
  | insert node =>
      obtain rfl | hx := List.mem_cons.mp hx
      · exact .inr h
      · exact .inl hx
  | free _ => exact .inl hx

theorem Call.after_sub_nodes (call : Call α) (cells : List α) :
    ∀ x ∈ call.after cells, x ∈ call.nodes cells := by
  cases call with
  | find _ => exact fun _ hx => hx
  | insert _ => exact fun _ hx => hx
  | free node => exact fun _ hx => List.mem_of_mem_erase hx

namespace Table

variable {memory : Memory α} {spec : Spec τ α} {calls : τ → Option (Nat × Call α)}
  {code : τ → Routine α (Option α)} {t u : τ} {i j : Nat} {call call' : Call α}

/-- The nodes of a call are not in another bucket. -/
theorem nodes_apart (h : Table memory spec calls code) (ht : calls t = some (i, call))
    (hij : i ≠ j) : ∀ x ∈ call.nodes (spec.cells i), x ∉ spec.cells j := by
  intro x hx hj
  obtain hi | hheld := (h.contract t i call ht).mem_nodes hx
  · exact hij (h.apart.unique i j x hi hj)
  · exact h.apart.held j x t hheld hj

/-- A node that a thread has is in no call but its own. -/
theorem held_apart (h : Table memory spec calls code) {x : α} (hx : spec.held x = some t)
    (hu : calls u = some (i, call)) (htu : t ≠ u) : x ∉ call.nodes (spec.cells i) := by
  intro hmem
  obtain hi | hheld := (h.contract u i call hu).mem_nodes hmem
  · exact h.apart.held i x t hx hi
  · exact htu (Option.some.inj (hx.symm.trans hheld))

/-- Calls of two threads are in two buckets. -/
theorem buckets_ne (h : Table memory spec calls code) (ht : calls t = some (i, call))
    (hu : calls u = some (j, call')) (htu : t ≠ u) : i ≠ j := by
  rintro rfl
  exact htu (h.single t u i call call' ht hu)

/-- Two calls have no field in common. -/
theorem calls_apart (h : Table memory spec calls code) (ht : calls t = some (i, call))
    (hu : calls u = some (j, call')) (htu : t ≠ u) :
    ∀ l ∈ owned j (call'.nodes (spec.cells j)), l ∉ owned i (call.nodes (spec.cells i)) := by
  have hij := h.buckets_ne ht hu htu
  apply owned_apart (Ne.symm hij)
  intro x hx hx'
  obtain hj | hheld := (h.contract u j call' hu).mem_nodes hx
  · exact h.nodes_apart ht hij x hx' hj
  · exact h.held_apart hheld ht (Ne.symm htu) hx'

/-- A call has no field of another bucket. -/
theorem bucket_apart (h : Table memory spec calls code) (ht : calls t = some (i, call))
    (hij : i ≠ j) : ∀ l ∈ owned j (spec.cells j), l ∉ owned i (call.nodes (spec.cells i)) :=
  owned_apart (Ne.symm hij) fun x hx hx' => h.nodes_apart ht hij x hx' hx

/-- One access of a thread in a call. -/
theorem access [DecidableEq τ] (h : Table memory spec calls code) {c : Routine α (Option α)}
    {memory' : Memory α}
    (ht : calls t = some (i, call)) (hnext : (code t).next body memory = some (c, memory')) :
    Table memory' spec calls (Function.update code t c) := by
  obtain ⟨hdoes, hsame⟩ := (h.does t i call ht).next
    (leaves_local (call.after_sub_nodes _)) racy_apart hnext
  refine ⟨h.single, h.apart, fun j hj => ?_, h.contract, fun u j call' hu => ?_, fun x hx => ?_⟩
  · have hij : i ≠ j := by
      rintro rfl
      exact hj t call ht
    apply (h.bucket j hj).congr fun _ hx => hx
    exact fun l hl => hsame l (h.bucket_apart ht hij l hl) fun hracy => racy_apart l hracy hl
  · by_cases hut : u = t
    · subst hut
      obtain ⟨rfl, rfl⟩ := Prod.mk.inj (Option.some.inj (hu.symm.trans ht))
      rw [Function.update_self]
      exact hdoes
    · rw [Function.update_of_ne hut]
      apply (h.does u j call' hu).congr (leaves_local (call'.after_sub_nodes _))
      exact fun l hl => hsame l (h.calls_apart ht hu (Ne.symm hut) l hl) fun hracy =>
        racy_apart l hracy hl
  · rw [hsame _ (hx t i call ht) id]
    exact h.nodeData x hx

/-- A thread that has the bucket calls a function on it. -/
theorem enter [DecidableEq τ] (h : Table memory spec calls code) (ht : calls t = none)
    (hi : ∀ u call, calls u ≠ some (i, call)) (hcontract : Contract spec t i call) :
    Table memory spec (Function.update calls t (some (i, call)))
      (Function.update code t (call.code i)) := by
  have hcases : ∀ u j call',
      Function.update calls t (some (i, call)) u = some (j, call') →
      u = t ∧ j = i ∧ call' = call ∨ u ≠ t ∧ j ≠ i ∧ calls u = some (j, call') := by
    intro u j call' hu
    by_cases hut : u = t
    · subst hut
      rw [Function.update_self] at hu
      obtain ⟨rfl, rfl⟩ := Prod.mk.inj (Option.some.inj hu)
      exact .inl ⟨rfl, rfl, rfl⟩
    · rw [Function.update_of_ne hut] at hu
      refine .inr ⟨hut, ?_, hu⟩
      rintro rfl
      exact hi u call' hu
  have hkeep : ∀ u j call', calls u = some (j, call') →
      Function.update calls t (some (i, call)) u = some (j, call') := by
    intro u j call' hu
    have hut : u ≠ t := by
      rintro rfl
      rw [ht] at hu
      cases hu
    rw [Function.update_of_ne hut]
    exact hu
  have hbucket := h.bucket i hi
  have hdoes : Does body (owned i (call.nodes (spec.cells i))) racy
      (Leaves spec.data i (call.nodes (spec.cells i)) (call.after (spec.cells i))
        (call.answer spec.data (spec.cells i))) (call.code i) memory := by
    cases call with
    | find key => exact find_does hbucket key
    | insert node =>
        apply insert_does hbucket (h.apart.held i node t hcontract)
        apply h.nodeData
        intro u j call' hu
        apply h.held_apart hcontract hu
        rintro rfl
        rw [ht] at hu
        cases hu
    | free node => exact free_does hbucket hcontract
  refine ⟨?_, h.apart, ?_, ?_, ?_, ?_⟩
  · intro u v j call₁ call₂ hu hv
    obtain ⟨rfl, rfl, -⟩ | ⟨-, hji, hu⟩ := hcases u j call₁ hu
    · obtain ⟨rfl, -, -⟩ | ⟨-, hji, -⟩ := hcases v j call₂ hv
      · rfl
      · exact absurd rfl hji
    · obtain ⟨-, rfl, -⟩ | ⟨-, -, hv⟩ := hcases v j call₂ hv
      · exact absurd rfl hji
      · exact h.single u v j call₁ call₂ hu hv
  · exact fun j hj => h.bucket j fun u call' hu => hj u call' (hkeep u j call' hu)
  · intro u j call' hu
    obtain ⟨rfl, rfl, rfl⟩ | ⟨-, -, hu⟩ := hcases u j call' hu
    · exact hcontract
    · exact h.contract u j call' hu
  · intro u j call' hu
    obtain ⟨rfl, rfl, rfl⟩ | ⟨hut, -, hu⟩ := hcases u j call' hu
    · rw [Function.update_self]
      exact hdoes
    · rw [Function.update_of_ne hut]
      exact h.does u j call' hu
  · exact fun x hx => h.nodeData x fun u j call' hu => hx u j call' (hkeep u j call' hu)

/-- No node is in two places after a call. -/
theorem apart_answered (h : Table memory spec calls code) (ht : calls t = some (i, call))
    {r : Option α} : (spec.answered t i call r).Apart := by
  have hcontract := h.contract t i call ht
  have hcells : ∀ j x, x ∈ (spec.answered t i call r).cells j →
      j = i ∧ x ∈ call.after (spec.cells i) ∨ j ≠ i ∧ x ∈ spec.cells j := by
    intro j x hx
    by_cases hj : j = i
    · subst hj
      exact .inl ⟨rfl, by simpa [Spec.answered] using hx⟩
    · exact .inr ⟨hj, by simpa [Spec.answered, hj] using hx⟩
  refine ⟨fun j => ?_, fun j k x hj hk => ?_, fun j x u hheld hj => ?_⟩
  · by_cases hj : j = i
    · subst hj
      have hnodup : (call.after (spec.cells j)).Nodup := by
        cases call with
        | find _ => exact h.apart.nodup j
        | insert node =>
            exact List.nodup_cons.mpr ⟨h.apart.held j node t hcontract, h.apart.nodup j⟩
        | free node => exact (h.apart.nodup j).erase node
      simpa [Spec.answered] using hnodup
    · simpa [Spec.answered, hj] using h.apart.nodup j
  · obtain ⟨hji, hin⟩ | ⟨hji, hin⟩ := hcells j x hj
    · obtain ⟨hki, -⟩ | ⟨hki, hk'⟩ := hcells k x hk
      · rw [hji, hki]
      · exact (h.nodes_apart ht (Ne.symm hki) x (call.after_sub_nodes _ x hin) hk').elim
    · obtain ⟨-, hk'⟩ | ⟨-, hk'⟩ := hcells k x hk
      · exact (h.nodes_apart ht (Ne.symm hji) x (call.after_sub_nodes _ x hk') hin).elim
      · exact h.apart.unique j k x hin hk'
  · cases call with
    | find _ =>
        obtain ⟨rfl, hj⟩ | ⟨-, hj⟩ := hcells j x hj
        · exact h.apart.held j x u hheld hj
        · exact h.apart.held j x u hheld hj
    | insert node =>
        have hne : x ≠ node := by
          rintro rfl
          simp [Spec.answered, Call.heldAfter] at hheld
        have hheld' : spec.held x = some u := by
          simpa [Spec.answered, Call.heldAfter, hne] using hheld
        obtain ⟨rfl, hj⟩ | ⟨-, hj⟩ := hcells j x hj
        · exact h.apart.held j x u hheld' ((List.mem_cons.mp hj).resolve_left hne)
        · exact h.apart.held j x u hheld' hj
    | free node =>
        by_cases hx : x = node
        · subst hx
          obtain ⟨rfl, hj⟩ | ⟨hji, hj⟩ := hcells j x hj
          · exact (h.apart.nodup j).not_mem_erase hj
          · exact hji (h.apart.unique j i x hj hcontract)
        · have hheld' : spec.held x = some u := by
            simpa [Spec.answered, Call.heldAfter, hx] using hheld
          obtain ⟨rfl, hj⟩ | ⟨-, hj⟩ := hcells j x hj
          · exact h.apart.held j x u hheld' (List.mem_of_mem_erase hj)
          · exact h.apart.held j x u hheld' hj

/-- A call is answered as it is meant, and the memory is the one of the table after it. -/
theorem ret [DecidableEq τ] (h : Table memory spec calls code)
    {r : Option α} (ht : calls t = some (i, call))
    (hret : code t = .ret r) : r = call.answer spec.data (spec.cells i) ∧
      Table memory (spec.answered t i call r) (Function.update calls t none)
        (Function.update code t (.ret none)) := by
  have hdoes := h.does t i call ht
  rw [hret] at hdoes
  have hleaves := hdoes.of_ret
  have hcases : ∀ u j call', Function.update calls t none u = some (j, call') →
      u ≠ t ∧ j ≠ i ∧ calls u = some (j, call') := by
    intro u j call' hu
    have hut : u ≠ t := by
      rintro rfl
      rw [Function.update_self] at hu
      cases hu
    rw [Function.update_of_ne hut] at hu
    exact ⟨hut, h.buckets_ne hu ht hut, hu⟩
  have hcells : ∀ j, j ≠ i → (spec.answered t i call r).cells j = spec.cells j := fun j hj =>
    Function.update_of_ne hj ..
  refine ⟨hleaves.answer, ?_, h.apart_answered ht, ?_, ?_, ?_, ?_⟩
  · intro u v j call₁ call₂ hu hv
    exact h.single u v j call₁ call₂ (hcases u j call₁ hu).2.2 (hcases v j call₂ hv).2.2
  · intro j hj
    by_cases hji : j = i
    · subst hji
      simpa [Spec.answered] using hleaves.bucket
    · rw [hcells j hji]
      apply h.bucket j
      intro u call' hu
      have hut : u ≠ t := by
        rintro rfl
        exact hji (Prod.mk.inj (Option.some.inj (hu.symm.trans ht))).1
      apply hj u call'
      rwa [Function.update_of_ne hut]
  · intro u j call' hu
    obtain ⟨hut, hji, hu⟩ := hcases u j call' hu
    have hcontract := h.contract u j call' hu
    cases call' with
    | find _ => trivial
    | insert node =>
        have hnode : node ∉ call.nodes (spec.cells i) := h.held_apart hcontract ht hut
        show call.heldAfter spec.held t node = some u
        cases call with
        | find _ => exact hcontract
        | insert x =>
            have hne : node ≠ x := fun heq => hnode (heq ▸ List.mem_cons_self ..)
            exact (Function.update_of_ne hne ..).trans hcontract
        | free x =>
            have hne : node ≠ x := fun heq => hnode (heq ▸ h.contract t i (.free x) ht)
            exact (Function.update_of_ne hne ..).trans hcontract
    | free node =>
        show node ∈ (spec.answered t i call r).cells j
        rw [hcells j hji]
        exact hcontract
  · intro u j call' hu
    obtain ⟨hut, hji, hu⟩ := hcases u j call' hu
    rw [hcells j hji, Function.update_of_ne hut]
    exact h.does u j call' hu
  · intro x hx
    by_cases hxi : x ∈ call.nodes (spec.cells i)
    · exact hleaves.nodeData x hxi
    · apply h.nodeData x
      intro u j call' hu
      by_cases hut : u = t
      · subst hut
        obtain ⟨rfl, rfl⟩ := Prod.mk.inj (Option.some.inj (hu.symm.trans ht))
        exact hxi
      · have hji : j ≠ i := h.buckets_ne hu ht hut
        rw [← hcells j hji]
        apply hx u j call'
        rwa [Function.update_of_ne hut]

/-- A node goes from hand to hand, outside of calls. -/
theorem hand (h : Table memory spec calls code) {x : α} {holder : Option τ}
    (hfrom : ∀ u, spec.held x = some u → calls u = none)
    (hto : ∀ u, holder = some u → ∀ i, x ∉ spec.cells i) :
    Table memory { spec with held := Function.update spec.held x holder } calls code := by
  refine ⟨h.single, ⟨h.apart.nodup, h.apart.unique, fun i y u hy => ?_⟩, h.bucket,
    fun u i call' hu => ?_, h.does, h.nodeData⟩
  · by_cases hyx : y = x
    · subst hyx
      simp only [Function.update_self] at hy
      exact hto u hy i
    · simp only [Function.update_of_ne hyx] at hy
      exact h.apart.held i y u hy
  · have hcontract := h.contract u i call' hu
    cases call' with
    | find _ => trivial
    | insert node =>
        have hne : node ≠ x := by
          rintro rfl
          rw [hfrom u hcontract] at hu
          cases hu
        exact (Function.update_of_ne hne ..).trans hcontract
    | free node => exact hcontract

/-- A thread writes the bytes of a node that it has. -/
theorem write (h : Table memory spec calls code) {x : α} {bytes : List UInt8}
    (hx : spec.held x = some t) (ht : calls t = none) :
    Table (Function.update memory (.nodeData x) bytes)
      { spec with data := Function.update spec.data x bytes } calls code := by
  have hnodes : ∀ u i call', calls u = some (i, call') → x ∉ call'.nodes (spec.cells i) := by
    intro u i call' hu
    apply h.held_apart hx hu
    rintro rfl
    rw [ht] at hu
    cases hu
  have hcells : ∀ i, x ∉ spec.cells i := fun i => h.apart.held i x t hx
  have hdata : ∀ {nodes : List α}, x ∉ nodes → ∀ y ∈ nodes,
      Function.update spec.data x bytes y = spec.data y := fun hx y hy =>
    Function.update_of_ne (ne_of_mem_of_not_mem hy hx) ..
  have hagree : ∀ {i : Nat} {nodes : List α}, x ∉ nodes →
      Agree (owned i nodes) memory (Function.update memory (.nodeData x) bytes) := by
    intro i nodes hx
    have hloc : .nodeData x ∉ owned i nodes := hx
    exact agree_update hloc _
  have hbucket : ∀ {i : Nat} {cells : List α} {m : Memory α}, x ∉ cells →
      Bucket m spec.data i cells → Bucket m (Function.update spec.data x bytes) i cells :=
    fun hx hb => ⟨hb.linked, hb.ncount, hb.nodup, fun y hy =>
      (hb.nodeData y hy).trans (hdata hx y hy).symm⟩
  refine ⟨h.single, ⟨h.apart.nodup, h.apart.unique, h.apart.held⟩, fun i hi => ?_, h.contract,
    fun u i call' hu => ?_, fun y hy => ?_⟩
  · exact hbucket (hcells i) ((h.bucket i hi).congr (fun _ hy => hy) (hagree (hcells i)))
  · have hx' := hnodes u i call' hu
    have hanswer : call'.answer (Function.update spec.data x bytes) (spec.cells i) =
        call'.answer spec.data (spec.cells i) := by
      cases call' with
      | find key =>
          exact List.find?_congr fun y hy => by rw [hdata (hcells i) y hy]
      | insert _ => rfl
      | free _ => rfl
    have hdoes := (h.does u i call' hu).congr (leaves_local (call'.after_sub_nodes _)) (hagree hx')
    refine hdoes.mono fun r m hleaves => ⟨?_, ?_, fun y hy => ?_⟩
    · rw [hanswer]
      exact hleaves.answer
    · exact hbucket (fun hmem => hx' (call'.after_sub_nodes _ x hmem)) hleaves.bucket
    · exact (hleaves.nodeData y hy).trans (hdata hx' y hy).symm
  · by_cases hyx : y = x
    · subst hyx
      rw [Function.update_self]
      exact (Function.update_self y bytes spec.data).symm
    · have hloc : (.nodeData y : Loc α) ≠ .nodeData x := fun heq => hyx (Loc.nodeData.inj heq)
      rw [Function.update_of_ne hloc]
      exact (h.nodeData y hy).trans (Function.update_of_ne hyx ..).symm

end Table

/-! ## Runs -/

/-- The locks have these holders, and the memory is the one of the table. -/
structure Refines (s : System τ α) (holder : Nat → Option τ) : Prop where
  lock : ∀ i, Held (s.lock i) (holder i)
  table : Table s.memory s.spec (fun t => (s.control t).call?) fun t => (s.control t).code

omit [DecidableEq α] in
/-- A thread in a call has the bucket. -/
theorem Control.spinAt_call {control : Control α} {i : Nat} {call : Call α}
    (h : control.call? = some (i, call)) : control.spinAt i = .holding := by
  cases control with
  | spin _ _ => cases h
  | calling j call' code =>
      obtain ⟨rfl, rfl⟩ := Prod.mk.inj (Option.some.inj h)
      exact if_pos rfl

namespace Refines

theorem start (m : Memory α) : Refines (System.start m : System τ α) fun _ => none where
  lock i := by
    have hspin : ∀ t, ((System.start m : System τ α).lock i).spin t = .outside := fun _ =>
      ite_self _
    refine ⟨rfl, fun t => ?_, fun t => ?_⟩
    · rw [hspin]
      exact iff_of_false id nofun
    · rw [hspin]
      trivial
  table := by
    refine ⟨nofun, ⟨fun _ => .nil, fun _ _ _ => nofun, fun _ _ _ => nofun⟩, fun i _ => ?_, nofun,
      nofun, fun x _ => rfl⟩
    exact ⟨rfl, rfl, .nil, fun _ hx => nomatch hx⟩

variable [DecidableEq τ] {s s' : System τ α} {holder : Nat → Option τ} {hashsize : Nat} {t : τ}

omit [DecidableEq α] in
/-- The rest of the threads stay where they are. -/
theorem update_apply {β : Type} (f : Control α → β) (control : τ → Control α) (t : τ)
    (new : Control α) : (fun u => f (Function.update control t new u)) =
      Function.update (fun u => f (control u)) t (f new) := by
  funext u
  exact Function.apply_update (fun _ => f) control t new u

/-- A thread moves on and has the locks as before. -/
theorem lock_same (h : Refines s holder) (new : Control α) (hsound : ∀ i, (new.spinAt i).Sound)
    (howns : ∀ i, (new.spinAt i).Owns ↔ ((s.control t).spinAt i).Owns) (i : Nat) :
    Held ⟨s.locked i, fun u => (Function.update s.control t new u).spinAt i⟩ (holder i) := by
  rw [update_apply (Control.spinAt i)]
  exact (h.lock i).update_same (hsound i) (howns i)

/-- A thread moves on outside of calls. -/
theorem table_same (h : Refines s holder) {i j : Nat} {state state' : Spin}
    (hstate : s.control t = .spin i state) :
    Table s.memory s.spec (fun u => (Function.update s.control t (.spin j state') u).call?)
      fun u => (Function.update s.control t (.spin j state') u).code := by
  have hcall : none = (s.control t).call? := by rw [hstate]; rfl
  have hcode : .ret none = (s.control t).code := by rw [hstate]; rfl
  rw [update_apply Control.call?, update_apply Control.code]
  show Table _ _ (Function.update _ t none) (Function.update _ t (.ret none))
  rw [hcall, hcode, Function.update_eq_self, Function.update_eq_self]
  exact h.table

omit [DecidableEq τ] [DecidableEq α] in
theorem call_none (hout : (s.control t).Outside) : (s.control t).call? = none := by
  obtain ⟨i, state, hstate⟩ := hout
  rw [hstate]
  rfl

omit [DecidableEq τ] in
/-- A thread in a call is the holder. -/
theorem holder_of_call (h : Refines s holder) {i : Nat} {call : Call α}
    (ht : (s.control t).call? = some (i, call)) : holder i = some t := by
  apply ((h.lock i).owns t).mp
  show ((s.control t).spinAt i).Owns
  rw [Control.spinAt_call ht]
  trivial

/-- An instruction of the lock of a bucket: the other buckets keep their holders. -/
theorem spin (h : Refines s holder) {i : Nat} {state state' : Spin} {locked : BitVec 32}
    (hstate : s.control t = .spin i state)
    (hnext : state.next (s.locked i) = some (state', locked)) :
    ∃ holder', (∀ k, Held ⟨Function.update s.locked i locked k,
        fun u => (Function.update s.control t (.spin i state') u).spinAt k⟩ (holder' k)) ∧
      (holder' = holder ∨ ∃ e, AtomicStep ⟨holder, s.spec⟩ e ⟨holder', s.spec⟩) := by
  have hself : ((s.lock i).spin t).next (s.lock i).locked = some (state', locked) := by
    show ((s.control t).spinAt i).next (s.locked i) = _
    rw [hstate]
    simpa only [Control.spinAt, if_true] using hnext
  have hothers : ∀ {holder' : Nat → Option τ} k, k ≠ i → holder' k = holder k →
      Held ⟨Function.update s.locked i locked k,
        fun u => (Function.update s.control t (.spin i state') u).spinAt k⟩ (holder' k) := by
    intro holder' k hk hholder
    rw [Function.update_of_ne hk, hholder, update_apply (Control.spinAt k)]
    have hout : ∀ state, (Control.spin i state : Control α).spinAt k = .outside := fun _ =>
      if_neg (Ne.symm hk)
    have hspin : (s.control t).spinAt k = .outside := by rw [hstate, hout]
    rw [hout, ← hspin, Function.update_eq_self]
    exact h.lock k
  have hat : ∀ {holder' : Option τ},
    Held ⟨locked, Function.update (s.lock i).spin t state'⟩ holder' →
      Held ⟨Function.update s.locked i locked i,
        fun u => (Function.update s.control t (.spin i state') u).spinAt i⟩ holder' := by
    intro holder' hheld
    have hspin : (Control.spin i state' : Control α).spinAt i = state' := if_pos rfl
    rw [Function.update_self, update_apply (Control.spinAt i), hspin]
    exact hheld
  have hall : ∀ {holder' : Option τ},
    Held ⟨locked, Function.update (s.lock i).spin t state'⟩ holder' →
      ∀ k, Held ⟨Function.update s.locked i locked k,
        fun u => (Function.update s.control t (.spin i state') u).spinAt k⟩
          (Function.update holder i holder' k) := by
    intro holder' hheld k
    by_cases hk : k = i
    · subst hk
      have hholder : Function.update holder k holder' k = holder' := Function.update_self ..
      rw [hholder]
      exact hat hheld
    · exact hothers k hk (Function.update_of_ne hk ..)
  obtain ⟨holder', hheld, ⟨-, heq⟩ | ⟨-, hfree, rfl⟩ | ⟨-, howns, rfl⟩⟩ := (h.lock i).instr hself
  · refine ⟨_, hall hheld, .inl ?_⟩
    rw [heq, Function.update_eq_self]
  · exact ⟨_, hall hheld, .inr ⟨_, .lock hfree⟩⟩
  · exact ⟨_, hall hheld, .inr ⟨_, .unlock howns⟩⟩

/-- One step of a thread is a step of the table as it is meant, or none. -/
theorem step {e : Event τ α} (h : Refines s holder) (hstep : Step hashsize s e s') :
    ∃ holder', Refines s' holder' ∧ (holder' = holder ∧ s'.spec = s.spec ∨
      ∃ e', AtomicStep ⟨holder, s.spec⟩ e' ⟨holder', s'.spec⟩) := by
  cases hstep with
  | @lock t i hash zf hout =>
      refine ⟨holder, ⟨h.lock_same _ (fun k => ?_) fun k => ?_, h.table_same hout⟩,
        .inl ⟨rfl, rfl⟩⟩
      · simp only [Control.spinAt]
        split
        · exact rfl
        · trivial
      · rw [hout]
        simp only [Control.spinAt, ite_self]
        split
        · exact Iff.rfl
        · exact Iff.rfl
  | @unlock t i hhold =>
      refine ⟨holder, ⟨h.lock_same _ (fun k => ?_) fun k => ?_, h.table_same hhold⟩,
        .inl ⟨rfl, rfl⟩⟩
      · simp only [Control.spinAt]
        split <;> trivial
      · rw [hhold]
        simp only [Control.spinAt]
        split <;> exact Iff.rfl
  | @spin t i state state' locked hstate hnext =>
      obtain ⟨holder', hlock, hcase⟩ := h.spin hstate hnext
      refine ⟨holder', ⟨hlock, h.table_same hstate⟩, ?_⟩
      exact hcase.imp (fun heq => ⟨heq, rfl⟩) id
  | @call t i call hhold hcontract =>
      have ht : (s.control t).call? = none := call_none ⟨i, _, hhold⟩
      have hfree : ∀ u call', (s.control u).call? ≠ some (i, call') := by
        intro u call' hu
        have hholder : holder i = some t := by
          apply ((h.lock i).owns t).mp
          show ((s.control t).spinAt i).Owns
          rw [hhold]
          simp only [Control.spinAt, if_true]
          trivial
        obtain rfl := Option.some.inj (hholder.symm.trans (h.holder_of_call hu))
        rw [ht] at hu
        cases hu
      refine ⟨holder, ⟨h.lock_same _ (fun k => ?_) fun k => ?_, ?_⟩, .inl ⟨rfl, rfl⟩⟩
      · simp only [Control.spinAt]
        split <;> trivial
      · rw [hhold]
        exact Iff.rfl
      · rw [update_apply Control.call?, update_apply Control.code]
        exact h.table.enter ht hfree hcontract
  | @access t i call code code' memory hcalling hnext =>
      have ht : (s.control t).call? = some (i, call) := by rw [hcalling]; rfl
      have hcode : (s.control t).code.next body s.memory = some (code', memory) := by
        rw [hcalling]
        exact hnext
      refine ⟨holder, ⟨h.lock_same _ (fun k => ?_) fun k => ?_, ?_⟩, .inl ⟨rfl, rfl⟩⟩
      · simp only [Control.spinAt]
        split <;> trivial
      · rw [hcalling]
        exact Iff.rfl
      · rw [update_apply Control.call?, update_apply Control.code]
        show Table _ _ (Function.update _ t (some (i, call))) (Function.update _ t code')
        rw [← ht, Function.update_eq_self]
        exact h.table.access ht hcode
  | @ret t i call r hcalling =>
      have ht : (s.control t).call? = some (i, call) := by rw [hcalling]; rfl
      have hcode : (s.control t).code = .ret r := by rw [hcalling]; rfl
      obtain ⟨hr, htable⟩ := h.table.ret ht hcode
      refine ⟨holder, ⟨h.lock_same _ (fun k => ?_) fun k => ?_, ?_⟩, .inr ⟨.call t i call, ?_⟩⟩
      · simp only [Control.spinAt]
        split <;> trivial
      · rw [hcalling]
        exact Iff.rfl
      · rw [update_apply Control.call?, update_apply Control.code]
        exact htable
      · rw [hr]
        exact .call (h.holder_of_call ht) (h.table.contract t i call ht)
  | @take t x hout hnone hcells =>
      refine ⟨holder, ⟨h.lock, h.table.hand ?_ ?_⟩, .inr ⟨_, .beside (.take hnone hcells)⟩⟩
      · intro u hu
        rw [hnone] at hu
        cases hu
      · exact fun _ _ => hcells
  | @give t x hout hheld =>
      refine ⟨holder, ⟨h.lock, h.table.hand ?_ nofun⟩, .inr ⟨_, .beside (.give hheld)⟩⟩
      intro u hu
      obtain rfl := Option.some.inj (hheld.symm.trans hu)
      exact call_none hout
  | @write t x bytes hout hheld =>
      exact ⟨holder, ⟨h.lock, h.table.write hheld (call_none hout)⟩,
        .inr ⟨_, .beside (.write bytes hheld)⟩⟩

/-- Every run of the threads is a run of the table as it is meant. -/
theorem run {m : Memory α} {es : List (Event τ α)} (h : Run (Step hashsize) (.start m) es s) :
    ∃ holder es', Refines s holder ∧ Run AtomicStep (.start m) es' ⟨holder, s.spec⟩ := by
  refine h.invariant
    (I := fun s => ∃ holder es', Refines s holder ∧ Run AtomicStep (.start m) es' ⟨holder, s.spec⟩)
    ⟨fun _ => none, [], .start m, .refl _⟩ ?_
  rintro s e s' ⟨holder, es', hrefines, hrun⟩ hstep
  obtain ⟨holder', hrefines', ⟨rfl, hspec⟩ | ⟨e', hatomic⟩⟩ := hrefines.step hstep
  · exact ⟨holder', es', hrefines', hspec ▸ hrun⟩
  · exact ⟨holder', es' ++ [e'], hrefines', hrun.trans (.cons hatomic (.refl _))⟩

end Refines

/-- Whatever the order of the instructions and accesses of all threads, the threads see what a
table does that is locked, unlocked and called at once: the answers are its answers, and the
thread in a bucket is its holder. No function follows a null pointer, and a bucket that none is at
work on is in memory the doubly linked list of its nodes. -/
theorem table_linearizable [DecidableEq τ] {hashsize : Nat} {m : Memory α} {s : System τ α}
    {es : List (Event τ α)} (h : Run (Step hashsize) (.start m) es s) :
    (∃ holder es', Run AtomicStep (.start m) es' ⟨holder, s.spec⟩ ∧
      ∀ i t, ((s.control t).spinAt i).Owns ↔ holder i = some t) ∧
    (∀ i, (∀ t call, (s.control t).call? ≠ some (i, call)) →
      Bucket s.memory s.spec.data i (s.spec.cells i)) ∧
    ∀ t i call code, s.control t = .calling i call code →
      (∃ r, code = .ret r) ∨ ∃ code' m', code.next body s.memory = some (code', m') := by
  obtain ⟨holder, es', hrefines, hrun⟩ := Refines.run h
  refine ⟨⟨holder, es', hrun, fun i => (hrefines.lock i).owns⟩, hrefines.table.bucket, ?_⟩
  intro t i call code hcalling
  have hdoes := hrefines.table.does t i call (by rw [hcalling]; rfl)
  rw [hcalling] at hdoes
  exact hdoes.next_or.imp_left fun ⟨r, hr, _⟩ => ⟨r, hr⟩

/-- A thread is in the middle of an insertion, and another one waits for the bucket. -/
theorem table_linearizable_two : ∃ (m : Memory Nat) (s : System Bool Nat)
    (es : List (Event Bool Nat)) (code : Routine Nat (Option Nat)),
    Run (Step 4) (.start m) es s ∧ s.control true = .calling 1 (.insert 7) code ∧
      ((s.control false).spinAt 1).Waits ∧
      ∃ holder es', Run AtomicStep (.start m) es' ⟨holder, s.spec⟩ ∧
        ∀ i t, ((s.control t).spinAt i).Owns ↔ holder i = some t := by
  have hrun : ∃ (m : Memory Nat) (s : System Bool Nat) (es : List (Event Bool Nat))
      (code : Routine Nat (Option Nat)), Run (Step 4) (.start m) es s ∧
      s.control true = .calling 1 (.insert 7) code ∧ ((s.control false).spinAt 1).Waits := by
    refine ⟨fun l => match l with
      | .stat _ => (0 : UInt32)
      | .weight => (0 : UInt64)
      | .ncount _ => (0 : UInt32)
      | .head _ => (none : Option Nat)
      | .prev _ => (none : Option Nat)
      | .next _ => (none : Option Nat)
      | .nodeData _ => ([] : List UInt8), ?_⟩
    apply Exists.intro
    apply Exists.intro
    apply Exists.intro
    apply And.intro
    · apply Run.cons (@Step.lock _ _ _ _ _ _ true _ 5 false rfl)
      apply Run.cons (@Step.lock _ _ _ _ _ _ false _ 1 false rfl)
      apply Run.cons (@Step.spin _ _ _ _ _ _ true _ _ _ _ rfl rfl)
      apply Run.cons (@Step.spin _ _ _ _ _ _ false _ _ _ _ rfl rfl)
      apply Run.cons (@Step.spin _ _ _ _ _ _ true _ _ _ _ rfl rfl)
      apply Run.cons (@Step.spin _ _ _ _ _ _ true _ _ _ _ rfl rfl)
      apply Run.cons (@Step.take _ _ _ _ _ _ true 7 ⟨_, _, rfl⟩ rfl fun _ => List.not_mem_nil)
      apply Run.cons
      · exact @Step.call _ _ _ _ _ _ true _ (.insert 7) rfl rfl
      apply Run.cons (@Step.access _ _ _ _ _ _ true _ _ _ _ _ rfl rfl)
      exact .refl _
    · exact ⟨rfl, trivial⟩
  obtain ⟨m, s, es, code, hrun, hcalling, hwaits⟩ := hrun
  exact ⟨m, s, es, code, hrun, hcalling, hwaits, (table_linearizable hrun).1⟩

end Tapplet.GenericHash.Shared
