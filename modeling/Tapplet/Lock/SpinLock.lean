import Tapplet.Lib.Run

/-!
# The spinlock

`sf_spinlock_lock` and `sf_spinlock_unlock` are inline assembly. A thread executes one of their
instructions at a time, and any number of threads do so in any order. `Spin.next` is what an
instruction does to the registers of its thread and to the lock word. The threads together do
what `HolderStep` says of a lock that is taken and given back at once.
-/

namespace Tapplet.SpinLock

open Transition

/-- The instructions of `sf_spinlock_lock`, up to the label 3. -/
inductive LockPc where
  | xchg
  | test
  | jz
  | pause
  | cmpl
  | jnz
  | jmp
deriving DecidableEq

/-- Where a thread is: in `sf_spinlock_lock`, with the register of `lock_val` and the zero flag,
behind it, or before the `xchg` of `sf_spinlock_unlock`. -/
inductive Spin where
  | outside
  | locking (pc : LockPc) (lockVal : BitVec 32) (zf : Bool)
  | holding
  | unlocking
deriving DecidableEq

/-- The next instruction of a thread, where it is in one of the two functions, with the lock
word before and after it. -/
def Spin.next : Spin → BitVec 32 → Option (Spin × BitVec 32)
  | .outside, _ => none
  | .locking .xchg lockVal zf, locked => some (.locking .test locked zf, lockVal)
  | .locking .test lockVal _, locked =>
      some (.locking .jz lockVal (lockVal &&& lockVal = 0), locked)
  | .locking .jz lockVal zf, locked =>
      some (if zf then .holding else .locking .pause lockVal zf, locked)
  | .locking .pause lockVal zf, locked => some (.locking .cmpl lockVal zf, locked)
  | .locking .cmpl lockVal _, locked => some (.locking .jnz lockVal (locked = 0), locked)
  | .locking .jnz lockVal zf, locked =>
      some (.locking (if zf then .jmp else .pause) lockVal zf, locked)
  | .locking .jmp lockVal zf, locked => some (.locking .xchg lockVal zf, locked)
  | .holding, _ => none
  | .unlocking, _ => some (.outside, 0)

/-- `sf_spinlock_t`, with the threads that use it. -/
structure Lock (τ : Type*) where
  locked : BitVec 32
  spin : τ → Spin

variable {τ : Type*}

/-- `sf_spinlock_init`, before any thread uses the lock. -/
def init : Lock τ where
  locked := 0
  spin _ := .outside

inductive Event (τ : Type*) where
  | lock (t : τ)
  | unlock (t : τ)
  | instr (t : τ)
deriving DecidableEq

/-- A thread calls `sf_spinlock_lock` (whatever the zero flag is by then), calls
`sf_spinlock_unlock` when it has the lock, or executes its next instruction. -/
inductive Step [DecidableEq τ] : Lock τ → Event τ → Lock τ → Prop where
  | lock {s t} (zf : Bool) : s.spin t = .outside →
      Step s (.lock t) { s with spin := Function.update s.spin t (.locking .xchg 1 zf) }
  | unlock {s t} : s.spin t = .holding →
      Step s (.unlock t) { s with spin := Function.update s.spin t .unlocking }
  | instr {s t spin locked} : (s.spin t).next s.locked = some (spin, locked) →
      Step s (.instr t) ⟨locked, Function.update s.spin t spin⟩

/-! ## The lock as it is meant -/

/-- A lock that is taken and given back at once. -/
inductive HolderStep : Option τ → Event τ → Option τ → Prop where
  | lock (t : τ) : HolderStep none (.lock t) (some t)
  | unlock (t : τ) : HolderStep (some t) (.unlock t) none

/-- What the next instruction of a thread is to such a lock: the `xchg` of `sf_spinlock_lock`
that finds the word 0 takes it, the one of `sf_spinlock_unlock` gives it back. -/
def Spin.effect (t : τ) : Spin → BitVec 32 → Option (Event τ)
  | .locking pc _ _, locked => if pc = .xchg ∧ locked = 0 then some (.lock t) else none
  | .unlocking, _ => some (.unlock t)
  | .outside, _ | .holding, _ => none

def Lock.effect (s : Lock τ) : Event τ → Option (Event τ)
  | .instr t => (s.spin t).effect t s.locked
  | _ => none

/-- The steps of the threads, with a list of what the instructions so far were to the lock. -/
inductive TracedStep [DecidableEq τ] :
    Lock τ × List (Event τ) → Event τ → Lock τ × List (Event τ) → Prop where
  | traced {s e s' done} : Step s e s' → TracedStep (s, done) e (s', done ++ (s.effect e).toList)

/-- Calls of `sf_spinlock_lock` that a thread is in and that have not taken the lock yet. -/
def Spin.asking : Spin → Nat
  | .locking .test lockVal _ => if lockVal = 0 then 0 else 1
  | .locking .jz lockVal _ => if lockVal = 0 then 0 else 1
  | .locking .. => 1
  | _ => 0

/-- Calls of `sf_spinlock_unlock` that a thread is in and that have not given it back yet. -/
def Spin.returning : Spin → Nat
  | .unlocking => 1
  | _ => 0

/-! ## What an instruction can do -/

namespace Spin

/-- The thread has the lock, as soon as its `xchg` has found it free. -/
def Owns : Spin → Prop
  | .locking .test lockVal _ => lockVal = 0
  | .locking .jz lockVal _ => lockVal = 0
  | .holding => True
  | .unlocking => True
  | _ => False

/-- What the registers can hold. -/
def Sound : Spin → Prop
  | .locking .test lockVal _ => lockVal = 0 ∨ lockVal = 1
  | .locking .jz lockVal zf => (lockVal = 0 ∨ lockVal = 1) ∧ zf = decide (lockVal = 0)
  | .locking _ lockVal _ => lockVal = 1
  | _ => True

/-- The lock word as it must be when the lock is taken or free. -/
def word (taken : Prop) [Decidable taken] : BitVec 32 := if taken then 1 else 0

/-- An instruction takes the lock when it is free, gives it back, or neither, and only the
first two change the lock word. -/
theorem next_cases {spin spin' : Spin} {locked locked' : BitVec 32} (t : τ) (sound : spin.Sound)
    (hword : locked = 0 ∨ locked = 1) (hnext : spin.next locked = some (spin', locked')) :
    spin'.Sound ∧
      (spin.effect t locked = none ∧ locked' = locked ∧ (spin'.Owns ↔ spin.Owns) ∨
      spin.effect t locked = some (.lock t) ∧ locked = 0 ∧ locked' = 1 ∧ ¬spin.Owns ∧ spin'.Owns ∨
      spin.effect t locked = some (.unlock t) ∧ locked' = 0 ∧ spin.Owns ∧ ¬spin'.Owns) := by
  cases spin with
  | outside => cases hnext
  | holding => cases hnext
  | unlocking =>
      obtain ⟨rfl, rfl⟩ := Prod.mk.inj (Option.some.inj hnext)
      exact ⟨trivial, .inr (.inr ⟨rfl, rfl, trivial, id⟩)⟩
  | locking pc lockVal zf =>
      cases pc with
      | xchg =>
          obtain rfl : lockVal = 1 := sound
          obtain ⟨rfl, rfl⟩ := Prod.mk.inj (Option.some.inj hnext)
          refine ⟨hword, ?_⟩
          obtain rfl | rfl := hword
          · exact .inr (.inl ⟨rfl, rfl, rfl, id, rfl⟩)
          · exact .inl ⟨rfl, rfl, iff_of_false (by decide : ¬(1 : BitVec 32) = 0) id⟩
      | test =>
          obtain ⟨rfl, rfl⟩ := Prod.mk.inj (Option.some.inj hnext)
          refine ⟨⟨sound, ?_⟩, .inl ⟨rfl, rfl, Iff.rfl⟩⟩
          rw [BitVec.and_self]
      | jz =>
          obtain ⟨hval, rfl⟩ := sound
          obtain ⟨rfl, rfl⟩ := Prod.mk.inj (Option.some.inj hnext)
          obtain rfl | rfl := hval
          · exact ⟨trivial, .inl ⟨rfl, rfl, iff_of_true trivial rfl⟩⟩
          · exact ⟨rfl, .inl ⟨rfl, rfl, iff_of_false id (by decide : ¬(1 : BitVec 32) = 0)⟩⟩
      | jnz =>
          obtain ⟨rfl, rfl⟩ := Prod.mk.inj (Option.some.inj hnext)
          cases zf with
          | false => exact ⟨sound, .inl ⟨rfl, rfl, Iff.rfl⟩⟩
          | true => exact ⟨sound, .inl ⟨rfl, rfl, Iff.rfl⟩⟩
      | pause | cmpl | jmp =>
          obtain ⟨rfl, rfl⟩ := Prod.mk.inj (Option.some.inj hnext)
          exact ⟨sound, .inl ⟨rfl, rfl, Iff.rfl⟩⟩

variable [DecidableEq τ]

/-- An instruction takes the lock for its own call, and for no other one. -/
theorem next_asking {spin spin' : Spin} {locked locked' : BitVec 32} (t u : τ)
    (sound : spin.Sound) (hword : locked = 0 ∨ locked = 1)
    (hnext : spin.next locked = some (spin', locked')) :
    (spin.effect t locked).toList.count (.lock u) + (if u = t then spin'.asking else 0) =
      if u = t then spin.asking else 0 := by
  cases spin with
  | outside | holding => cases hnext
  | unlocking =>
      cases hnext
      simp [effect, asking]
  | locking pc lockVal zf =>
      cases pc with
      | xchg =>
          cases hnext
          obtain rfl | rfl := hword
          · by_cases hu : u = t
            · simp [effect, asking, hu]
            · simp [effect, hu, Ne.symm hu]
          · simp [effect, asking]
      | jz =>
          obtain ⟨hval, rfl⟩ := sound
          cases hnext
          obtain rfl | rfl := hval
          · simp [effect, asking]
          · simp [effect, asking]
      | jnz =>
          cases hnext
          cases zf with
          | false => simp [effect, asking]
          | true => simp [effect, asking]
      | test | pause | cmpl | jmp =>
          cases hnext
          simp [effect, asking]

/-- An instruction gives the lock back for its own call, and for no other one. -/
theorem next_returning {spin spin' : Spin} {locked locked' : BitVec 32} (t u : τ)
    (hnext : spin.next locked = some (spin', locked')) :
    (spin.effect t locked).toList.count (.unlock u) + (if u = t then spin'.returning else 0) =
      if u = t then spin.returning else 0 := by
  cases spin with
  | outside | holding => cases hnext
  | unlocking =>
      cases hnext
      by_cases hu : u = t
      · simp [effect, returning, hu]
      · simp [effect, hu, Ne.symm hu]
  | locking pc lockVal zf =>
      cases pc with
      | xchg =>
          cases hnext
          simp only [effect, true_and, returning, ite_self]
          split
          · simp
          · simp
      | jz | jnz =>
          cases hnext
          cases zf with
          | false => simp [effect, returning]
          | true => simp [effect, returning]
      | test | pause | cmpl | jmp =>
          cases hnext
          simp [effect, returning]

end Spin

/-! ## The threads together -/

/-- The word and the registers that go with a holder. -/
structure Held (s : Lock τ) (holder : Option τ) : Prop where
  word : s.locked = Spin.word holder.isSome
  owns : ∀ t, (s.spin t).Owns ↔ holder = some t
  sound : ∀ t, (s.spin t).Sound

namespace Held

variable {s s' : Lock τ} {holder : Option τ}

theorem start : Held (init : Lock τ) none where
  word := rfl
  owns t := iff_of_false id (by simp)
  sound _ := trivial

theorem word_cases (h : Held s holder) : s.locked = 0 ∨ s.locked = 1 := by
  rw [h.word, Spin.word]
  split
  · exact .inr rfl
  · exact .inl rfl

theorem free_iff (h : Held s holder) : s.locked = 0 ↔ holder = none := by
  rw [h.word, Spin.word]
  cases holder with
  | none => exact iff_of_true rfl rfl
  | some t => exact iff_of_false (by decide : ¬(1 : BitVec 32) = 0) (by simp)

/-- At most one thread has the lock. -/
theorem unique (h : Held s holder) {t t' : τ} (ht : (s.spin t).Owns) (ht' : (s.spin t').Owns) :
    t = t' :=
  Option.some.inj (((h.owns t).mp ht).symm.trans ((h.owns t').mp ht'))

variable [DecidableEq τ]

/-- A thread moves on, and the holder with it. -/
theorem update (h : Held s holder) {holder' : Option τ} {t : τ} {spin : Spin}
    (sound : spin.Sound) (owns : spin.Owns ↔ holder' = some t)
    (others : ∀ u, u ≠ t → (holder = some u ↔ holder' = some u)) :
    Held ⟨Spin.word holder'.isSome, Function.update s.spin t spin⟩ holder' where
  word := rfl
  owns u := by
    by_cases hu : u = t
    · subst hu
      simpa only [Function.update_self] using owns
    · simpa only [Function.update_of_ne hu, h.owns] using others u hu
  sound u := by
    by_cases hu : u = t
    · subst hu
      simpa only [Function.update_self] using sound
    · simpa only [Function.update_of_ne hu] using h.sound u

/-- A thread moves on, and has the lock as before. -/
theorem update_same (h : Held s holder) {t : τ} {spin : Spin} (sound : spin.Sound)
    (same : spin.Owns ↔ (s.spin t).Owns) :
    Held { s with spin := Function.update s.spin t spin } holder := by
  have hheld := h.update sound (same.trans (h.owns t)) fun _ _ => Iff.rfl
  rwa [← h.word] at hheld

/-- An instruction of a thread takes the lock for it, gives it back, or leaves it. -/
theorem instr (h : Held s holder) {t : τ} {spin : Spin} {locked : BitVec 32}
    (hnext : (s.spin t).next s.locked = some (spin, locked)) :
    ∃ holder', Held ⟨locked, Function.update s.spin t spin⟩ holder' ∧
      (s.effect (.instr t) = none ∧ holder' = holder ∨
      s.effect (.instr t) = some (.lock t) ∧ holder = none ∧ holder' = some t ∨
      s.effect (.instr t) = some (.unlock t) ∧ holder = some t ∧ holder' = none) := by
  obtain ⟨hsound, hcase⟩ := Spin.next_cases t (h.sound t) h.word_cases hnext
  obtain ⟨heff, rfl, hsame⟩ | ⟨heff, hfree, rfl, -, howns⟩ | ⟨heff, rfl, howns, hnot⟩ := hcase
  · exact ⟨holder, h.update_same hsound hsame, .inl ⟨heff, rfl⟩⟩
  · obtain rfl := h.free_iff.mp hfree
    refine ⟨some t, h.update hsound (iff_of_true howns rfl) fun u hu => ?_,
      .inr (.inl ⟨heff, rfl, rfl⟩)⟩
    exact iff_of_false nofun fun heq => hu (Option.some.inj heq).symm
  · obtain rfl := (h.owns t).mp howns
    have hheld : Held _ (none : Option τ) := h.update hsound (iff_of_false hnot nofun) fun u hu =>
      iff_of_false (fun heq => hu (Option.some.inj heq).symm) nofun
    exact ⟨none, hheld, .inr (.inr ⟨heff, rfl, rfl⟩)⟩

/-- What a thread does to the lock is what its effect does to the lock as it is meant. -/
theorem step {e : Event τ} (h : Held s holder) (hstep : Step s e s') :
    ∃ holder', Held s' holder' ∧ Run HolderStep holder (s.effect e).toList holder' := by
  cases hstep with
  | lock zf hout =>
      refine ⟨holder, h.update_same rfl ?_, .refl _⟩
      rw [hout]
      exact Iff.rfl
  | unlock hhold =>
      refine ⟨holder, h.update_same trivial ?_, .refl _⟩
      rw [hhold]
      exact Iff.rfl
  | @instr t spin locked hnext =>
      obtain ⟨holder', hheld, hcase⟩ := h.instr hnext
      refine ⟨holder', hheld, ?_⟩
      obtain ⟨heff, rfl⟩ | ⟨heff, rfl, rfl⟩ | ⟨heff, rfl, rfl⟩ := hcase
      · rw [heff]
        exact .refl _
      · rw [heff]
        exact .cons (.lock t) (.refl _)
      · rw [heff]
        exact .cons (.unlock t) (.refl _)

/-- The calls of a thread are those that have had their effect and the one it is in. -/
theorem step_count {e : Event τ} (h : Held s holder) (hstep : Step s e s') (u : τ) :
    (s.effect e).toList.count (.lock u) + (s'.spin u).asking =
        (s.spin u).asking + [e].count (.lock u) ∧
      (s.effect e).toList.count (.unlock u) + (s'.spin u).returning =
        (s.spin u).returning + [e].count (.unlock u) := by
  cases hstep with
  | @lock t zf hout =>
      by_cases hu : u = t
      · subst hu
        simp [Lock.effect, hout, Spin.asking, Spin.returning]
      · simp [Lock.effect, hu, Ne.symm hu]
  | @unlock t hhold =>
      by_cases hu : u = t
      · subst hu
        simp [Lock.effect, hhold, Spin.asking, Spin.returning]
      · simp [Lock.effect, hu, Ne.symm hu]
  | @instr t spin locked hnext =>
      have hask := Spin.next_asking t u (h.sound t) h.word_cases hnext
      have hret := Spin.next_returning t u hnext
      by_cases hu : u = t
      · subst hu
        simpa [Lock.effect] using And.intro hask hret
      · simpa [Lock.effect, hu] using And.intro hask hret

/-- A run of the threads, traced: what the instructions were to the lock is a run of the lock
as it is meant, and takes and gives back the lock once for each call. -/
theorem run {es : List (Event τ)} (h : Held s holder) (hrun : Run Step s es s')
    (done : List (Event τ)) :
    ∃ new holder', Run TracedStep (s, done) es (s', done ++ new) ∧ Held s' holder' ∧
      Run HolderStep holder new holder' ∧ ∀ u,
        new.count (.lock u) + (s'.spin u).asking = (s.spin u).asking + es.count (.lock u) ∧
          new.count (.unlock u) + (s'.spin u).returning =
            (s.spin u).returning + es.count (.unlock u) := by
  induction hrun generalizing holder done with
  | refl s =>
      refine ⟨[], holder, ?_, h, .refl _, fun u => ⟨by simp, by simp⟩⟩
      rw [List.append_nil]
      exact .refl _
  | @cons s e t es s' hstep hrun ih =>
      obtain ⟨holder₁, hheld, heff⟩ := h.step hstep
      obtain ⟨new, holder', htraced, hheld', hmeant, hcount⟩ :=
        ih hheld (done ++ (s.effect e).toList)
      refine ⟨(s.effect e).toList ++ new, holder', ?_, hheld', heff.trans hmeant, fun u => ?_⟩
      · rw [← List.append_assoc]
        exact .cons (.traced hstep) htraced
      · obtain ⟨hlock, hunlock⟩ := h.step_count hstep u
        obtain ⟨hlocks, hunlocks⟩ := hcount u
        rw [← List.singleton_append, List.count_append, List.count_append, List.count_append,
          List.count_append]
        constructor
        · omega
        · omega

end Held

/-! ## A free lock is taken -/

namespace Spin

/-- The thread is in `sf_spinlock_lock`. -/
def Waits : Spin → Prop
  | .locking .. => True
  | _ => False

/-- How many instructions a thread is from the lock, when nobody else has it. -/
def distance : Spin → Nat
  | .locking .test lockVal _ => if lockVal = 0 then 2 else 9
  | .locking .jz lockVal _ => if lockVal = 0 then 1 else 8
  | .locking .jnz _ zf => if zf then 5 else 8
  | .locking .pause _ _ => 7
  | .locking .cmpl _ _ => 6
  | .locking .jmp _ _ => 4
  | .locking .xchg _ _ => 3
  | _ => 0

theorem distance_le (spin : Spin) : spin.distance ≤ 9 := by
  unfold distance
  repeat' split
  all_goals decide

/-- Each instruction brings the thread closer. -/
theorem next_closer {spin : Spin} {locked : BitVec 32} (sound : spin.Sound) (waits : spin.Waits)
    (free : spin.Owns ∨ locked = 0) : ∃ spin' locked', spin.next locked = some (spin', locked') ∧
      spin'.distance < spin.distance ∧ (spin' = .holding ∨ spin'.Waits) := by
  cases spin with
  | outside | holding | unlocking => exact waits.elim
  | locking pc lockVal zf =>
      cases pc with
      | xchg =>
          obtain rfl : locked = 0 := free.resolve_left id
          exact ⟨_, _, rfl, Nat.lt_add_one 2, .inr trivial⟩
      | test =>
          refine ⟨_, _, rfl, ?_, .inr trivial⟩
          obtain rfl | rfl := sound
          · exact Nat.lt_add_one 1
          · exact Nat.lt_add_one 8
      | jz =>
          obtain ⟨rfl | rfl, rfl⟩ := sound
          · exact ⟨_, _, rfl, Nat.lt_add_one 0, .inl rfl⟩
          · exact ⟨_, _, rfl, Nat.lt_add_one 7, .inr trivial⟩
      | pause => exact ⟨_, _, rfl, Nat.lt_add_one 6, .inr trivial⟩
      | cmpl =>
          obtain rfl : locked = 0 := free.resolve_left id
          exact ⟨_, _, rfl, Nat.lt_add_one 5, .inr trivial⟩
      | jnz =>
          refine ⟨_, _, rfl, ?_, .inr trivial⟩
          cases zf with
          | false => exact Nat.lt_add_one 7
          | true => exact Nat.lt_add_one 4
      | jmp => exact ⟨_, _, rfl, Nat.lt_add_one 3, .inr trivial⟩

end Spin

/-- A waiting thread gets the lock with its own instructions, when nobody else has it. -/
theorem Held.taken [DecidableEq τ] {d : Nat} {s : Lock τ} {holder : Option τ} {t : τ}
    (h : Held s holder) (waits : (s.spin t).Waits) (free : holder = none ∨ holder = some t)
    (hd : (s.spin t).distance ≤ d) :
    ∃ n s', n ≤ d ∧ Run Step s (List.replicate n (.instr t)) s' ∧ s'.spin t = .holding := by
  induction d generalizing s holder with
  | zero =>
      obtain ⟨_, _, -, hlt, -⟩ := Spin.next_closer (h.sound t) waits
        (free.symm.imp (h.owns t).mpr h.free_iff.mpr)
      omega
  | succ d ih =>
      obtain ⟨spin, locked, hnext, hlt, hcase⟩ := Spin.next_closer (h.sound t) waits
        (free.symm.imp (h.owns t).mpr h.free_iff.mpr)
      have hstep : Step s (.instr t) _ := .instr hnext
      have hspin : Function.update s.spin t spin t = spin := Function.update_self ..
      obtain rfl | hwaits := hcase
      · exact ⟨1, _, Nat.le_add_left 1 d, .cons hstep (.refl _), hspin⟩
      · obtain ⟨holder', hheld, hholder⟩ := h.instr hnext
        have hfree : holder' = none ∨ holder' = some t := by
          obtain ⟨-, rfl⟩ | ⟨-, -, rfl⟩ | ⟨-, -, rfl⟩ := hholder
          · exact free
          · exact .inr rfl
          · exact .inl rfl
        obtain ⟨n, s', hle, hrun, hhold⟩ := ih hheld
          (by simpa only [hspin] using hwaits) hfree (by simp only [hspin]; omega)
        exact ⟨n + 1, s', Nat.succ_le_succ hle, .cons hstep hrun, hhold⟩

/-- A thread that has the lock is at its end of `sf_spinlock_lock` or gives the lock back with
at most two instructions of its own. -/
theorem Held.past [DecidableEq τ] {s : Lock τ} {holder : Option τ} {t : τ} (h : Held s holder)
    (owns : (s.spin t).Owns) : ∃ n s', n ≤ 2 ∧ Run Step s (List.replicate n (.instr t)) s' ∧
      (s'.spin t = .holding ∨ s'.spin t = .outside ∧ s'.locked = 0) := by
  cases hspin : s.spin t with
  | outside =>
      rw [hspin] at owns
      exact owns.elim
  | holding => exact ⟨0, s, Nat.zero_le 2, .refl s, .inl hspin⟩
  | unlocking =>
      have hstep : Step s (.instr t) _ := .instr (by rw [hspin]; rfl)
      refine ⟨1, _, Nat.le_succ 1, .cons hstep (.refl _), .inr ⟨Function.update_self .., rfl⟩⟩
  | locking pc lockVal zf =>
      have hwaits : (s.spin t).Waits := by rw [hspin]; trivial
      have hdist : (s.spin t).distance ≤ 2 := by
        rw [hspin] at owns ⊢
        cases pc with
        | test | jz =>
            obtain rfl : lockVal = 0 := owns
            simp [Spin.distance]
        | xchg | pause | cmpl | jnz | jmp => exact owns.elim
      obtain ⟨n, s', hn, hrun, hhold⟩ := h.taken hwaits (.inr ((h.owns t).mp owns)) hdist
      exact ⟨n, s', hn, hrun, .inl hhold⟩

/-- Whatever the order of the instructions of all threads, what they are to the lock is a run of
a lock that is taken and given back at once, in which each call has its effect once, while the
thread is in it. At most one thread is between the two functions; when the word is 0, every
thread that waits gets the lock with at most nine instructions of its own, and a thread that has
the lock leaves the function it is in with at most two. -/
theorem spinlock_exclusive [DecidableEq τ] {s : Lock τ} {es : List (Event τ)}
    (h : Run Step init es s) :
    (∃ effects holder, Run TracedStep (init, []) es (s, effects) ∧
      Run HolderStep none effects holder ∧ (∀ t, (s.spin t).Owns ↔ holder = some t) ∧
      ∀ t, effects.count (.lock t) + (s.spin t).asking = es.count (.lock t) ∧
        effects.count (.unlock t) + (s.spin t).returning = es.count (.unlock t)) ∧
      (∀ t t', s.spin t = .holding → s.spin t' = .holding → t = t') ∧
      (s.locked = 0 → ∀ t, (s.spin t).Waits →
        ∃ n s', n ≤ 9 ∧ Run Step s (List.replicate n (.instr t)) s' ∧ s'.spin t = .holding) ∧
      (s.locked ≠ 0 → ∃ t, (s.spin t).Owns ∧
        ∃ n s', n ≤ 2 ∧ Run Step s (List.replicate n (.instr t)) s' ∧
          (s'.spin t = .holding ∨ s'.spin t = .outside ∧ s'.locked = 0)) := by
  obtain ⟨effects, holder, htraced, hheld, hmeant, hcount⟩ := Held.start.run h []
  have howns : ∀ t, s.spin t = .holding → (s.spin t).Owns := fun t ht => ht.symm ▸ trivial
  refine ⟨⟨effects, holder, htraced, hmeant, hheld.owns, fun t => ?_⟩,
    fun t t' ht ht' => hheld.unique (howns t ht) (howns t' ht'), fun hfree t ht => ?_,
    fun hword => ?_⟩
  · simpa [init, Spin.asking, Spin.returning] using hcount t
  · exact hheld.taken ht (.inl (hheld.free_iff.mp hfree)) (Spin.distance_le _)
  · obtain ⟨t, rfl⟩ := Option.ne_none_iff_exists'.mp (mt hheld.free_iff.mpr hword)
    have hown := (hheld.owns t).mpr rfl
    exact ⟨t, hown, hheld.past hown⟩

/-- A thread waits while another one has the lock, and takes it afterwards. -/
theorem spinlock_exclusive_two : ∃ (s : Lock Bool) (es : List (Event Bool)), Run Step init es s ∧
    (∃ effects, Run TracedStep (init, []) es (s, effects) ∧ effects.count (.lock true) = 1) ∧
    ∃ n s', n ≤ 9 ∧ Run Step s (List.replicate n (.instr false)) s' ∧ s'.spin false = .holding := by
  have hrun : ∃ (s : Lock Bool) (es : List (Event Bool)), Run Step init es s ∧
      s.locked = 0 ∧ (s.spin false).Waits ∧ es.count (.lock true) = 1 ∧
      (s.spin true).asking = 0 := by
    apply Exists.intro
    apply Exists.intro
    apply And.intro
    · apply Run.cons (@Step.lock _ _ _ true false rfl)
      apply Run.cons (@Step.instr _ _ _ true _ _ rfl)
      apply Run.cons (@Step.lock _ _ _ false false rfl)
      apply Run.cons (@Step.instr _ _ _ false _ _ rfl)
      apply Run.cons (@Step.instr _ _ _ true _ _ rfl)
      apply Run.cons (@Step.instr _ _ _ false _ _ rfl)
      apply Run.cons (@Step.instr _ _ _ true _ _ rfl)
      apply Run.cons (@Step.unlock _ _ _ true rfl)
      exact .cons (@Step.instr _ _ _ true _ _ rfl) (.refl _)
    · exact ⟨rfl, trivial, by decide, rfl⟩
  obtain ⟨s, es, hrun, hfree, hwaits, hcalls, hasking⟩ := hrun
  obtain ⟨⟨effects, -, htraced, -, -, hcount⟩, -, hget, -⟩ := spinlock_exclusive hrun
  have hlocks := (hcount true).1
  rw [hasking, hcalls] at hlocks
  exact ⟨s, es, hrun, ⟨effects, htraced, hlocks⟩, hget hfree false hwaits⟩

end Tapplet.SpinLock
