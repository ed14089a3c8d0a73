import Tapplet.Lib.Counter
import Tapplet.Stat.Interface

/-!
# Interface statistics are conserved

What the threads have added to a counter is in the total of the interface, in the run that
goes on, or ahead of the old record of its thread. The old record of a thread moves when its
record is copied, which happens only after the physical read has succeeded, and then the run
goes on to its end.
-/

namespace Tapplet.Stat

open Transition

variable {threads : Nat} {s t : State} {device : Nat → Device} {failed : Nat → Bool}

theorem set₂_self {α β γ : Type*} [DecidableEq α] [DecidableEq β] (f : α → β → γ) (a : α) (b : β)
    (x : γ) : set₂ f a b x a b = x := by
  simp [set₂]

theorem set₂_of_ne {α β γ : Type*} [DecidableEq α] [DecidableEq β] {f : α → β → γ} {a a' : α}
    {b b' : β} {x : γ} (h : ¬(a' = a ∧ b' = b)) : set₂ f a b x a' b' = f a' b' := by
  by_cases ha : a' = a
  · subst ha
    have hb : b' ≠ b := fun hb => h ⟨rfl, hb⟩
    simp [set₂, hb]
  · simp [set₂, ha]

/-- What the run that goes on has collected for an interface. -/
def State.going (s : State) (m : Member) (i : Nat) : Nat :=
  match s.pass with
  | none => 0
  | some p => if p.intfIndex = i then s.history.interval m else 0

/-- What holds of a run between two of its steps. -/
structure Pass.Ok (threads : Nat) (s : State) (p : Pass) : Prop where
  thread : p.thread ≤ threads
  count : ∀ m, p.newStat.count m = BitVec.ofNat 64 (s.history.interval m)
  phy : ∀ m, p.newStat.phy m =
    BitVec.ofNat 64 (s.history.readAt p.intfIndex m % 2 ^ (s.device p.intfIndex).width)
  mask : p.newStat.phyMask = BitVec.ofNat 64 (2 ^ (s.device p.intfIndex).width - 1)

/-- What the statistics say of the device of an interface. -/
structure DeviceOk (s : State) (i : Nat) : Prop where
  width : (s.device i).width ≤ 64
  read_le : ∀ m, s.history.readAt i m ≤ (s.device i).count m
  read_lt : ∀ m, (s.device i).count m - s.history.readAt i m < 2 ^ (s.device i).width
  last_le : ∀ m, s.history.last i m ≤ s.history.readAt i m
  last_lt : ∀ m, s.history.readAt i m - s.history.last i m < 2 ^ (s.device i).width
  first_le : ∀ m, s.history.first i m ≤ s.history.last i m
  old : ∀ m, (s.oldStat i).phy m =
    BitVec.ofNat 64 (s.history.last i m % 2 ^ (s.device i).width)
  rxMiss : (s.interfaces i).rxMissPackets =
    BitVec.ofNat 64 (s.history.last i .rxMiss - s.history.first i .rxMiss)
  txOk : (s.interfaces i).txOkPackets =
    BitVec.ofNat 64 (s.history.last i .txPackets - s.history.first i .txPackets)

structure Inv (threads : Nat) (s : State) : Prop where
  main : ∀ j m i, s.statMain j m i = BitVec.ofNat 64 (s.history.made j m i)
  old : ∀ j m i, s.oldRecord j m i = BitVec.ofNat 64 (s.history.seen j m i)
  seen_le : ∀ j m i, s.history.seen j m i ≤ s.history.made j m i
  total : ∀ i name, (s.interfaces i).total name =
    BitVec.ofNat 64 (s.history.collected (.inOutDrop name) i)
  books : ∀ m i, s.history.collected m i + s.going m i =
    ∑ j ∈ Finset.range threads, s.history.seen j m i
  pass : ∀ p, s.pass = some p → p.Ok threads s
  device : ∀ i, DeviceOk s i
  resting : ∀ i, (∀ p, s.pass = some p → p.intfIndex ≠ i) → s.history.readAt i = s.history.last i

/-- A device whose first read failed has counted less than its modulus until then. -/
structure Ready (device : Nat → Device) (failed : Nat → Bool) : Prop where
  width : ∀ i, (device i).width ≤ 64
  fresh : ∀ i m, failed i ∨ i + 1 > Actions.MAX_INTERFACE_CNT →
    (device i).count m < 2 ^ (device i).width

theorem inv_start (h : Ready device failed) : Inv threads (.start device failed) where
  main := fun _ _ _ => rfl
  old := fun _ _ _ => rfl
  seen_le := fun _ _ _ => Nat.le_refl 0
  total := fun _ _ => rfl
  books := by simp [State.start, State.going]
  pass := by simp [State.start]
  device := by
    intro i
    by_cases hfailed : failed i ∨ i + 1 > Actions.MAX_INTERFACE_CNT
    · have hold : (State.start device failed).oldStat i = .zero := by
        rcases hfailed with hfailed | hmax
        · simp only [State.start, initIntfPhyRecord, updateSingleIntfPhyStatics, hfailed, if_true]
          split <;> rfl
        · simp only [State.start, initIntfPhyRecord, updateSingleIntfPhyStatics]
          rw [if_pos (.inr hmax)]
      have hlast : (State.start device failed).history.last i = fun _ => 0 :=
        funext fun _ => if_pos hfailed
      have hreadAt : (State.start device failed).history.readAt i = fun _ => 0 := hlast
      exact
        { width := h.width i
          read_le := by
            intro m
            rw [hreadAt]
            exact Nat.zero_le _
          read_lt := by
            intro m
            rw [hreadAt]
            exact h.fresh i m hfailed
          last_le := fun _ => Nat.le_refl _
          last_lt := by
            intro m
            rw [hreadAt, hlast, Nat.sub_self]
            exact Nat.two_pow_pos _
          first_le := fun _ => Nat.le_refl _
          old := by
            intro m
            rw [hold, hlast, Nat.zero_mod]
            rfl
          rxMiss := by simp [State.start, SingleInterfaceStat.zero]
          txOk := by simp [State.start, SingleInterfaceStat.zero] }
    · obtain ⟨hread, hmax⟩ := not_or.mp hfailed
      have hlast : (State.start device failed).history.last i = (device i).count :=
        funext fun _ => if_neg hfailed
      have hreadAt : (State.start device failed).history.readAt i = (device i).count := hlast
      have hold : (State.start device failed).oldStat i =
          transPortStaticsToOldStat (device i).read .zero := by
        simp only [State.start, initIntfPhyRecord, updateSingleIntfPhyStatics, if_neg hread]
        rw [if_neg (not_or.mpr ⟨nofun, hmax⟩)]
      exact
        { width := h.width i
          read_le := by
            intro m
            rw [hreadAt]
            exact Nat.le_refl _
          read_lt := by
            intro m
            rw [hreadAt]
            show (device i).count m - (device i).count m < _
            rw [Nat.sub_self]
            exact Nat.two_pow_pos _
          last_le := fun _ => Nat.le_refl _
          last_lt := by
            intro m
            rw [hreadAt, hlast, Nat.sub_self]
            exact Nat.two_pow_pos _
          first_le := fun _ => Nat.le_refl _
          old := by
            intro m
            rw [hold, hlast]
            rfl
          rxMiss := by simp [State.start, SingleInterfaceStat.zero]
          txOk := by simp [State.start, SingleInterfaceStat.zero] }
  resting := fun _ _ => rfl

/-! ## Threads and devices -/

theorem Inv.add (h : Inv threads s) (j : Nat) (m : Member) (i : Nat) (d : BitVec 64) :
    Inv threads (s.add j m i d) := by
  have hmade : ∀ j' m' i', s.history.made j' m' i' ≤ (s.add j m i d).history.made j' m' i' := by
    intro j' m' i'
    by_cases hj : j' = j
    · subst hj
      by_cases hm : m' = m ∧ i' = i
      · obtain ⟨rfl, rfl⟩ := hm
        simp [State.add, set₂_self]
      · simp [State.add, set₂_of_ne hm]
    · simp [State.add, hj]
  exact
    { main := by
        intro j' m' i'
        have hmain := h.main j' m' i'
        by_cases hj : j' = j
        · subst hj
          by_cases hm : m' = m ∧ i' = i
          · obtain ⟨rfl, rfl⟩ := hm
            simp [State.add, set₂_self, hmain, BitVec.ofNat_add]
          · simp [State.add, set₂_of_ne hm, hmain]
        · simp [State.add, hj, hmain]
      old := h.old
      seen_le := fun j' m' i' => Nat.le_trans (h.seen_le j' m' i') (hmade j' m' i')
      total := h.total
      books := h.books
      pass := fun p hp => ⟨(h.pass p hp).1, (h.pass p hp).2, (h.pass p hp).3, (h.pass p hp).4⟩
      device := fun i' => { h.device i' with }
      resting := h.resting }

theorem Inv.count (h : Inv threads s) {i : Nat} {m : PhyMember} {d : Nat}
    (few : (s.device i).count m + d - s.history.readAt i m < 2 ^ (s.device i).width) :
    Inv threads (s.count i m d) := by
  have hwidth : ∀ i', ((s.count i m d).device i').width = (s.device i').width := by
    intro i'
    by_cases hi : i' = i
    · subst hi
      simp [State.count]
    · simp [State.count, hi]
  have hcount : ∀ i' m', ((s.count i m d).device i').count m' =
      (s.device i').count m' + if i' = i ∧ m' = m then d else 0 := by
    intro i' m'
    by_cases hi : i' = i
    · subst hi
      by_cases hm : m' = m
      · simp [State.count, hm]
      · simp [State.count, hm]
    · simp [State.count, hi]
  exact
    { main := h.main
      old := h.old
      seen_le := h.seen_le
      total := h.total
      books := h.books
      pass := by
        intro p hp
        obtain ⟨hthread, hcollected, hphy, hmask⟩ := h.pass p hp
        exact
          { thread := hthread
            count := hcollected
            phy := fun m' => by rw [hwidth]; exact hphy m'
            mask := by rw [hwidth]; exact hmask }
      device := by
        intro i'
        obtain ⟨width, read_le, read_lt, last_le, last_lt, first_le, old, rxMiss, txOk⟩ :=
          h.device i'
        exact
          { width := by rwa [hwidth]
            read_le := fun m' => by
              rw [hcount]
              exact Nat.le_add_right_of_le (read_le m')
            read_lt := fun m' => by
              rw [hcount, hwidth]
              split
              · rename_i hm
                obtain ⟨rfl, rfl⟩ := hm
                exact few
              · exact read_lt m'
            last_le
            last_lt := fun m' => by rw [hwidth]; exact last_lt m'
            first_le
            old := fun m' => by rw [hwidth]; exact old m'
            rxMiss
            txOk }
      resting := h.resting }

/-! ## Runs of `calculate_single_interface` -/

/-- A call whose physical read fails changes nothing; another one starts a run. -/
theorem call_cases (s : State) (i : Nat) (failed : Bool) :
    s.call i failed = s ∨
      s.call i failed =
        { s with
          pass := some ⟨i, 0, ⟨fun _ => 0, (s.device i).read.counter, (s.device i).read.mask⟩⟩
          history := { s.history with
            interval := fun _ => 0
            readAt := Function.update s.history.readAt i (s.device i).count } } := by
  by_cases hmax : i + 1 > Actions.MAX_INTERFACE_CNT
  · simp [State.call, updateSingleIntfPhyStatics, hmax]
  · cases failed with
    | true => simp [State.call, updateSingleIntfPhyStatics, hmax]
    | false =>
        simp [State.call, updateSingleIntfPhyStatics, hmax, transPortStaticsToOldStat,
          IntfOldStat.zero]

theorem Inv.call (h : Inv threads s) (resting : s.pass = none) (i : Nat) (failed : Bool) :
    Inv threads (s.call i failed) := by
  obtain heq | heq := call_cases s i failed
  · rwa [heq]
  have hrest : ∀ i', s.history.readAt i' = s.history.last i' := fun i' =>
    h.resting i' (by simp [resting])
  rw [heq]
  exact
    { main := h.main
      old := h.old
      seen_le := h.seen_le
      total := h.total
      books := by
        intro m i'
        have hbooks := h.books m i'
        simp only [State.going, resting] at hbooks
        simp [State.going, hbooks]
      pass := by
        rintro p hp
        obtain rfl := Option.some.inj hp
        exact
          { thread := Nat.zero_le _
            count := fun _ => rfl
            phy := fun m => by simp [Device.read]
            mask := rfl }
      device := by
        intro i'
        obtain ⟨width, read_le, read_lt, last_le, last_lt, first_le, old, rxMiss, txOk⟩ :=
          h.device i'
        by_cases hi : i' = i
        · subst hi
          refine
            { width, first_le, old, rxMiss, txOk
              read_le := ?_
              read_lt := ?_
              last_le := ?_
              last_lt := ?_ }
          · intro m
            simp
          · intro m
            exact lt_of_eq_of_lt (by simp) (Nat.two_pow_pos _)
          · intro m
            simpa using Nat.le_trans (last_le m) (read_le m)
          · intro m
            have hlt := read_lt m
            rw [hrest] at hlt
            simpa using hlt
        · refine
            { width, first_le, old, rxMiss, txOk
              read_le := ?_
              read_lt := ?_
              last_le := ?_
              last_lt := ?_ }
          · simpa [hi] using read_le
          · simpa [hi] using read_lt
          · simpa [hi] using last_le
          · simpa [hi] using last_lt
      resting := by
        intro i' hne
        have hi : i' ≠ i := fun hi => hne _ rfl hi.symm
        simpa [hi] using hrest i' }

theorem copy_eq {p : Pass} (hp : s.pass = some p) :
    s.copy =
      { s with
        oldRecord := Function.update s.oldRecord p.thread
          (keepRecord p.intfIndex (s.statMain p.thread) (s.oldRecord p.thread))
        pass := some { p with
          thread := p.thread + 1
          newStat := collectThread p.intfIndex (s.statMain p.thread) (s.oldRecord p.thread)
            p.newStat }
        history := { s.history with
          seen := Function.update s.history.seen p.thread fun m =>
            Function.update (s.history.seen p.thread m) p.intfIndex
              (s.history.made p.thread m p.intfIndex)
          interval := fun m => s.history.interval m +
            (s.history.made p.thread m p.intfIndex - s.history.seen p.thread m p.intfIndex)
              } } := by
  simp only [State.copy, hp]

/-- The interval takes over what the thread is ahead of its old record. -/
theorem Inv.copy (h : Inv threads s) {p : Pass} (hp : s.pass = some p)
    (hthread : p.thread < threads) : Inv threads s.copy := by
  obtain ⟨-, hcollected, hphy, hmask⟩ := h.pass p hp
  have hseen : ∀ j m i, s.copy.history.seen j m i =
      if j = p.thread ∧ i = p.intfIndex then s.history.made j m i else s.history.seen j m i := by
    intro j m i
    rw [copy_eq hp]
    by_cases hj : j = p.thread
    · subst hj
      by_cases hi : i = p.intfIndex
      · simp [hi]
      · simp [hi]
    · simp [hj]
  have hpass : ∀ q, s.copy.pass = some q → q = { p with
      thread := p.thread + 1
      newStat := collectThread p.intfIndex (s.statMain p.thread) (s.oldRecord p.thread)
        p.newStat } := by
    intro q hq
    rw [copy_eq hp] at hq
    exact (Option.some.inj hq).symm
  refine
    { main := ?_
      old := ?_
      seen_le := ?_
      total := ?_
      books := ?_
      pass := ?_
      device := ?_
      resting := ?_ }
  · rw [copy_eq hp]
    exact h.main
  · intro j m i
    rw [hseen, copy_eq hp]
    by_cases hj : j = p.thread
    · subst hj
      by_cases hi : i = p.intfIndex
      · simp [hi, keepRecord, h.main]
      · simp [hi, keepRecord, h.old]
    · simp [hj, h.old]
  · intro j m i
    have hmade : s.copy.history.made = s.history.made := by rw [copy_eq hp]
    rw [hseen, hmade]
    split
    · exact Nat.le_refl _
    · exact h.seen_le j m i
  · rw [copy_eq hp]
    exact h.total
  · intro m i
    have hbooks := h.books m i
    have hle := h.seen_le p.thread m i
    have hgoing : s.copy.going m i = s.going m i +
        if i = p.intfIndex then s.history.made p.thread m i - s.history.seen p.thread m i
        else 0 := by
      rw [copy_eq hp]
      by_cases hi : i = p.intfIndex
      · subst hi
        simp [State.going, hp]
      · simp [State.going, hp, hi, Ne.symm hi]
    have hsum := Counter.sum_exchange (f := fun j => s.history.seen j m i)
      (g := fun j => s.copy.history.seen j m i) (Finset.mem_range.mpr hthread)
      fun j _ hj => by simp [hseen, hj]
    have hcollected : s.copy.history.collected = s.history.collected := by rw [copy_eq hp]
    rw [hcollected, hgoing]
    simp only [hseen p.thread] at hsum
    by_cases hi : i = p.intfIndex
    · simp only [hi, and_self, if_true] at hsum ⊢
      rw [hi] at hbooks hle
      omega
    · simp only [hi, and_false, if_false] at hsum ⊢
      omega
  · intro q hq
    obtain rfl := hpass q hq
    have hinterval : ∀ m, s.copy.history.interval m = s.history.interval m +
        (s.history.made p.thread m p.intfIndex - s.history.seen p.thread m p.intfIndex) := by
      intro m
      rw [copy_eq hp]
    refine
      { thread := hthread
        count := ?_
        phy := ?_
        mask := ?_ }
    · intro m
      have hdiff : s.statMain p.thread m p.intfIndex - s.oldRecord p.thread m p.intfIndex =
          BitVec.ofNat 64 (s.history.made p.thread m p.intfIndex -
            s.history.seen p.thread m p.intfIndex) := by
        rw [h.main, h.old]
        exact Counter.sub_ofNat (h.seen_le ..)
      rw [hinterval, BitVec.ofNat_add, ← hcollected m, ← hdiff]
      rfl
    · rw [copy_eq hp]
      exact hphy
    · rw [copy_eq hp]
      exact hmask
  · intro i
    rw [copy_eq hp]
    exact { h.device i with }
  · intro i hne
    rw [copy_eq hp] at hne ⊢
    have hother := hne _ rfl
    exact h.resting i fun q hq => by
      obtain rfl : p = q := by simpa [hp] using hq
      exact hother

theorem finish_eq {p : Pass} (hp : s.pass = some p) :
    s.finish =
      { s with
        interfaces := Function.update s.interfaces p.intfIndex
          (addInterval (s.oldStat p.intfIndex) p.newStat (s.interfaces p.intfIndex))
        oldStat := Function.update s.oldStat p.intfIndex p.newStat
        pass := none
        history := { s.history with
          collected := fun m =>
            Function.update (s.history.collected m) p.intfIndex
              (s.history.collected m p.intfIndex + s.history.interval m)
          interval := fun _ => 0
          last := Function.update s.history.last p.intfIndex
            (s.history.readAt p.intfIndex) } } := by
  simp only [State.finish, hp]

/-- The masked difference of the registers is what the device has counted between the reads. -/
theorem DeviceOk.grown {i : Nat} (h : DeviceOk s i) {p : Pass} (ok : p.Ok threads s)
    (hi : p.intfIndex = i) (m : PhyMember) :
    (p.newStat.phy m - (s.oldStat i).phy m) &&& p.newStat.phyMask =
      BitVec.ofNat 64 (s.history.readAt i m - s.history.last i m) := by
  rw [ok.phy, ok.mask, hi, h.old]
  exact Counter.sub_and_mask h.width (h.last_le m) (h.last_lt m)

theorem DeviceOk.finish {i : Nat} (h : DeviceOk s i) {p : Pass} (hp : s.pass = some p)
    (ok : p.Ok threads s) : DeviceOk s.finish i := by
  have hgrown : ∀ m, s.history.last i m - s.history.first i m +
      (s.history.readAt i m - s.history.last i m) =
        s.history.readAt i m - s.history.first i m := by
    intro m
    have hlast := h.last_le m
    have hfirst := h.first_le m
    omega
  rw [finish_eq hp]
  by_cases hi : p.intfIndex = i
  · subst hi
    exact
      { width := h.width
        read_le := h.read_le
        read_lt := h.read_lt
        last_le := by simp
        last_lt := fun m => lt_of_eq_of_lt (by simp) (Nat.two_pow_pos _)
        first_le := by simpa using fun m => Nat.le_trans (h.first_le m) (h.last_le m)
        old := by simpa using ok.phy
        rxMiss := by
          simp only [Function.update_self, addInterval]
          rw [h.rxMiss, h.grown ok rfl, ← BitVec.ofNat_add, hgrown]
        txOk := by
          simp only [Function.update_self, addInterval]
          rw [h.txOk, h.grown ok rfl, ← BitVec.ofNat_add, hgrown] }
  · have hi := Ne.symm hi
    exact
      { width := h.width
        read_le := h.read_le
        read_lt := h.read_lt
        last_le := by simpa [hi] using h.last_le
        last_lt := by simpa [hi] using h.last_lt
        first_le := by simpa [hi] using h.first_le
        old := by simpa [hi] using h.old
        rxMiss := by simpa [hi] using h.rxMiss
        txOk := by simpa [hi] using h.txOk }

theorem Inv.finish (h : Inv threads s) {p : Pass} (hp : s.pass = some p) :
    Inv threads s.finish := by
  have ok := h.pass p hp
  refine
    { main := ?_
      old := ?_
      seen_le := ?_
      total := ?_
      books := ?_
      pass := by simp [finish_eq hp]
      device := fun i => (h.device i).finish hp ok
      resting := ?_ }
  · rw [finish_eq hp]
    exact h.main
  · rw [finish_eq hp]
    exact h.old
  · rw [finish_eq hp]
    exact h.seen_le
  · intro i name
    rw [finish_eq hp]
    by_cases hi : i = p.intfIndex
    · subst hi
      simp only [Function.update_self, addInterval]
      rw [h.total, ok.count, BitVec.ofNat_add]
    · simp [hi, h.total]
  · intro m i
    have hbooks := h.books m i
    rw [finish_eq hp]
    by_cases hi : i = p.intfIndex
    · subst hi
      simpa [State.going, hp] using hbooks
    · simpa [State.going, hp, hi, Ne.symm hi] using hbooks
  · intro i _
    rw [finish_eq hp]
    by_cases hi : i = p.intfIndex
    · simp [hi]
    · have hrest := h.resting i fun q hq hqi => by
        obtain rfl : p = q := by simpa [hp] using hq
        exact hi hqi.symm
      simpa [hi] using hrest

theorem Inv.step {e : Event} (h : Inv threads s) (hstep : Step threads s e t) : Inv threads t := by
  obtain ⟨enabled, rfl⟩ := hstep
  cases e with
  | add j m i d => exact h.add j m i d
  | count i m d => exact h.count enabled
  | call i failed => exact h.call enabled i failed
  | copy =>
      obtain ⟨p, hp, hthread⟩ := enabled
      exact h.copy hp hthread
  | finish =>
      obtain ⟨p, hp, -⟩ := enabled
      exact h.finish hp

/-! ## Conservation -/

/-- What has been added to a counter of an interface and is in no total yet: in the run that
goes on, or ahead of the old records. -/
def uncollected (threads : Nat) (s : State) (m : Member) (i : Nat) : Nat :=
  (match s.pass with
    | none => 0
    | some p => if p.intfIndex = i then (p.newStat.count m).toNat else 0) +
  ∑ j ∈ Finset.range threads, (s.statMain j m i - s.oldRecord j m i).toNat

/-- The sum of what the threads have added to a counter of an interface. -/
def added (threads : Nat) (s : State) (m : Member) (i : Nat) : Nat :=
  ∑ j ∈ Finset.range threads, s.history.made j m i

/-- Every addition of a thread is in one interval total, or still ahead of its old record. -/
theorem Inv.once (h : Inv threads s) (m : Member) (i : Nat) :
    s.history.collected m i + s.going m i +
        ∑ j ∈ Finset.range threads, (s.history.made j m i - s.history.seen j m i) =
      added threads s m i := by
  rw [h.books, added, ← Finset.sum_add_distrib]
  exact Finset.sum_congr rfl fun j _ => Nat.add_sub_cancel' (h.seen_le j m i)

theorem Inv.going_eq (h : Inv threads s) (m : Member) (i : Nat) :
    (match s.pass with
      | none => 0
      | some p => if p.intfIndex = i then (p.newStat.count m).toNat else 0) =
      s.going m i % 2 ^ 64 := by
  rw [State.going]
  cases hp : s.pass with
  | none => rfl
  | some p =>
      simp only
      split
      · rw [(h.pass p hp).count, BitVec.toNat_ofNat]
      · rfl

theorem Inv.ahead (h : Inv threads s) (j : Nat) (m : Member) (i : Nat) :
    (s.statMain j m i - s.oldRecord j m i).toNat =
      (s.history.made j m i - s.history.seen j m i) % 2 ^ 64 := by
  rw [h.main, h.old, Counter.sub_ofNat (h.seen_le j m i), BitVec.toNat_ofNat]

/-- Totals and differences together are what was added, as far as 64 bits go. -/
theorem Inv.conserved (h : Inv threads s) (name : InOutDrop) (i : Nat) :
    ((s.interfaces i).total name).toNat + uncollected threads s (.inOutDrop name) i ≡
      added threads s (.inOutDrop name) i [MOD 2 ^ 64] := by
  have hsum : ∑ j ∈ Finset.range threads,
        (s.statMain j (.inOutDrop name) i - s.oldRecord j (.inOutDrop name) i).toNat ≡
      ∑ j ∈ Finset.range threads,
        (s.history.made j (.inOutDrop name) i - s.history.seen j (.inOutDrop name) i)
        [MOD 2 ^ 64] := by
    simp only [h.ahead]
    exact (Finset.sum_nat_mod _ _ _).symm
  rw [← h.once, uncollected, h.going_eq, h.total, BitVec.toNat_ofNat, ← Nat.add_assoc]
  exact ((Nat.mod_modEq ..).add (Nat.mod_modEq ..)).add hsum

/-- And exactly so, as long as what was added fits in 64 bits. -/
theorem Inv.conserved_of_lt (h : Inv threads s) {name : InOutDrop} {i : Nat}
    (fits : added threads s (.inOutDrop name) i < 2 ^ 64) :
    ((s.interfaces i).total name).toNat + uncollected threads s (.inOutDrop name) i =
      added threads s (.inOutDrop name) i := by
  have honce := h.once (.inOutDrop name) i
  have hle : ∀ j ∈ Finset.range threads,
      s.history.made j (.inOutDrop name) i - s.history.seen j (.inOutDrop name) i < 2 ^ 64 := by
    intro j hj
    have hone := Finset.single_le_sum (f := fun j => s.history.made j (.inOutDrop name) i)
      (fun _ _ => Nat.zero_le _) hj
    have hone : s.history.made j (.inOutDrop name) i ≤
      added threads s (.inOutDrop name) i := hone
    omega
  have hsum : ∑ j ∈ Finset.range threads,
        (s.statMain j (.inOutDrop name) i - s.oldRecord j (.inOutDrop name) i).toNat =
      ∑ j ∈ Finset.range threads,
        (s.history.made j (.inOutDrop name) i - s.history.seen j (.inOutDrop name) i) :=
    Finset.sum_congr rfl fun j hj => by rw [h.ahead, Nat.mod_eq_of_lt (hle j hj)]
  rw [uncollected, h.going_eq, h.total, BitVec.toNat_ofNat, hsum, Nat.mod_eq_of_lt (by omega),
    Nat.mod_eq_of_lt (by omega), ← Nat.add_assoc, honce]

/-- Interface counters are conserved. At any time of any run, each addition of a thread is in
the interval total of one run or ahead of the thread's old record; the totals of in, out and
drop with what is not collected yet are what the threads have added, in the arithmetic of the
counters and exactly while that fits; and the totals of the physical counters have grown by
what the device has counted from the first read to that of the last run. -/
theorem interface_counters_conserved {es : List Event} (ready : Ready device failed)
    (hrun : Run (Step threads) (.start device failed) es s) (i : Nat) :
    (∀ m, s.history.collected m i + s.going m i +
        ∑ j ∈ Finset.range threads, (s.history.made j m i - s.history.seen j m i) =
      added threads s m i) ∧
    (∀ p, s.pass = some p → ∀ m,
      p.newStat.count m = BitVec.ofNat 64 (s.history.interval m)) ∧
    (∀ name, ((s.interfaces i).total name).toNat + uncollected threads s (.inOutDrop name) i ≡
        added threads s (.inOutDrop name) i [MOD 2 ^ 64]) ∧
    (∀ name, added threads s (.inOutDrop name) i < 2 ^ 64 →
      ((s.interfaces i).total name).toNat + uncollected threads s (.inOutDrop name) i =
        added threads s (.inOutDrop name) i) ∧
    (s.interfaces i).txOkPackets =
      BitVec.ofNat 64 (s.history.last i .txPackets - s.history.first i .txPackets) ∧
    (s.interfaces i).rxMissPackets =
      BitVec.ofNat 64 (s.history.last i .rxMiss - s.history.first i .rxMiss) := by
  have h : Inv threads s := hrun.invariant (inv_start ready) fun _ _ _ hs hstep => hs.step hstep
  exact ⟨fun m => h.once m i, fun p hp => (h.pass p hp).count, fun name => h.conserved name i,
    fun name => h.conserved_of_lt, (h.device i).txOk, (h.device i).rxMiss⟩

/-- A device with 8-bit registers. -/
def sampleDevice : Nat → Device := fun _ => ⟨8, fun _ => 250⟩

/-- Two threads receive packets, the first while a run copies the record of the second; the
transmitted packets wrap, and one physical read fails. -/
def sampleEvents : List Event :=
  [.add 0 (.inOutDrop .inPackets) 0 5, .call 0 false, .copy, .add 0 (.inOutDrop .inPackets) 0 2,
    .add 1 (.inOutDrop .inPackets) 0 7, .copy, .finish, .count 0 .txPackets 100, .call 0 true,
    .call 0 false, .copy, .copy, .finish]

def sampleState : State := sampleEvents.foldl State.after (.start sampleDevice fun _ => false)

theorem interface_counters_conserved_sample :
    ((sampleState.interfaces 0).total .inPackets = 14 ∧
      (sampleState.interfaces 0).txOkPackets = 100) ∧
    ((sampleState.interfaces 0).total .inPackets).toNat +
        uncollected 2 sampleState (.inOutDrop .inPackets) 0 =
      added 2 sampleState (.inOutDrop .inPackets) 0 := by
  have hrun : Run (Step 2) (.start sampleDevice fun _ => false) sampleEvents sampleState :=
    Run.of_checked (fun _ _ h => ⟨h, rfl⟩) (by decide +kernel)
  have ready : Ready sampleDevice fun _ => false :=
    ⟨fun _ => by simp [sampleDevice], fun _ _ _ => by simp [sampleDevice]⟩
  obtain ⟨-, -, -, hexact, -⟩ := interface_counters_conserved ready hrun 0
  exact ⟨by decide +kernel, hexact .inPackets (by decide +kernel)⟩

end Tapplet.Stat
