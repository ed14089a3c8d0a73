import Tapplet.Timer.System

/-!
# Timers fire exactly once and on time

Each event keeps every timer accounted for, and moves timers in one direction only, from
waiting to late to delivered. The theorem about runs chains these steps.
-/

namespace Tapplet.SfTimer

open Transition

variable {env : NodeEnv} {tw : SfTwTimer} {held expired : List ChunkId}
  {chunks : Nat → List ChunkId} {count : Nat} {waiting late delivered : List Entry}

/-! ## The loop over expired chunks -/

/-- The loop delivers the first late entries, at least one if there is any. -/
theorem pollLoop_spec (room_pos : ∀ k, 0 < env.room k) (fuel : Nat) (p : Poll)
    (h : WheelInv p.tw p.tw.expireChunkList p.held chunks expired count waiting late) :
    ∃ expired' k,
      WheelInv (pollLoop env fuel p).tw (pollLoop env fuel p).tw.expireChunkList
        (pollLoop env fuel p).held chunks expired' count waiting (late.drop k) ∧
      (pollLoop env fuel p).tw =
        { p.tw with expireChunkList := (pollLoop env fuel p).tw.expireChunkList } ∧
      (pollLoop env fuel p).sent.Perm
        (p.sent ++ (late.take k).map fun e => slotTarget env p.tw e.data) ∧
      (0 < fuel → late ≠ [] → 0 < k) := by
  induction fuel generalizing p expired late with
  | zero => exact ⟨expired, 0, h, rfl, by simp [pollLoop], by simp⟩
  | succ fuel ih =>
      rw [pollLoop]
      split
      · rename_i hnone
        obtain ⟨rfl, rfl⟩ := (hnone ▸ h).expired_eq_nil
        exact ⟨[], 0, h, rfl, by simp, by simp⟩
      · rename_i c hsome
        rw [hsome] at h
        obtain ⟨cs, rfl, hpos, hrest, hslots⟩ := h.takeChunk
        obtain ⟨tw, htw⟩ : ∃ tw : SfTwTimer,
          tw = { p.tw with expireChunkList := p.tw.nextChunk c } := ⟨_, rfl⟩
        have hsent := sfTimerInputInternal_sent tw room_pos c p.sent p.gets
        have hchunk : tw.chunk = p.tw.chunk := by rw [htw]
        have htarget : slotTarget env tw = slotTarget env p.tw := by rw [htw]; rfl
        rw [hchunk, hslots, htarget, List.map_map] at hsent
        have hinv : WheelInv tw tw.expireChunkList (p.held.erase c) chunks cs count waiting
            (late.drop (p.tw.chunk c).currentSlotCnt) := by
          rw [htw]
          exact hrest.of_eq rfl rfl rfl
        have hfirst : tw = { p.tw with expireChunkList := tw.expireChunkList } := by rw [htw]
        rw [← htw]
        dsimp only
        split
        · exact ⟨cs, (p.tw.chunk c).currentSlotCnt, hinv, hfirst, hsent, fun _ _ => hpos⟩
        · obtain ⟨expired', k, hinv', htw', hsent', -⟩ :=
            ih ⟨tw, p.held.erase c, (sfTimerInputInternal env tw c p.sent p.gets).frame.sent,
              (sfTimerInputInternal env tw c p.sent p.gets).frame.gets,
              p.retCnt + (sfTimerInputInternal env tw c p.sent p.gets).notZeroCnt⟩ hinv
          refine ⟨expired', (p.tw.chunk c).currentSlotCnt + k, ?_, ?_, ?_, ?_⟩
          · rw [List.drop_drop] at hinv'
            exact hinv'
          · rw [htw', hfirst]
          · refine hsent'.trans ?_
            simp only [htarget]
            refine (hsent.append_right _).trans ?_
            rw [List.append_assoc, List.take_add, List.map_append]
            exact .refl _
          · intro _ _
            omega

/-! ## One event -/

/-- How far an event takes the late timers: they are delivered in order, and a poll
delivers one at least. -/
structure Progress (e : Event) (late delivered late' delivered' : List Entry) : Prop where
  grows : ∃ new, delivered' = delivered ++ new
  drains : late ≠ [] → ∃ k, late' = late.drop k ∧ delivered' = delivered ++ late.take k ∧
    (e = .poll → 0 < k)

theorem Progress.none {e : Event} (he : e ≠ .poll) (late delivered : List Entry) :
    Progress e late delivered late delivered :=
  ⟨⟨[], by simp⟩, fun _ => ⟨0, by simp, by simp, fun h => (he h).elim⟩⟩

variable {s s' : System}

theorem EntryOf.mono {e : Entry} (h : EntryOf s e)
    (start : s'.tw.timerInfoStart = s.tw.timerInfoStart)
    (timers : ∀ t, s.timers[e.id]? = some t → s'.timers[e.id]? = some t) : EntryOf s' e := by
  obtain ⟨t, ht, hdue, hdata⟩ := h
  refine ⟨t, timers t ht, hdue, ?_⟩
  rw [hdata, Timer.data, Timer.data, SfTwTimer.handleOf, SfTwTimer.handleOf, start]

theorem slotTarget_congr (env : NodeEnv) {tw' : SfTwTimer}
    (start : tw'.timerInfoStart = tw.timerInfoStart) :
    slotTarget env tw' = slotTarget env tw := by
  funext data
  rw [slotTarget, slotTarget, SfTwTimer.infoOf, SfTwTimer.infoOf, start]

/-- The number of a timer that is accounted for is a position in the list of timers. -/
theorem Accounted.id_lt (h : Accounted env s waiting late delivered) {e : Entry}
    (he : e ∈ waiting ++ late ++ delivered) : e.id < s.timers.length :=
  List.mem_range.mp (h.ids.mem_iff.mp (List.mem_map_of_mem he))

/-- The safe time of the record of a submit, when the ticks leave room for it. -/
theorem safeTime_eq {ticks interval : Nat} (hticks : 2 ≤ ticks) (hmax : ticks ≤ sfTimerMaxTicks)
    (hlast : tw.lastRunTime = count * interval) (hinterval : tw.timerInterval = interval) :
    safeTime tw ticks = (count + ticks - 2) * interval := by
  have hmod : (ticks + 2 ^ 32 - 2) % 2 ^ 32 = ticks - 2 := by
    have hbound : ticks ≤ 16384 := hmax
    omega
  rw [safeTime, hmod, hlast, hinterval, ← Nat.add_mul, Nat.add_sub_assoc hticks]

/-- A timer that a submit has stored in the wheel is accounted for as a waiting one. -/
theorem Accounted.append (h : Accounted env s waiting late delivered) {tw' : SfTwTimer}
    {held' : List ChunkId} {addr : SlotAddr} {t : Timer} {safeClibTime : Nat}
    (hclock : SameClock s.tw tw')
    (hwheel : ∃ chunks expired, WheelInv tw' s.tw.expireChunkList held' chunks expired s.advanced
      (waiting ++ [⟨s.timers.length, addr, s.tw.handleOf t.groupId t.timerInfo, t.due⟩]) late)
    (hrunning : t.stopped = false)
    (hknown : 0 < t.groupId ∧ t.groupId < 2 ^ 8 ∧ t.timerInfo < 2 ^ 64 ∧
      (t.timerInfo + 2 ^ 64 - s.tw.timerInfoStart) % 2 ^ 64 < 2 ^ 56 ∧ t.ticks ≤ t.due ∧
      t.ticks ≤ sfTimerMaxTicks)
    (hsafe : 2 ≤ t.ticks → safeClibTime = (t.due - 2) * s.tw.timerInterval) :
    ∃ waiting', Accounted env
      { s with
        tw := tw'
        held := held'
        timers := s.timers ++ [t]
        records := s.records ++ [⟨addr, t.timerInfo, safeClibTime⟩] } waiting' late delivered := by
  obtain ⟨chunks, expired, hwheel⟩ := hwheel
  obtain ⟨e, he⟩ : ∃ e : Entry, e =
    ⟨s.timers.length, addr, s.tw.handleOf t.groupId t.timerInfo, t.due⟩ := ⟨_, rfl⟩
  rw [← he] at hwheel
  have hold : ∀ x ∈ waiting ++ late ++ delivered, x.id ≠ s.timers.length := fun x hx =>
    Nat.ne_of_lt (h.id_lt hx)
  refine ⟨waiting ++ [e],
    { wheel := ⟨chunks, expired, ?_⟩
      ids := ?_
      entry := ?_
      fired := h.fired
      sent := ?_
      lastRun := ?_
      lastRunNow := by rw [hclock.lastRunTime]; exact h.lastRunNow
      started := by rw [hclock.timerInfoStart]; exact h.started
      interval := by rw [hclock.timerInterval]; exact h.interval
      known := ?_
      recorded := by simp [h.recorded]
      safe := ?_
      slot := ?_ }⟩
  · rw [hclock.expireChunkList]
    exact hwheel
  · have hperm : ((waiting ++ [e] ++ late ++ delivered).map (·.id)).Perm
        (s.timers.length :: (waiting ++ late ++ delivered).map (·.id)) := by
      refine List.perm_iff_count.mpr fun i => ?_
      simp only [List.map_append, List.map_cons, List.map_nil, List.count_append,
        List.count_cons, List.count_nil, he]
      omega
    simp only [List.length_append, List.length_singleton, List.range_succ]
    exact hperm.trans ((h.ids.cons _).trans (List.perm_append_singleton _ _).symm)
  · intro x hx
    by_cases hxe : x = e
    · refine ⟨t, ?_, ?_, ?_⟩
      · simp [hxe, he]
      · rw [hxe, he]
      · rw [hxe, he, Timer.data, hrunning, SfTwTimer.handleOf, SfTwTimer.handleOf,
          hclock.timerInfoStart]
        rfl
    · have hx : x ∈ waiting ++ late ++ delivered := by
        simpa [hxe] using hx
      refine (h.entry x hx).mono hclock.timerInfoStart fun t ht => ?_
      rw [List.getElem?_append_left (h.id_lt hx)]
      exact ht
  · simp only [slotTarget_congr env hclock.timerInfoStart]
    exact h.sent
  · rw [hclock.lastRunTime, hclock.timerInterval]
    exact h.lastRun
  · intro t' ht
    simp only [hclock.timerInfoStart]
    rcases List.mem_append.mp ht with ht | ht
    · exact h.known t' ht
    · obtain rfl := List.mem_singleton.mp ht
      exact hknown
  · intro i record t' hrecord ht hticks
    rw [hclock.timerInterval]
    rcases Nat.lt_trichotomy i s.timers.length with hi | hi | hi
    · rw [List.getElem?_append_left (h.recorded ▸ hi)] at hrecord
      rw [List.getElem?_append_left hi] at ht
      exact h.safe i record t' hrecord ht hticks
    · subst hi
      obtain rfl : t = t' := by simpa using ht
      obtain rfl : ⟨addr, t.timerInfo, safeClibTime⟩ = record := by
        simpa [← h.recorded] using hrecord
      exact hsafe hticks
    · rw [List.getElem?_eq_none (by simp; omega)] at ht
      simp at ht
  · intro x hx record hrecord
    by_cases hxe : x = e
    · have hid : x.id = s.records.length := by rw [hxe, he, h.recorded]
      rw [hid] at hrecord
      obtain rfl : ⟨addr, t.timerInfo, safeClibTime⟩ = record := by simpa using hrecord
      rw [hxe, he]
    · have hx : x ∈ waiting ++ late := by simpa [hxe] using hx
      have hlt := h.id_lt (List.mem_append_left _ hx)
      rw [List.getElem?_append_left (h.recorded ▸ hlt)] at hrecord
      exact h.slot x hx record hrecord

theorem Accounted.submit (h : Accounted env s waiting late delivered) {info group ticks : Nat}
    {newChunk : Option ChunkId} (enabled : Enabled s (.submit info group ticks newChunk)) :
    ∃ waiting', Accounted env (s.submit info group ticks newChunk) waiting' late delivered := by
  obtain ⟨hpos, hmax, hgroupPos, hgroup, hinfo, fits, fresh⟩ := enabled
  obtain ⟨chunks, expired, hwheel⟩ := h.wheel
  rcases sfSubmitTimerTw_cases hwheel info group
    (fun c hc => fresh c hc) hpos hmax s.timers.length with ⟨hfail, -, -⟩ | hok
  · refine ⟨waiting, ?_⟩
    rw [System.submit, hfail]
    exact h
  obtain ⟨tw', addr, hret, hclock, chunks', hinv⟩ := hok
  rw [System.submit, hret]
  exact h.append (t := ⟨group, info, ticks, s.advanced + ticks, false⟩) hclock
    ⟨chunks', expired, hinv⟩ rfl ⟨hgroupPos, hgroup, hinfo, fits, Nat.le_add_left .., hmax⟩
    fun hticks => safeTime_eq hticks hmax h.lastRun rfl

/-- Entries with the same number are the same entry. -/
theorem Accounted.id_inj (h : Accounted env s waiting late delivered) {e e' : Entry}
    (he : e ∈ waiting ++ late ++ delivered) (he' : e' ∈ waiting ++ late ++ delivered)
    (hid : e.id = e'.id) : e = e' :=
  List.inj_on_of_nodup_map (h.ids.nodup_iff.mpr List.nodup_range) he he' hid

/-- A record whose safe time has not come belongs to a timer that is waiting. -/
theorem Accounted.waiting_of_safe (h : Accounted env s waiting late delivered) {i : Nat}
    {record : SfTimerRecord} {t : Timer} (hrecord : s.records[i]? = some record)
    (ht : s.timers[i]? = some t) (hticks : 2 ≤ t.ticks) (hnow : s.now < record.safeClibTime) :
    ∃ e ∈ waiting, e.id = i ∧ record.slotHandler = e.addr := by
  have hi : i < s.timers.length := (List.getElem?_eq_some_iff.mp ht).1
  obtain ⟨e, he, hid⟩ := List.mem_map.mp (h.ids.mem_iff.mpr (List.mem_range.mpr hi))
  have hadvanced : s.advanced < t.due := by
    have hsafe := h.safe i record t hrecord ht hticks
    have hlast := h.lastRunNow
    rw [h.lastRun] at hlast
    have hlt : s.advanced < t.due - 2 := by
      by_contra hge
      have hle := Nat.mul_le_mul_right s.tw.timerInterval (Nat.not_lt.mp hge)
      omega
    omega
  obtain ⟨t', ht', hdue, -⟩ := h.entry e he
  rw [hid, ht] at ht'
  obtain rfl := Option.some.inj ht'
  have hw : e ∈ waiting := by
    rcases List.mem_append.mp he with he | he
    · rcases List.mem_append.mp he with he | he
      · exact he
      · obtain ⟨chunks, expired, hwheel⟩ := h.wheel
        have hle := hwheel.overdue e he
        omega
    · have hle := h.fired e he
      omega
  exact ⟨e, hw, hid, h.slot e (List.mem_append_left _ hw) record (hid ▸ hrecord)⟩

/-- Clearing the slot of a waiting timer marks that timer, and no other one, as stopped. -/
theorem Accounted.clear (h : Accounted env s waiting late delivered) {e : Entry}
    (he : e ∈ waiting) {t : Timer} (ht : s.timers[e.id]? = some t) :
    Accounted env
      { s with
        tw := s.tw.setSlot e.addr 0
        timers := s.timers.set e.id { t with stopped := true } }
      (waiting.map (Entry.clear e.addr)) late delivered := by
  obtain ⟨chunks, expired, hwheel⟩ := h.wheel
  have heAll : e ∈ waiting ++ late := List.mem_append_left _ he
  have hlt := (hwheel.due e he).1
  have hlate : late.map (Entry.clear e.addr) = late := by
    refine (List.map_congr_left fun x hx => ?_).trans (List.map_id late)
    rw [Entry.clear, if_neg, id]
    intro hxe
    obtain rfl := hwheel.addr_inj (List.mem_append_right _ hx) heAll hxe
    have hle := hwheel.overdue x hx
    omega
  have hclear := hwheel.clear e.addr
  rw [hlate] at hclear
  obtain ⟨s', hs'⟩ : ∃ s' : System, s' =
      { s with
        tw := s.tw.setSlot e.addr 0
        timers := s.timers.set e.id { t with stopped := true } } := ⟨_, rfl⟩
  have hself : ∀ x ∈ waiting ++ late ++ delivered, x.id = e.id → x = e := fun x hx hid =>
    h.id_inj hx (List.mem_append_left _ heAll) hid
  have hother : ∀ x ∈ waiting ++ late ++ delivered, x.id ≠ e.id → EntryOf s' x := by
    intro x hx hne
    refine (h.entry x hx).mono (by rw [hs']; rfl) fun t' ht' => ?_
    rw [hs', List.getElem?_set_ne (Ne.symm hne)]
    exact ht'
  have hwaiting : ∀ x ∈ waiting, EntryOf s' (x.clear e.addr) := by
    intro x hx
    have hxAll : x ∈ waiting ++ late ++ delivered := by simp [hx]
    by_cases hid : x.id = e.id
    · obtain rfl := hself x hxAll hid
      obtain ⟨t', ht', hdue, -⟩ := h.entry x hxAll
      rw [ht] at ht'
      obtain rfl := Option.some.inj ht'
      refine ⟨{ t with stopped := true }, ?_, ?_, ?_⟩
      · rw [hs', Entry.clear_id, List.getElem?_set_self]
        exact (List.getElem?_eq_some_iff.mp ht).1
      · rw [Entry.clear_due, hdue]
      · rw [Entry.clear_data, if_pos rfl, Timer.data]
        rfl
    · have hne : x.addr ≠ e.addr := by
        intro haddr
        obtain rfl := hwheel.addr_inj (List.mem_append_left _ hx) heAll haddr
        exact hid rfl
      rw [Entry.clear, if_neg hne]
      exact hother x hxAll hid
  rw [← hs']
  refine
    { wheel := ⟨chunks, expired, ?_⟩
      ids := ?_
      entry := ?_
      fired := by rw [hs']; exact h.fired
      sent := by rw [hs']; exact h.sent
      lastRun := by rw [hs']; exact h.lastRun
      lastRunNow := by rw [hs']; exact h.lastRunNow
      started := by rw [hs']; exact h.started
      interval := by rw [hs']; exact h.interval
      known := ?_
      recorded := by simpa [hs'] using h.recorded
      safe := ?_
      slot := ?_ }
  · rw [hs']
    exact hclear
  · simpa [hs', Function.comp_def] using h.ids
  · intro x hx
    rw [List.append_assoc] at hx
    rcases List.mem_append.mp hx with hx | hx
    · obtain ⟨y, hy, rfl⟩ := List.mem_map.mp hx
      exact hwaiting y hy
    · have hxAll : x ∈ waiting ++ late ++ delivered := by
        rw [List.append_assoc]
        exact List.mem_append_right _ hx
      refine hother x hxAll fun hid => ?_
      rw [hself x hxAll hid] at hx
      rcases List.mem_append.mp hx with hx | hx
      · have hle := hwheel.overdue e hx
        omega
      · have hle := h.fired e hx
        omega
  · intro t' ht'
    rw [hs'] at ht' ⊢
    rcases List.mem_or_eq_of_mem_set ht' with ht' | rfl
    · exact h.known t' ht'
    · exact h.known t (List.mem_of_getElem? ht)
  · intro j record' t' hrecord' ht' hticks'
    rw [hs'] at hrecord' ht' ⊢
    rw [List.getElem?_set] at ht'
    split at ht'
    · rename_i hij
      split at ht'
      · obtain rfl := Option.some.inj ht'
        exact h.safe j record' t hrecord' (hij ▸ ht) hticks'
      · simp at ht'
    · exact h.safe j record' t' hrecord' ht' hticks'
  · intro x hx record' hrecord'
    rw [hs'] at hrecord'
    rcases List.mem_append.mp hx with hx | hx
    · obtain ⟨y, hy, rfl⟩ := List.mem_map.mp hx
      rw [Entry.clear_addr]
      rw [Entry.clear_id] at hrecord'
      exact h.slot y (List.mem_append_left _ hy) record' hrecord'
    · exact h.slot x (List.mem_append_right _ hx) record' hrecord'

theorem Accounted.stop (h : Accounted env s waiting late delivered) {i : Nat}
    (enabled : Enabled s (.stop i)) :
    ∃ waiting', Accounted env (s.stop i) waiting' late delivered := by
  unfold System.stop
  split
  · rename_i record t hrecord ht
    by_cases hnow : s.now < record.safeClibTime
    · obtain ⟨e, he, rfl, haddr⟩ := h.waiting_of_safe hrecord ht (enabled t ht) hnow
      have hstop : sfStopTimer s.tw s.now record = (0, s.tw.setSlot e.addr 0) := by
        rw [sfStopTimer, if_pos hnow, haddr]
      rw [hstop]
      exact ⟨waiting.map (Entry.clear e.addr), h.clear he ht⟩
    · have hstop : sfStopTimer s.tw s.now record = (1, s.tw) := by
        rw [sfStopTimer, if_neg hnow]
      rw [hstop]
      exact ⟨waiting, h⟩
  · exact ⟨waiting, h⟩

theorem Accounted.clock (h : Accounted env s waiting late delivered) (d : Nat) :
    Accounted env { s with now := s.now + d } waiting late delivered :=
  { h with lastRunNow := Nat.le_add_right_of_le h.lastRunNow }

/-- An advance expires every timer whose tick has passed, when nothing expired is left over
from the last one, and does nothing otherwise. -/
theorem Accounted.expire (h : Accounted env s waiting late delivered) :
    ∃ waiting' late', Accounted env s.expire waiting' late' delivered ∧
      (late ≠ [] → late' = late) := by
  obtain ⟨chunks, expired, hwheel⟩ := h.wheel
  rcases sfTwTimerExpireInternal_cases hwheel s.now with ⟨hidle, hsame⟩ | hrun
  · refine ⟨waiting, late, ?_, fun _ => rfl⟩
    rw [System.expire, System.nticks, if_pos hidle, hsame]
    exact h
  obtain ⟨hdue, rfl, rfl, tw', chunks', expired', late', hret, hinv, hperm, hlast, hnext, hstart,
    hinterval⟩ := hrun
  have hnone : s.tw.expireChunkList = none := by simpa using hwheel.expiredLinked
  have hticks : s.nticks = expireNticks s.tw s.now := by
    rw [System.nticks, if_neg]
    simp only [hnone, ne_eq, not_true_eq_false, or_false]
    omega
  have hexpire : s.expire =
      { s with tw := tw', advanced := s.advanced + expireNticks s.tw s.now } := by
    rw [System.expire, hticks, hret]
  obtain ⟨n, hn⟩ : ∃ n, n = s.advanced + expireNticks s.tw s.now := ⟨_, rfl⟩
  rw [← hn] at hinv hperm hexpire
  have hmem : ∀ x, x ∈ dueAfter n waiting ∨ x ∈ late' ↔ x ∈ waiting := by
    intro x
    rw [mem_dueAfter, hperm.mem_iff, mem_dueUpTo]
    have := Nat.lt_or_ge n x.due
    tauto
  refine ⟨dueAfter n waiting, late', ?_, by simp⟩
  rw [hexpire]
  refine
    { wheel := ⟨chunks', expired', hinv⟩
      ids := ?_
      entry := ?_
      fired := ?_
      sent := ?_
      lastRun := ?_
      lastRunNow := ?_
      started := by rw [hstart]; exact h.started
      interval := by rw [hinterval]; exact h.interval
      known := by simpa only [hstart] using h.known
      recorded := h.recorded
      safe := by simpa only [hinterval] using h.safe
      slot := ?_ }
  · have hsplit : (dueAfter n waiting ++ late').Perm waiting := by
      refine ((hperm.append_left _).trans List.perm_append_comm).trans ?_
      have hfilter := List.filter_append_perm (fun e : Entry => decide (e.due ≤ n)) waiting
      have hcompl : waiting.filter (fun e => !decide (e.due ≤ n)) = dueAfter n waiting := by
        refine List.filter_congr fun e _ => ?_
        simp only [← decide_not, Nat.not_le]
      rwa [hcompl] at hfilter
    refine (((hsplit.append_right delivered).map _)).trans ?_
    simpa using h.ids
  · intro x hx
    refine (h.entry x ?_).mono hstart fun t ht => ht
    simp only [List.mem_append, List.not_mem_nil, or_false] at hx ⊢
    rcases hx with hx | hx
    · exact .inl ((hmem x).mp hx)
    · exact .inr hx
  · intro x hx
    have hle := h.fired x hx
    simp only
    omega
  · simp only [slotTarget_congr env hstart]
    exact h.sent
  · simp only [hlast, hinterval, h.lastRun, hn, Nat.add_mul]
  · simp only [hlast]
    have hle := Nat.div_mul_le_self (s.now - s.tw.lastRunTime) s.tw.timerInterval
    have hnow := h.lastRunNow
    rw [expireNticks]
    omega
  · intro x hx record hrecord
    refine h.slot x ?_ record hrecord
    rw [List.append_nil]
    exact (hmem x).mp (List.mem_append.mp hx)

/-- A run of the input node advances the wheel when nothing is left over, and then delivers
late timers, at least one of those that were late before. -/
theorem Accounted.poll (room_pos : ∀ k, 0 < env.room k)
    (h : Accounted env s waiting late delivered) :
    ∃ waiting' late' delivered', Accounted env (s.poll env) waiting' late' delivered' ∧
      Progress .poll late delivered late' delivered' := by
  obtain ⟨waiting', late', hexp, hkeep⟩ := h.expire
  obtain ⟨chunks, expired, hwheel⟩ := hexp.wheel
  have htw : (if s.tw.expireChunkList = none then (sfTwTimerExpireInternal s.tw s.now).2
      else s.tw) = s.expire.tw := by
    by_cases hnone : s.tw.expireChunkList = none
    · rw [if_pos hnone]
      rfl
    · rw [if_neg hnone]
      simp [System.expire, sfTwTimerExpireInternal, hnone]
  obtain ⟨expired', k, hinv, hfields, hsent, hpos⟩ := pollLoop_spec room_pos s.held.length
    ⟨s.expire.tw, s.held, s.sent, s.gets, 0⟩ hwheel
  have hpoll : s.poll env =
      { s.expire with
        tw := (pollLoop env s.held.length ⟨s.expire.tw, s.held, s.sent, s.gets, 0⟩).tw
        held := (pollLoop env s.held.length ⟨s.expire.tw, s.held, s.sent, s.gets, 0⟩).held
        sent := (pollLoop env s.held.length ⟨s.expire.tw, s.held, s.sent, s.gets, 0⟩).sent
        gets := (pollLoop env s.held.length ⟨s.expire.tw, s.held, s.sent, s.gets, 0⟩).gets } := by
    simp only [System.poll, sfTimerInputNode, htw]
    rfl
  obtain ⟨p, hp⟩ : ∃ p, p = pollLoop env s.held.length ⟨s.expire.tw, s.held, s.sent, s.gets, 0⟩ :=
    ⟨_, rfl⟩
  rw [← hp] at hinv hfields hsent hpoll
  have hstart : p.tw.timerInfoStart = s.expire.tw.timerInfoStart := by rw [hfields]
  have hinterval : p.tw.timerInterval = s.expire.tw.timerInterval := by rw [hfields]
  have hlast : p.tw.lastRunTime = s.expire.tw.lastRunTime := by rw [hfields]
  have hsplit : (waiting' ++ late'.drop k ++ (delivered ++ late'.take k)).Perm
      (waiting' ++ late' ++ delivered) := by
    have hlate : (late'.drop k ++ (delivered ++ late'.take k)).Perm (late' ++ delivered) := by
      rw [← List.append_assoc]
      refine List.perm_append_comm.trans ?_
      rw [← List.append_assoc, List.take_append_drop]
    rw [List.append_assoc, List.append_assoc]
    exact hlate.append_left _
  refine ⟨waiting', late'.drop k, delivered ++ late'.take k, ?_, ?_⟩
  · rw [hpoll]
    refine
      { wheel := ⟨chunks, expired', hinv⟩
        ids := ?_
        entry := ?_
        fired := ?_
        sent := ?_
        lastRun := by simpa only [hlast, hinterval] using hexp.lastRun
        lastRunNow := by simpa only [hlast] using hexp.lastRunNow
        started := by simpa only [hstart] using hexp.started
        interval := by simpa only [hinterval] using hexp.interval
        known := by simpa only [hstart] using hexp.known
        recorded := hexp.recorded
        safe := by simpa only [hinterval] using hexp.safe
        slot := ?_ }
    · exact (hsplit.map _).trans hexp.ids
    · intro x hx
      exact (hexp.entry x (hsplit.mem_iff.mp hx)).mono hstart fun t ht => ht
    · intro x hx
      rcases List.mem_append.mp hx with hx | hx
      · exact hexp.fired x hx
      · exact hwheel.overdue x (List.mem_of_mem_take hx)
    · simp only [slotTarget_congr env hstart, List.map_append]
      exact hsent.trans (hexp.sent.append_right _)
    · intro x hx record hrecord
      refine hexp.slot x ?_ record hrecord
      rcases List.mem_append.mp hx with hx | hx
      · exact List.mem_append_left _ hx
      · exact List.mem_append_right _ (List.mem_of_mem_drop hx)
  · refine ⟨⟨late'.take k, rfl⟩, fun hne => ⟨k, ?_, ?_, fun _ => ?_⟩⟩
    · rw [hkeep hne]
    · rw [hkeep hne]
    · have hne' : late' ≠ [] := by
        rw [hkeep hne]
        exact hne
      refine hpos ?_ hne'
      obtain ⟨x, hx⟩ := List.exists_mem_of_ne_nil late' hne'
      exact List.length_pos_of_mem (hwheel.expired_held (hwheel.late_addr hx).1)

/-- Every event keeps the timers accounted for. -/
theorem Accounted.step (room_pos : ∀ k, 0 < env.room k)
    (h : Accounted env s waiting late delivered) {e : Event} (hstep : Step env s e s') :
    ∃ waiting' late' delivered', Accounted env s' waiting' late' delivered' ∧
      Progress e late delivered late' delivered' := by
  obtain ⟨enabled, rfl⟩ := hstep
  cases e with
  | submit info group ticks newChunk =>
      obtain ⟨waiting', h'⟩ := h.submit enabled
      exact ⟨waiting', late, delivered, h', .none (by simp) late delivered⟩
  | stop i =>
      obtain ⟨waiting', h'⟩ := h.stop enabled
      exact ⟨waiting', late, delivered, h', .none (by simp) late delivered⟩
  | clock d => exact ⟨waiting, late, delivered, h.clock d, .none (by simp) late delivered⟩
  | expire =>
      obtain ⟨waiting', late', h', hkeep⟩ := h.expire
      refine ⟨waiting', late', delivered, h', ⟨[], by simp⟩, fun hne => ⟨0, ?_, by simp, by simp⟩⟩
      rw [hkeep hne, List.drop_zero]
  | poll => exact h.poll room_pos

/-! ## Runs -/

/-- The runs of the input node among some events. -/
def polls (es : List Event) : Nat := es.count .poll

/-- Along a run the timers stay accounted for, delivered ones stay delivered, and as many
polls as there are late timers deliver all of them. -/
theorem Accounted.run (room_pos : ∀ k, 0 < env.room k)
    (h : Accounted env s waiting late delivered) {es : List Event}
    (hrun : Run (Step env) s es s') :
    ∃ waiting' late' delivered', Accounted env s' waiting' late' delivered' ∧
      (∀ x ∈ delivered, x ∈ delivered') ∧
      (late.length ≤ polls es → ∀ x ∈ late, x ∈ delivered') := by
  induction es generalizing s waiting late delivered with
  | nil =>
      obtain rfl := Run.nil_iff.mp hrun
      refine ⟨waiting, late, delivered, h, fun x hx => hx, fun hlen => ?_⟩
      obtain rfl : late = [] := by simpa [polls] using hlen
      simp
  | cons e es ih =>
      obtain ⟨u, hstep, hrest⟩ := Run.cons_iff.mp hrun
      obtain ⟨waiting₁, late₁, delivered₁, h₁, hprogress⟩ := h.step room_pos hstep
      obtain ⟨waiting', late', delivered', h', hold, hdrain⟩ := ih h₁ hrest
      obtain ⟨new, hnew⟩ := hprogress.grows
      refine ⟨waiting', late', delivered', h', fun x hx => hold x (by simp [hnew, hx]), ?_⟩
      intro hlen x hx
      obtain ⟨k, hlate, hdelivered, hpos⟩ := hprogress.drains (List.ne_nil_of_mem hx)
      have hx : x ∈ late.take k ∨ x ∈ late.drop k := by
        rwa [← List.mem_append, List.take_append_drop]
      rcases hx with hx | hx
      · exact hold x (by simp [hdelivered, hx])
      · refine hdrain ?_ x (hlate ▸ hx)
        rw [hlate, List.length_drop]
        by_cases he : e = .poll
        · have hk := hpos he
          simp only [polls, he, List.count_cons_self] at hlen ⊢
          omega
        · simp only [polls, List.count_cons_of_ne he] at hlen ⊢
          omega

/-- Timers fire exactly once and on time. In every reachable state each timer that was
submitted is waiting, late or delivered, and in one of these places only: a waiting one is in
the bucket chains and its tick has not come, a late one is in the expired chunks, and each
delivered one was enqueued once, to the handler of its group unless it was stopped. Each
round of the expiry loop expires exactly the timers of its tick, as many polls as there are
late timers deliver all of them, and a submit that fails changes nothing. -/
theorem timers_fire_exactly_once {start interval : Nat} {chunk : ChunkId → SfTimerChunk}
    {es : List Event} (room_pos : ∀ k, 0 < env.room k) (hstart : start < 2 ^ 64)
    (hinterval : 0 < interval) (hrun : Run (Step env) (.init start interval chunk) es s) :
    ∃ waiting late delivered, Accounted env s waiting late delivered ∧
      (∀ e ∈ waiting, s.advanced < e.due) ∧
      (∀ e ∈ late ++ delivered, e.due ≤ s.advanced) ∧
      (∀ e ∈ waiting ++ late ++ delivered, ∃ t, s.timers[e.id]? = some t ∧ e.due = t.due ∧
        slotTarget env s.tw e.data =
          if t.stopped then (sfNextNodeTimerErrorDrop, s.tw.timerInfoStart)
          else (env.nextIndexVec t.groupId, t.timerInfo)) ∧
      (s.tw.expireChunkList = none → ∀ n, ∃ chunks expired late',
        LoopInv (expireTicks n (.start s.tw)) s.held chunks expired (s.advanced + n)
          (dueAfter (s.advanced + n) waiting) late' ∧
        late'.Perm (dueUpTo (s.advanced + n) waiting)) ∧
      (∀ fs t, Run (Step env) s fs t → late.length ≤ polls fs →
        ∃ waiting' late' delivered', Accounted env t waiting' late' delivered' ∧
          ∀ e ∈ late, e ∈ delivered') ∧
      ∀ info group ticks newChunk, (sfSubmitTimerTw s.tw info group ticks newChunk).1 ≠ 0 →
        sfSubmitTimerTw s.tw info group ticks newChunk = (-1, s.tw, none) := by
  obtain ⟨waiting, late, delivered, h, -, -⟩ :=
    (accounted_init env chunk hstart hinterval).run room_pos hrun
  obtain ⟨chunks, expired, hwheel⟩ := h.wheel
  refine ⟨waiting, late, delivered, h, fun e he => (hwheel.due e he).1, ?_, ?_, ?_, ?_, ?_⟩
  · intro e he
    rcases List.mem_append.mp he with he | he
    · exact hwheel.overdue e he
    · exact h.fired e he
  · intro e he
    obtain ⟨t, ht, hdue, hdata⟩ := h.entry e he
    obtain ⟨hpos, hgroup, hinfo, fits, -⟩ := h.known t (List.mem_of_getElem? ht)
    refine ⟨t, ht, hdue, ?_⟩
    rw [hdata]
    exact slotTarget_data h.started ⟨hpos, hgroup, hinfo, fits⟩
  · intro hnone n
    rw [hnone] at hwheel
    obtain ⟨rfl, rfl⟩ := hwheel.expired_eq_nil
    have hloop : LoopInv (.start s.tw) s.held chunks [] s.advanced waiting [] := ⟨hwheel, rfl⟩
    obtain ⟨-, chunks', expired', late', hinv, hperm⟩ := hloop.ticks n
    exact ⟨chunks', expired', late', hinv, by simpa using hperm⟩
  · intro fs t hrun' hlen
    obtain ⟨waiting', late', delivered', h', -, hdrain⟩ := h.run room_pos hrun'
    exact ⟨waiting', late', delivered', h', hdrain hlen⟩
  · exact fun info group ticks newChunk => sfSubmitTimerTw_fail

/-- A node with one free slot in every frame, which sends group 4 to its next node 5. -/
def sampleEnv : NodeEnv := ⟨fun group => group + 1, fun _ => 1⟩

/-- A wheel with ten time units to the tick. -/
def sampleWheel : System := .init 4096 10 fun _ => ⟨none, 0, fun _ => 0⟩

/-- Two timers of two ticks, a longer one, and a poll when the two are due. -/
def sampleEvents : List Event :=
  [.submit 5000 4 2 (some 7), .submit 6000 4 2 none, .submit 7000 4 30 (some 8), .stop 1,
    .clock 25, .poll]

def sampleState : System := sampleEvents.foldl (System.after sampleEnv) sampleWheel

theorem sampleState_run : Run (Step sampleEnv) sampleWheel sampleEvents sampleState :=
  .cons ⟨by decide +kernel, rfl⟩ <| .cons ⟨by decide +kernel, rfl⟩ <|
    .cons ⟨by decide +kernel, rfl⟩ <| .cons ⟨by decide +kernel, rfl⟩ <|
    .cons ⟨trivial, rfl⟩ <| .cons ⟨trivial, rfl⟩ <| .refl _

theorem timers_fire_exactly_once_sample :
    sampleState.sent = [(5, 5000), (5, 6000)] ∧ sampleState.advanced = 2 ∧
      ∃ waiting late delivered, Accounted sampleEnv sampleState waiting late delivered ∧
        ∀ e ∈ waiting, 2 < e.due := by
  obtain ⟨waiting, late, delivered, h, hwait, -⟩ :=
    @timers_fire_exactly_once sampleEnv _ 4096 10 _ _ (fun _ => Nat.one_pos) (by decide)
      (by decide) sampleState_run
  have hadvanced : sampleState.advanced = 2 := by decide +kernel
  exact ⟨by decide +kernel, hadvanced, waiting, late, delivered, h, hadvanced ▸ hwait⟩

end Tapplet.SfTimer
