import Tapplet.Timer.Exact
import Tapplet.Reass.Datagram

/-!
# Timers and pools

Each waiting datagram has a timer in the wheel. A timer that is deleted in time is taken
out of the wheel, a later one is delivered as a zombie, which only frees its info.
`Books` accounts for every info and every node that the pools have handed out, and for
every timer that is still in the wheel or has been delivered but not handled.

`timedOut` are the infos of the timers that were handled while their datagram was still
waiting. Nobody frees them.
-/

namespace Tapplet.Reass

open SfTimer

/-- The timers among some entries that have not been stopped. -/
def armed (es : List Entry) : List Entry := es.filter fun e => e.data ≠ 0

theorem mem_armed {es : List Entry} {e : Entry} : e ∈ armed es ↔ e ∈ es ∧ e.data ≠ 0 := by
  simp [armed]

@[simp] theorem armed_append (es es' : List Entry) : armed (es ++ es') = armed es ++ armed es' :=
  List.filter_append ..

theorem armed_clear (es : List Entry) (a : SlotAddr) :
    armed (es.map (Entry.clear a)) = (armed es).filter fun e => e.addr ≠ a := by
  induction es with
  | nil => rfl
  | cons e es ih =>
      by_cases ha : e.addr = a
      · by_cases hd : e.data = 0
        · simpa [armed, Entry.clear, ha, hd] using ih
        · simpa [armed, Entry.clear, ha, hd] using ih
      · by_cases hd : e.data = 0
        · simpa [armed, Entry.clear, ha, hd] using ih
        · simpa [armed, Entry.clear, ha, hd] using ih

/-- The infos of the timers that have not been stopped. -/
def tokens (es : List Entry) : List Nat := (armed es).map (·.id)

theorem mem_tokens {es : List Entry} {info : Nat} :
    info ∈ tokens es ↔ ∃ e ∈ armed es, e.id = info := List.mem_map

/-- Stopping a timer takes its info out. -/
theorem tokens_clear {es : List Entry} {e : Entry} (he : e ∈ armed es) (hnodup : (tokens es).Nodup)
    (inj : ∀ x ∈ armed es, x.addr = e.addr → x = e) :
    (tokens es).Perm (e.id :: tokens (es.map (Entry.clear e.addr))) := by
  have hfilter : (armed es).erase e = (armed es).filter fun x => x.addr ≠ e.addr := by
    rw [(List.Nodup.of_map _ hnodup).erase_eq_filter]
    refine List.filter_congr fun x hx => ?_
    by_cases hxe : x = e
    · simp [hxe]
    · have haddr : x.addr ≠ e.addr := fun h => hxe (inj x hx h)
      simp [hxe, haddr]
  rw [tokens, tokens, armed_clear, ← hfilter]
  exact (List.perm_cons_erase he).map _

/-- The offset of an info fits a handle. -/
def Fits (tw : SfTwTimer) (info : Nat) : Prop :=
  info < 2 ^ 64 ∧ (info + 2 ^ 64 - tw.timerInfoStart) % 2 ^ 64 < 2 ^ 56

instance (tw : SfTwTimer) (info : Nat) : Decidable (Fits tw info) :=
  inferInstanceAs (Decidable (_ ∧ _))

/-- The pool has not handed out `x`. -/
def Pool.Has {α : Type} [DecidableEq α] (p : Pool α) (x : α) : Prop :=
  p.allocated.count x = p.freed.count x

instance {α : Type} [DecidableEq α] (p : Pool α) (x : α) : Decidable (p.Has x) :=
  inferInstanceAs (Decidable (_ = _))

theorem Pool.Has.not_mem {α : Type} [DecidableEq α] {p : Pool α} {out : List α} {x : α}
    (h : p.Has x) (hout : p.allocated.Perm (p.freed ++ out)) : x ∉ out := by
  have hcount := hout.count_eq x
  rw [List.count_append, h] at hcount
  exact List.count_eq_zero.mp (by omega)

/-- The timer of the datagram `d`: its info names the node, and its record knows the slot and a
time before which the timer is still waiting. -/
structure TimerOk (env : Env) (k : Bookkeeping) (es : List Entry) (pendingTimers : List Nat)
    (count : Nat) (d : Datagram) : Prop where
  data : k.timerData d.info = ⟨d.hashIndex env, some d.node⟩
  info : (k.timerRecord d.node).timerInfo = d.info
  safe : ∃ due, (k.timerRecord d.node).safeClibTime = (due - 2) * k.tw.timerInterval ∧
    (∀ e ∈ armed es, e.id = d.info →
      e.due = due ∧ e.addr = (k.timerRecord d.node).slotHandler) ∧
    (d.info ∈ pendingTimers → due ≤ count)

structure Books (env : Env) (k : Bookkeeping) (pendingTimers timedOut : List Nat)
    (live : List Datagram) (zombies : List Nat) (count : Nat) (waiting late : List Entry) :
    Prop where
  wheel : ∃ chunks expired, WheelInv k.tw k.tw.expireChunkList k.chunkHeld chunks expired count
    waiting late
  words : ∀ e ∈ armed (waiting ++ late), e.data = k.tw.handleOf sfTwTimerGroupIpReass e.id
  tokens : (tokens (waiting ++ late) ++ pendingTimers).Perm (live.map (·.info) ++ zombies)
  timers : ∀ d ∈ live, TimerOk env k (waiting ++ late) pendingTimers count d
  zombie : ∀ i ∈ zombies, k.timerData i = ⟨0, none⟩
  infos : k.infoPool.allocated.Perm (k.infoPool.freed ++ (live.map (·.info) ++ zombies ++ timedOut))
  nodes : k.nodePool.allocated.Perm (k.nodePool.freed ++ live.map (·.node))
  apart : (live.map (·.info) ++ zombies ++ timedOut).Nodup
  nodesApart : (live.map (·.node)).Nodup
  fits : ∀ i ∈ live.map (·.info) ++ zombies, Fits k.tw i
  lastRun : k.tw.lastRunTime = count * k.tw.timerInterval
  lastRunNow : k.tw.lastRunTime ≤ k.now
  started : k.tw.timerInfoStart < 2 ^ 64
  interval : 0 < k.tw.timerInterval

/-- The timers and pools after `ip_reass_delete_timer`. -/
def deletedBooks (k : Bookkeeping) (n : NodeId) : Bookkeeping :=
  if k.now < (k.timerRecord n).safeClibTime then
    { k with
      tw := k.tw.setSlot (k.timerRecord n).slotHandler 0
      infoPool := k.infoPool.free (k.timerRecord n).timerInfo }
  else { k with timerData := Function.update k.timerData (k.timerRecord n).timerInfo ⟨0, none⟩ }

theorem ipReassDeleteTimer_eq (s : Worker) (n : NodeId) :
    ipReassDeleteTimer s n = { s with toBookkeeping := deletedBooks s.toBookkeeping n } := by
  unfold ipReassDeleteTimer sfStopTimerVoid deletedBooks
  split <;> rfl

/-- The timers and pools after the datagram of the node `n` was closed. -/
def closedBooks (k : Bookkeeping) (n : NodeId) : Bookkeeping :=
  { deletedBooks k n with nodePool := (deletedBooks k n).nodePool.free n }

namespace Books

variable {env : Env} {s : Worker} {k : Bookkeeping} {pendingTimers timedOut zombies : List Nat}
  {live l₁ l₂ : List Datagram} {count : Nat} {waiting late : List Entry} {d : Datagram}

/-- The timer infos of the datagrams and the zombies are different. -/
theorem outNodup (h : Books env k pendingTimers timedOut live zombies count waiting late) :
    (live.map (·.info) ++ zombies).Nodup := (List.nodup_append.mp h.apart).1

theorem tokensNodup (h : Books env k pendingTimers timedOut live zombies count waiting late) :
    (Reass.tokens (waiting ++ late) ++ pendingTimers).Nodup := h.tokens.nodup_iff.mpr h.outNodup

/-- Frame rule: datagrams that keep their node, info and key keep their timers. -/
theorem congr_live (h : Books env k pendingTimers timedOut live zombies count waiting late)
    {live' : List Datagram} (node : live'.map (·.node) = live.map (·.node))
    (info : live'.map (·.info) = live.map (·.info))
    (timers : ∀ d ∈ live', ∃ e ∈ live, e.node = d.node ∧ e.info = d.info ∧ e.key = d.key) :
    Books env k pendingTimers timedOut live' zombies count waiting late where
  wheel := h.wheel
  words := h.words
  tokens := info ▸ h.tokens
  timers := by
    intro d hd
    obtain ⟨e, he, hnode, hinfo, hkey⟩ := timers d hd
    obtain ⟨hdata, hrec, hsafe⟩ := h.timers e he
    rw [Datagram.hashIndex, hkey, hnode, hinfo] at hdata
    rw [hnode, hinfo] at hrec hsafe
    exact ⟨hdata, hrec, hsafe⟩
  zombie := h.zombie
  infos := info ▸ h.infos
  nodes := node ▸ h.nodes
  apart := info ▸ h.apart
  nodesApart := node ▸ h.nodesApart
  fits := info ▸ h.fits
  lastRun := h.lastRun
  lastRunNow := h.lastRunNow
  started := h.started
  interval := h.interval

theorem clock (h : Books env k pendingTimers timedOut live zombies count waiting late) (t : Nat) :
    Books env { k with now := k.now + t } pendingTimers timedOut live zombies count waiting
      late where
  wheel := h.wheel
  words := h.words
  tokens := h.tokens
  timers := fun d hd => ⟨(h.timers d hd).data, (h.timers d hd).info, (h.timers d hd).safe⟩
  zombie := h.zombie
  infos := h.infos
  nodes := h.nodes
  apart := h.apart
  nodesApart := h.nodesApart
  fits := h.fits
  lastRun := h.lastRun
  lastRunNow := Nat.le_add_right_of_le h.lastRunNow
  started := h.started
  interval := h.interval

/-! ## Deleting a timer -/

/-- Before the safe time the timer is waiting in the slot that its record names. -/
theorem waiting_of_safe (h : Books env k pendingTimers timedOut live zombies count waiting late)
    (hd : d ∈ live) (hnow : k.now < (k.timerRecord d.node).safeClibTime) :
    ∃ e ∈ armed (waiting ++ late), e.id = d.info ∧
      e.addr = (k.timerRecord d.node).slotHandler := by
  obtain ⟨-, -, due, hsafe, hslot, hpending⟩ := h.timers d hd
  have hlt : count < due := by
    have hlast := h.lastRunNow
    rw [h.lastRun] at hlast
    rw [hsafe] at hnow
    have hcount : count < due - 2 := Nat.lt_of_mul_lt_mul_right (Nat.lt_of_le_of_lt hlast hnow)
    omega
  have hmem : d.info ∈ Reass.tokens (waiting ++ late) ++ pendingTimers :=
    h.tokens.mem_iff.mpr (List.mem_append_left _ (List.mem_map_of_mem hd))
  rcases List.mem_append.mp hmem with hmem | hmem
  · obtain ⟨e, he, hid⟩ := mem_tokens.mp hmem
    exact ⟨e, he, hid, (hslot e he hid).2⟩
  · have hle := hpending hmem
    omega

/-- The datagram `d` is done: its timer is taken out of the wheel or becomes a zombie, and its
node is freed. -/
theorem remove
    (h : Books env k pendingTimers timedOut (l₁ ++ d :: l₂) zombies count waiting late) :
    ∃ zombies' waiting' late', Books env (closedBooks k d.node) pendingTimers timedOut (l₁ ++ l₂)
      zombies' count waiting' late' := by
  have hd : d ∈ l₁ ++ d :: l₂ := by simp
  have hinfos : ((l₁ ++ d :: l₂).map (·.info)).Perm (d.info :: (l₁ ++ l₂).map (·.info)) :=
    List.perm_middle.map _
  have hnodes : ((l₁ ++ d :: l₂).map (·.node)).Perm (d.node :: (l₁ ++ l₂).map (·.node)) :=
    List.perm_middle.map _
  have hsub : ∀ e ∈ l₁ ++ l₂, e ∈ l₁ ++ d :: l₂ ∧ e.info ≠ d.info := by
    intro e he
    refine ⟨?_, fun heq => ?_⟩
    · rcases List.mem_append.mp he with he | he
      · exact List.mem_append_left _ he
      · exact List.mem_append_right _ (List.mem_cons_of_mem _ he)
    · have hnodup := hinfos.nodup_iff.mp (List.nodup_append.mp h.outNodup).1
      exact (List.nodup_cons.mp hnodup).1 (heq ▸ List.mem_map_of_mem he)
  have hinfo := (h.timers d hd).info
  have htokens : (Reass.tokens (waiting ++ late) ++ pendingTimers).Perm
      (d.info :: ((l₁ ++ l₂).map (·.info) ++ zombies)) :=
    h.tokens.trans (hinfos.append_right _)
  have hnodePool : (k.nodePool.free d.node).allocated.Perm
      ((k.nodePool.free d.node).freed ++ (l₁ ++ l₂).map (·.node)) :=
    h.nodes.trans ((hnodes.append_left _).trans List.perm_middle)
  have hfits : ∀ i ∈ d.info :: ((l₁ ++ l₂).map (·.info) ++ zombies), Fits k.tw i := fun i hi =>
    h.fits i ((hinfos.append_right _).mem_iff.mpr hi)
  by_cases hnow : k.now < (k.timerRecord d.node).safeClibTime
  · obtain ⟨e, he, hid, haddr⟩ := h.waiting_of_safe hd hnow
    obtain ⟨chunks, expired, hwheel⟩ := h.wheel
    have hstate : closedBooks k d.node =
        { k with
          tw := k.tw.setSlot e.addr 0
          infoPool := k.infoPool.free d.info
          nodePool := k.nodePool.free d.node } := by
      rw [closedBooks, deletedBooks, if_pos hnow, hinfo, haddr]
    have hmap : waiting.map (Entry.clear e.addr) ++ late.map (Entry.clear e.addr) =
        (waiting ++ late).map (Entry.clear e.addr) := (List.map_append ..).symm
    have harmed : ∀ x ∈ armed ((waiting ++ late).map (Entry.clear e.addr)),
        x ∈ armed (waiting ++ late) := by
      intro x hx
      rw [armed_clear] at hx
      exact (List.mem_filter.mp hx).1
    have hclear : (Reass.tokens (waiting ++ late)).Perm
        (d.info :: Reass.tokens ((waiting ++ late).map (Entry.clear e.addr))) := by
      rw [← hid]
      refine tokens_clear he (List.nodup_append.mp h.tokensNodup).1 fun x hx hxe => ?_
      exact hwheel.addr_inj (mem_armed.mp hx).1 (mem_armed.mp he).1 hxe
    refine ⟨zombies, waiting.map (Entry.clear e.addr), late.map (Entry.clear e.addr), ?_⟩
    rw [hstate]
    exact
      { wheel := ⟨chunks, expired, hwheel.clear e.addr⟩
        words := by
          rw [hmap]
          exact fun x hx => h.words x (harmed x hx)
        tokens := by
          rw [hmap]
          exact List.Perm.cons_inv (((hclear.append_right _).symm).trans htokens)
        timers := by
          intro x hx
          obtain ⟨hdata, hrec, due, hsafe, hslot, hpending⟩ := h.timers x (hsub x hx).1
          rw [hmap]
          exact ⟨hdata, hrec, due, hsafe, fun y hy => hslot y (harmed y hy), hpending⟩
        zombie := h.zombie
        infos := by
          refine h.infos.trans ?_
          refine (((hinfos.append_right zombies).append_right timedOut).append_left _).trans ?_
          exact List.perm_middle
        nodes := hnodePool
        apart := ((((hinfos.append_right zombies).append_right timedOut).nodup_iff).mp
          h.apart).of_cons
        nodesApart := (hnodes.nodup_iff.mp h.nodesApart).of_cons
        fits := fun i hi => hfits i (List.mem_cons_of_mem _ hi)
        lastRun := h.lastRun
        lastRunNow := h.lastRunNow
        started := h.started
        interval := h.interval }
  · have hstate : closedBooks k d.node =
        { k with
          timerData := Function.update k.timerData d.info ⟨0, none⟩
          nodePool := k.nodePool.free d.node } := by
      rw [closedBooks, deletedBooks, if_neg hnow, hinfo]
    have hmove : (d.info :: ((l₁ ++ l₂).map (·.info) ++ zombies)).Perm
        ((l₁ ++ l₂).map (·.info) ++ (d.info :: zombies)) := List.perm_middle.symm
    refine ⟨d.info :: zombies, waiting, late, ?_⟩
    rw [hstate]
    exact
      { wheel := h.wheel
        words := h.words
        tokens := htokens.trans hmove
        timers := by
          intro x hx
          obtain ⟨hmem, hne⟩ := hsub x hx
          obtain ⟨hdata, hrec, hsafe⟩ := h.timers x hmem
          exact ⟨(Function.update_of_ne hne _ _).trans hdata, hrec, hsafe⟩
        zombie := by
          intro i hi
          by_cases hid : i = d.info
          · subst hid
            exact Function.update_self ..
          · refine (Function.update_of_ne hid _ _).trans (h.zombie i ?_)
            simpa [hid] using hi
        infos := by
          refine h.infos.trans (List.Perm.append_left _ (List.Perm.append_right _ ?_))
          exact (hinfos.append_right _).trans hmove
        nodes := hnodePool
        apart := by
          refine (List.Perm.nodup_iff (List.Perm.append_right _ ?_)).mp h.apart
          exact (hinfos.append_right _).trans hmove
        nodesApart := (hnodes.nodup_iff.mp h.nodesApart).of_cons
        fits := fun i hi => hfits i (hmove.mem_iff.mpr hi)
        lastRun := h.lastRun
        lastRunNow := h.lastRunNow
        started := h.started
        interval := h.interval }

/-- A node that is taken from the pool and given back at once. -/
theorem alloc_free (h : Books env k pendingTimers timedOut live zombies count waiting late)
    (n : NodeId) :
    Books env { k with nodePool := (k.nodePool.alloc n).free n } pendingTimers timedOut live zombies
      count waiting late where
  wheel := h.wheel
  words := h.words
  tokens := h.tokens
  timers := fun d hd => ⟨(h.timers d hd).data, (h.timers d hd).info, (h.timers d hd).safe⟩
  zombie := h.zombie
  infos := h.infos
  nodes := h.nodes.cons n
  apart := h.apart
  nodesApart := h.nodesApart
  fits := h.fits
  lastRun := h.lastRun
  lastRunNow := h.lastRunNow
  started := h.started
  interval := h.interval

/-! ## Submitting a timer -/

/-- The submit fails, when the wheel needs a chunk that the pool does not have, and everything is
given back, or the new datagram has its timer. -/
theorem submit (h : Books env k pendingTimers timedOut live zombies count waiting late)
    {o : Outside} (hs : s.toBookkeeping = { k with nodePool := k.nodePool.alloc d.node })
    (hinfo : o.newInfo = some d.info) (hasNode : k.nodePool.Has d.node)
    (hasInfo : k.infoPool.Has d.info) (fits : Fits k.tw d.info)
    (chunk : ∀ c, o.newChunk = some c → c ∉ k.chunkHeld) :
    (o.newChunk = none ∧ ∃ k',
      ipReassSubmitTimer s d.node (d.hashIndex env) o = (-1, { s with toBookkeeping := k' }) ∧
        Books env { k' with nodePool := k'.nodePool.free d.node } pendingTimers timedOut live
          zombies count waiting late) ∨
    ∃ k' waiting',
      ipReassSubmitTimer s d.node (d.hashIndex env) o = (0, { s with toBookkeeping := k' }) ∧
        Books env k' pendingTimers timedOut (d :: live) zombies count waiting' late := by
  have hnode : d.node ∉ live.map (·.node) := hasNode.not_mem h.nodes
  have hout : d.info ∉ live.map (·.info) ++ zombies ++ timedOut := hasInfo.not_mem h.infos
  have houtLive : d.info ∉ live.map (·.info) ++ zombies := fun hm =>
    hout (List.mem_append_left _ hm)
  have hinfoNe : ∀ e ∈ live, e.info ≠ d.info := fun e he heq =>
    houtLive (List.mem_append_left _ (heq ▸ List.mem_map_of_mem he))
  have hnodeNe : ∀ e ∈ live, e.node ≠ d.node := fun e he heq =>
    hnode (heq ▸ List.mem_map_of_mem he)
  have hzombieNe : ∀ i ∈ zombies, i ≠ d.info := by
    rintro i hi rfl
    exact houtLive (List.mem_append_right _ hi)
  have htw : s.tw = k.tw := congrArg (·.tw) hs
  have hheld : s.chunkHeld = k.chunkHeld := congrArg (·.chunkHeld) hs
  obtain ⟨chunks, expired, hwheel⟩ := h.wheel
  rcases sfSubmitTimerTw_cases hwheel d.info sfTwTimerGroupIpReass chunk
      (by decide : 1 ≤ timeoutSec * 10) (by decide) d.info with
    ⟨hfail, hnone, -⟩ | ⟨tw', addr, hret, hclock, chunks', hinv⟩
  · left
    refine ⟨hnone, { s.toBookkeeping with
      infoPool := (s.infoPool.alloc d.info).free d.info
      timerData := Function.update s.timerData d.info ⟨d.hashIndex env, some d.node⟩ }, ?_, ?_⟩
    · simp only [ipReassSubmitTimer, hinfo, Worker.allocInfo, Worker.setTimerData, htw, hfail]
      simp only [← htw]
      rfl
    · rw [hs]
      exact
        { wheel := ⟨chunks, expired, hwheel⟩
          words := h.words
          tokens := h.tokens
          timers := fun e he => ⟨(Function.update_of_ne (hinfoNe e he) _ _).trans
            (h.timers e he).data, (h.timers e he).info, (h.timers e he).safe⟩
          zombie := fun i hi => (Function.update_of_ne (hzombieNe i hi) _ _).trans (h.zombie i hi)
          infos := h.infos.cons d.info
          nodes := h.nodes.cons d.node
          apart := h.apart
          nodesApart := h.nodesApart
          fits := h.fits
          lastRun := h.lastRun
          lastRunNow := h.lastRunNow
          started := h.started
          interval := h.interval }
  · right
    obtain ⟨e, he⟩ : ∃ e : Entry, e = ⟨d.info, addr,
      k.tw.handleOf sfTwTimerGroupIpReass d.info, count + timeoutSec * 10⟩ := ⟨_, rfl⟩
    rw [← he] at hinv
    have hword : e.data ≠ 0 := by
      rw [he]
      simp only [SfTwTimer.handleOf, handleData, sfTwTimerGroupIpReass]
      omega
    have harmed : armed (waiting ++ [e] ++ late) = armed waiting ++ [e] ++ armed late := by
      simp [armed, hword]
    have hmem : ∀ x, x ∈ armed (waiting ++ [e] ++ late) ↔
        x = e ∨ x ∈ armed (waiting ++ late) := by
      intro x
      rw [harmed, armed_append]
      simp only [List.mem_append, List.mem_singleton]
      tauto
    have hhandle : ∀ i, tw'.handleOf sfTwTimerGroupIpReass i =
        k.tw.handleOf sfTwTimerGroupIpReass i := fun i => by
      rw [SfTwTimer.handleOf, SfTwTimer.handleOf, hclock.timerInfoStart]
    have hfitsTw : ∀ i, Fits k.tw i → Fits tw' i := fun i hi => by
      rw [Fits, hclock.timerInfoStart]
      exact hi
    have hnotToken : d.info ∉ Reass.tokens (waiting ++ late) ++ pendingTimers := fun hm =>
      houtLive (h.tokens.mem_iff.mp hm)
    refine ⟨{ s.toBookkeeping with
      infoPool := s.infoPool.alloc d.info
      timerData := Function.update s.timerData d.info ⟨d.hashIndex env, some d.node⟩
      tw := tw'
      chunkHeld := heldAfterSubmit s.tw (timeoutSec * 10) o.newChunk s.chunkHeld
      timerRecord := Function.update s.timerRecord d.node
        ⟨addr, d.info, safeTime k.tw (timeoutSec * 10)⟩ }, waiting ++ [e], ?_, ?_⟩
    · simp only [ipReassSubmitTimer, hinfo, Worker.allocInfo, Worker.setTimerData, htw, hret]
    · rw [htw, hheld]
      simp only [hs]
      exact
        { wheel := ⟨chunks', expired, by
            rw [hclock.expireChunkList]
            exact hinv⟩
          words := by
            intro x hx
            rw [hhandle]
            rcases (hmem x).mp hx with rfl | hx
            · rw [he]
            · exact h.words x hx
          tokens := by
            refine List.Perm.trans ?_ (h.tokens.cons d.info)
            refine List.perm_iff_count.mpr fun i => ?_
            have hid : e.id = d.info := by rw [he]
            simp only [Reass.tokens, harmed, armed_append, List.map_append, List.map_cons,
              List.map_nil, List.count_append, List.count_cons, List.count_nil, hid]
            omega
          timers := by
            intro x hx
            rcases List.mem_cons.mp hx with rfl | hx
            · refine ⟨Function.update_self .., ?_, count + timeoutSec * 10, ?_, ?_, ?_⟩
              · simp only [Function.update_self]
              · simp only [Function.update_self, hclock.timerInterval]
                exact safeTime_eq (by decide) (by decide) h.lastRun rfl
              · intro y hy hid
                rcases (hmem y).mp hy with rfl | hy
                · simp only [Function.update_self, he, and_self]
                · refine absurd (List.mem_append_left _ (mem_tokens.mpr ⟨y, hy, hid⟩)) hnotToken
              · intro hpending
                exact absurd (List.mem_append_right _ hpending) hnotToken
            · obtain ⟨hdata, hrec, due, hsafe, hslot, hpending⟩ := h.timers x hx
              have hrecord : Function.update k.timerRecord d.node
                  ⟨addr, d.info, safeTime k.tw (timeoutSec * 10)⟩ x.node =
                  k.timerRecord x.node := Function.update_of_ne (hnodeNe x hx) _ _
              refine ⟨(Function.update_of_ne (hinfoNe x hx) _ _).trans hdata, ?_, due, ?_, ?_,
                hpending⟩
              · simp only [hrecord, hrec]
              · simp only [hrecord, hsafe, hclock.timerInterval]
              · intro y hy hid
                simp only [hrecord]
                rcases (hmem y).mp hy with rfl | hy
                · rw [he] at hid
                  exact absurd hid.symm (hinfoNe x hx)
                · exact hslot y hy hid
          zombie := fun i hi => (Function.update_of_ne (hzombieNe i hi) _ _).trans (h.zombie i hi)
          infos := (h.infos.cons d.info).trans List.perm_middle.symm
          nodes := (h.nodes.cons d.node).trans List.perm_middle.symm
          apart := List.nodup_cons.mpr ⟨hout, h.apart⟩
          nodesApart := List.nodup_cons.mpr ⟨hnode, h.nodesApart⟩
          fits := by
            intro i hi
            rcases List.mem_cons.mp hi with rfl | hi
            · exact hfitsTw _ fits
            · exact hfitsTw i (h.fits i hi)
          lastRun := by
            rw [hclock.lastRunTime, hclock.timerInterval]
            exact h.lastRun
          lastRunNow := by
            rw [hclock.lastRunTime]
            exact h.lastRunNow
          started := by
            rw [hclock.timerInfoStart]
            exact h.started
          interval := by
            rw [hclock.timerInterval]
            exact h.interval }

/-! ## The timer nodes -/

/-- A run of the input node moves timers on in the wheel and delivers some that are due. -/
theorem sfTimerInputNode_moves {nenv : NodeEnv} (room_pos : ∀ k, 0 < nenv.room k) {p : Poll}
    {chunks : Nat → List ChunkId} {expired : List ChunkId} {now : Nat}
    (h : WheelInv p.tw p.tw.expireChunkList p.held chunks expired count waiting late)
    (lastRun : p.tw.lastRunTime = count * p.tw.timerInterval) (lastRunNow : p.tw.lastRunTime ≤ now)
    {q : Poll} (hq : sfTimerInputNode nenv p now = q) :
    ∃ chunks' expired' count' waiting' late' delivered,
      WheelInv q.tw q.tw.expireChunkList q.held chunks' expired' count' waiting' late' ∧
      (waiting' ++ late' ++ delivered).Perm (waiting ++ late) ∧ count ≤ count' ∧
      (∀ e ∈ delivered, e.due ≤ count') ∧
      q.sent.Perm (p.sent ++ delivered.map fun e => slotTarget nenv p.tw e.data) ∧
      q.tw.timerInfoStart = p.tw.timerInfoStart ∧ q.tw.timerInterval = p.tw.timerInterval ∧
      q.tw.lastRunTime = count' * q.tw.timerInterval ∧ q.tw.lastRunTime ≤ now := by
  obtain ⟨tw, htw⟩ : ∃ tw, tw =
      if p.tw.expireChunkList = none then (sfTwTimerExpireInternal p.tw now).2 else p.tw := ⟨_, rfl⟩
  -- the wheel after the advance
  obtain ⟨chunks₁, expired₁, count₁, waiting₁, late₁, hinv, hperm, hcount, hstart, hinterval, hlast,
    hnow⟩ : ∃ chunks₁ expired₁ count₁ waiting₁ late₁,
      WheelInv tw tw.expireChunkList p.held chunks₁ expired₁ count₁ waiting₁ late₁ ∧
      (waiting₁ ++ late₁).Perm (waiting ++ late) ∧ count ≤ count₁ ∧
      tw.timerInfoStart = p.tw.timerInfoStart ∧ tw.timerInterval = p.tw.timerInterval ∧
      tw.lastRunTime = count₁ * tw.timerInterval ∧ tw.lastRunTime ≤ now := by
    have hidle : tw = p.tw → ∃ chunks₁ expired₁ count₁ waiting₁ late₁,
        WheelInv tw tw.expireChunkList p.held chunks₁ expired₁ count₁ waiting₁ late₁ ∧
        (waiting₁ ++ late₁).Perm (waiting ++ late) ∧ count ≤ count₁ ∧
        tw.timerInfoStart = p.tw.timerInfoStart ∧ tw.timerInterval = p.tw.timerInterval ∧
        tw.lastRunTime = count₁ * tw.timerInterval ∧ tw.lastRunTime ≤ now := by
      rintro rfl
      exact ⟨chunks, expired, count, waiting, late, h, .refl _, Nat.le_refl _, rfl, rfl, lastRun,
        lastRunNow⟩
    by_cases hlist : p.tw.expireChunkList = none
    · rw [if_pos hlist] at htw
      rcases sfTwTimerExpireInternal_cases h now with ⟨-, hsame⟩ | ⟨-, -, rfl, tw', chunks₁,
        expired₁, late₁, hret, hinv, hperm, hlast, -, hstart, hinterval⟩
      · exact hidle (htw.trans hsame)
      · obtain rfl : tw = tw' := htw.trans hret
        refine ⟨chunks₁, expired₁, _, _, late₁, hinv, ?_, Nat.le_add_right .., hstart,
          hinterval, ?_,
          ?_⟩
        · refine (hperm.append_left _).trans (List.perm_append_comm.trans ?_)
          rw [List.append_nil]
          have hfilter := List.filter_append_perm
            (fun e : Entry => decide (e.due ≤ count + expireNticks p.tw now)) waiting
          have hcompl : waiting.filter
              (fun e => !decide (e.due ≤ count + expireNticks p.tw now)) =
              dueAfter (count + expireNticks p.tw now) waiting := by
            refine List.filter_congr fun e _ => ?_
            simp only [← decide_not, Nat.not_le]
          rwa [hcompl] at hfilter
        · rw [hlast, hinterval, lastRun, Nat.add_mul]
        · rw [hlast, expireNticks]
          have hle := Nat.div_mul_le_self (now - p.tw.lastRunTime) p.tw.timerInterval
          omega
    · rw [if_neg hlist] at htw
      exact hidle htw
  obtain ⟨expired', n, hloop, hfields, hsent, -⟩ :=
    pollLoop_spec room_pos p.held.length { p with tw := tw, retCnt := 0 } hinv
  have hq' : q = pollLoop nenv p.held.length { p with tw := tw, retCnt := 0 } := by
    rw [← hq, sfTimerInputNode, htw]
  rw [← hq'] at hloop hfields hsent
  refine ⟨chunks₁, expired', count₁, waiting₁, late₁.drop n, late₁.take n, hloop, ?_, hcount,
    fun e he => hinv.overdue e (List.mem_of_mem_take he), ?_, ?_, ?_, ?_, ?_⟩
  · refine List.Perm.trans ?_ hperm
    rw [List.append_assoc]
    refine List.Perm.append_left _ (List.perm_append_comm.trans ?_)
    rw [List.take_append_drop]
  · simp only [slotTarget_congr nenv hstart] at hsent
    exact hsent
  · rw [hfields]
    exact hstart
  · rw [hfields]
    exact hinterval
  · rw [hfields]
    exact hlast
  · rw [hfields]
    exact hnow

/-- The infos that a run of the input node sends to the reassembly timer node. -/
def sentTimers (nenv : NodeEnv) (sent : List (Nat × Nat)) : List Nat :=
  (sent.filter fun x => x.1 = nenv.nextIndexVec sfTwTimerGroupIpReass).map Prod.snd

/-- The delivered timers that have not been stopped go to the node of their group. -/
theorem sentTimers_perm {nenv : NodeEnv} {tw : SfTwTimer} {es : List Entry}
    {sent : List (Nat × Nat)} (hdrop : nenv.nextIndexVec sfTwTimerGroupIpReass ≠ 0)
    (hsent : sent.Perm (es.map fun e => slotTarget nenv tw e.data))
    (words : ∀ e ∈ armed es, e.data = tw.handleOf sfTwTimerGroupIpReass e.id)
    (fits : ∀ e ∈ armed es, Fits tw e.id) (hstart : tw.timerInfoStart < 2 ^ 64) :
    (sentTimers nenv sent).Perm (Reass.tokens es) := by
  refine ((hsent.filter _).map _).trans (.of_eq ?_)
  clear hsent
  induction es with
  | nil => rfl
  | cons e es ih =>
      by_cases hd : e.data = 0
      · have harmed : armed (e :: es) = armed es := by simp [armed, hd]
        rw [harmed] at words fits
        have hnext : (slotTarget nenv tw e.data).1 = 0 := by simp [hd, slotTarget, slotNext,
          handleGroupId, sfNextNodeTimerErrorDrop]
        rw [Reass.tokens, harmed, List.map_cons, List.filter_cons_of_neg]
        · exact ih words fits
        · rw [decide_eq_true_eq, hnext]
          exact Ne.symm hdrop
      · have harmed : armed (e :: es) = e :: armed es := by simp [armed, hd]
        rw [harmed] at words fits
        obtain ⟨hinfo, hfit⟩ := fits e (List.mem_cons_self ..)
        obtain ⟨hg, hi⟩ := handleOf_decode tw (by decide : sfTwTimerGroupIpReass < 2 ^ 8)
          hinfo hstart hfit
        have htarget : slotTarget nenv tw e.data =
            (nenv.nextIndexVec sfTwTimerGroupIpReass, e.id) := by
          rw [words e (List.mem_cons_self ..), slotTarget, slotNext, hg, hi]
          rfl
        rw [Reass.tokens, harmed, List.map_cons, List.map_cons, htarget,
          List.filter_cons_of_pos (by simp), List.map_cons]
        refine congrArg (e.id :: ·) (ih ?_ ?_)
        · exact fun x hx => words x (List.mem_cons_of_mem _ hx)
        · exact fun x hx => fits x (List.mem_cons_of_mem _ hx)

/-- A run of the input node: some timers are on their way to the reassembly timer node. -/
theorem poll {nenv : NodeEnv} (room_pos : ∀ k, 0 < nenv.room k)
    (hdrop : nenv.nextIndexVec sfTwTimerGroupIpReass ≠ 0)
    (h : Books env k pendingTimers timedOut live zombies count waiting late) {gets : Nat} {q : Poll}
    (hq : sfTimerInputNode nenv ⟨k.tw, k.chunkHeld, [], gets, 0⟩ k.now = q) :
    ∃ count' waiting' late', Books env { k with tw := q.tw, chunkHeld := q.held }
      (pendingTimers ++ sentTimers nenv q.sent) timedOut live zombies count' waiting' late' := by
  obtain ⟨chunks, expired, hwheel⟩ := h.wheel
  obtain ⟨chunks', expired', count', waiting', late', delivered, hinv, hperm, hcount, hdue, hsent,
    hstart, hinterval, hlast, hnow⟩ :=
    sfTimerInputNode_moves room_pos hwheel h.lastRun h.lastRunNow hq
  have harmed : (armed (waiting' ++ late') ++ armed delivered).Perm (armed (waiting ++ late)) := by
    rw [← armed_append]
    exact hperm.filter _
  have hsub : ∀ e ∈ armed (waiting' ++ late'), e ∈ armed (waiting ++ late) := fun e he =>
    harmed.mem_iff.mp (List.mem_append_left _ he)
  have hsubD : ∀ e ∈ armed delivered, e ∈ armed (waiting ++ late) := fun e he =>
    harmed.mem_iff.mp (List.mem_append_right _ he)
  have hhandle : ∀ i, q.tw.handleOf sfTwTimerGroupIpReass i =
      k.tw.handleOf sfTwTimerGroupIpReass i := fun i => by
    rw [SfTwTimer.handleOf, SfTwTimer.handleOf, hstart]
  have hfitsTw : ∀ i, Fits k.tw i → Fits q.tw i := fun i hi => by
    rw [Fits, hstart]
    exact hi
  have htokenFits : ∀ e ∈ armed delivered, Fits k.tw e.id := fun e he =>
    h.fits _ (h.tokens.mem_iff.mp (List.mem_append_left _ (mem_tokens.mpr ⟨e, hsubD e he, rfl⟩)))
  have hnew : (sentTimers nenv q.sent).Perm (Reass.tokens delivered) :=
    sentTimers_perm hdrop (by simpa using hsent) (fun e he => h.words e (hsubD e he)) htokenFits
      h.started
  refine ⟨count', waiting', late', ?_⟩
  exact
    { wheel := ⟨chunks', expired', hinv⟩
      words := by
        intro e he
        rw [hhandle]
        exact h.words e (hsub e he)
      tokens := by
        refine List.Perm.trans ?_ h.tokens
        have hmap := (harmed.map (·.id)).count_eq
        refine List.perm_iff_count.mpr fun i => ?_
        have hold := hmap i
        have hsentCount := hnew.count_eq i
        simp only [Reass.tokens, List.map_append, List.count_append] at hold hsentCount ⊢
        omega
      timers := by
        intro d hd
        obtain ⟨hdata, hrec, due, hsafe, hslot, hpending⟩ := h.timers d hd
        refine ⟨hdata, hrec, due, ?_, fun e he => hslot e (hsub e he), ?_⟩
        · rw [hinterval]
          exact hsafe
        · intro hmem
          rcases List.mem_append.mp hmem with hmem | hmem
          · exact Nat.le_trans (hpending hmem) hcount
          · obtain ⟨e, he, hid⟩ := mem_tokens.mp (hnew.mem_iff.mp hmem)
            rw [← (hslot e (hsubD e he) hid).1]
            exact hdue e (mem_armed.mp he).1
      zombie := h.zombie
      infos := h.infos
      nodes := h.nodes
      apart := h.apart
      nodesApart := h.nodesApart
      fits := fun i hi => hfitsTw i (h.fits i hi)
      lastRun := hlast
      lastRunNow := hnow
      started := by
        rw [hstart]
        exact h.started
      interval := by
        rw [hinterval]
        exact h.interval }

/-- A timer that is handled is that of a waiting datagram, and its info is then lost, or a
zombie, whose info is freed. -/
theorem handle {info : Nat} {rest : List Nat}
    (h : Books env k (info :: rest) timedOut live zombies count waiting late) :
    (∃ l₁ d l₂, live = l₁ ++ d :: l₂ ∧ d.info = info ∧
      k.timerData info = ⟨d.hashIndex env, some d.node⟩ ∧
      Books env { k with nodePool := k.nodePool.free d.node } rest (info :: timedOut) (l₁ ++ l₂)
        zombies count waiting late) ∨
    (k.timerData info = ⟨0, none⟩ ∧ info ∉ live.map (·.info) ∧ ∃ zombies',
      Books env { k with infoPool := k.infoPool.free info } rest timedOut live zombies' count
        waiting late) := by
  have hmem : info ∈ live.map (·.info) ++ zombies := h.tokens.mem_iff.mp (by simp)
  have htokens : (info :: (Reass.tokens (waiting ++ late) ++ rest)).Perm
      (live.map (·.info) ++ zombies) := List.perm_middle.symm.trans h.tokens
  rcases List.mem_append.mp hmem with hmem | hmem
  · left
    obtain ⟨d, hd, rfl⟩ := List.mem_map.mp hmem
    obtain ⟨l₁, l₂, rfl⟩ := List.append_of_mem hd
    have hinfos : ((l₁ ++ d :: l₂).map (·.info)).Perm (d.info :: (l₁ ++ l₂).map (·.info)) :=
      List.perm_middle.map _
    have hnodes : ((l₁ ++ d :: l₂).map (·.node)).Perm (d.node :: (l₁ ++ l₂).map (·.node)) :=
      List.perm_middle.map _
    have hsub : ∀ e ∈ l₁ ++ l₂, e ∈ l₁ ++ d :: l₂ := by
      intro e he
      rcases List.mem_append.mp he with he | he
      · exact List.mem_append_left _ he
      · exact List.mem_append_right _ (List.mem_cons_of_mem _ he)
    have hout : ((l₁ ++ d :: l₂).map (·.info) ++ zombies ++ timedOut).Perm
        ((l₁ ++ l₂).map (·.info) ++ zombies ++ (d.info :: timedOut)) :=
      (((hinfos.append_right zombies).append_right timedOut)).trans List.perm_middle.symm
    refine ⟨l₁, d, l₂, rfl, rfl, (h.timers d hd).data, ?_⟩
    exact
      { wheel := h.wheel
        words := h.words
        tokens := (htokens.trans (hinfos.append_right _)).cons_inv
        timers := by
          intro e he
          obtain ⟨hdata, hrec, due, hsafe, hslot, hpending⟩ := h.timers e (hsub e he)
          exact ⟨hdata, hrec, due, hsafe, hslot,
            fun hm => hpending (List.mem_cons_of_mem _ hm)⟩
        zombie := h.zombie
        infos := h.infos.trans (hout.append_left _)
        nodes := h.nodes.trans ((hnodes.append_left _).trans List.perm_middle)
        apart := hout.nodup_iff.mp h.apart
        nodesApart := (hnodes.nodup_iff.mp h.nodesApart).of_cons
        fits := fun i hi => h.fits i ((hinfos.append_right _).mem_iff.mpr
          (List.mem_cons_of_mem _ hi))
        lastRun := h.lastRun
        lastRunNow := h.lastRunNow
        started := h.started
        interval := h.interval }
  · right
    have hnot : info ∉ live.map (·.info) := fun hm =>
      (List.nodup_append.mp h.outNodup).2.2 info hm info hmem rfl
    have hzombies : zombies.Perm (info :: zombies.erase info) := List.perm_cons_erase hmem
    have hplace : (live.map (·.info) ++ zombies).Perm
        (info :: (live.map (·.info) ++ zombies.erase info)) :=
      (hzombies.append_left _).trans List.perm_middle
    refine ⟨h.zombie info hmem, hnot, zombies.erase info, ?_⟩
    exact
      { wheel := h.wheel
        words := h.words
        tokens := (htokens.trans hplace).cons_inv
        timers := by
          intro e he
          obtain ⟨hdata, hrec, due, hsafe, hslot, hpending⟩ := h.timers e he
          exact ⟨hdata, hrec, due, hsafe, hslot,
            fun hm => hpending (List.mem_cons_of_mem _ hm)⟩
        zombie := fun i hi => h.zombie i (List.mem_of_mem_erase hi)
        infos := h.infos.trans (((hplace.append_right timedOut).append_left _).trans
          List.perm_middle)
        nodes := h.nodes
        apart := ((hplace.append_right timedOut).nodup_iff.mp h.apart).of_cons
        nodesApart := h.nodesApart
        fits := fun i hi => h.fits i (hplace.mem_iff.mpr (List.mem_cons_of_mem _ hi))
        lastRun := h.lastRun
        lastRunNow := h.lastRunNow
        started := h.started
        interval := h.interval }

end Books

end Tapplet.Reass
