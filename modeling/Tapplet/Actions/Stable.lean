import Tapplet.Actions.Workers

/-!
# Flows keep their interfaces

When no two workers are at the table of one action, the row that a worker fills holds the members
that are up, and its packet gets the interface that an undisturbed call would give it. That a flow
keeps its primary member needs no condition. Two workers at one table can take a packet its
interface.
-/

namespace Tapplet.Actions

open Fallible Transition

/-! ## The row of an action -/

/-- The row of a slot begins with these words, and they are counted. -/
structure RealTables.Holds (t : RealTables) (slot : Nat) (ws : List UInt16) : Prop where
  num : t.num slot = .ofNat ws.length
  row : ∀ (i : Nat) (h : i < ws.length), t.array (rowPlace slot i) = ws[i]

/-- The words that the first members leave in the row. -/
def upWords (l : Links) (a : Action) (n : Nat) : List UInt16 :=
  (((List.range n).map a.member).filter l.up).map fun m => .ofNat m.toNat

theorem upWords_succ (l : Links) (a : Action) (n : Nat) :
    upWords l a (n + 1) =
      upWords l a n ++ if l.up (a.member n) then [.ofNat (a.member n).toNat] else [] := by
  rw [upWords, upWords, List.range_succ, List.map_append, List.filter_append, List.map_append]
  cases hup : l.up (a.member n) with
  | true => simp [hup]
  | false => simp [hup]

/-- The first `i` members have been tested, and these words are in the row. -/
structure Scanned (t : RealTables) (p : BalancePacket) (num i : Nat) (ws : List UInt16) :
    Prop where
  holds : t.Holds p.slot ws
  length_le : ws.length ≤ i
  le : i ≤ num
  exact : p.Hashed → ws = upWords p.links p.action i

/-- The row of a call, from its first write to it on. -/
def BalanceCall.InRow (netToHost : UInt64 → UInt64) (t : RealTables) (c : BalanceCall) : Prop :=
  match c.pc with
  | .select | .check _ | .update | .clear => True
  | .scan i => ∃ ws, Scanned t c.packet c.interfaceNum i ws
  | .load i =>
      (c.packet.Hashed → c.packet.links.up (c.packet.action.member i) = true) ∧
        ∃ ws, Scanned t c.packet c.interfaceNum i ws
  | .put i num =>
      (c.packet.Hashed → c.packet.links.up (c.packet.action.member i) = true) ∧
        ∃ ws, Scanned t c.packet c.interfaceNum i ws ∧ num = .ofNat ws.length
  | .count i num =>
      (c.packet.Hashed → c.packet.links.up (c.packet.action.member i) = true) ∧
        ∃ ws word, Scanned t c.packet c.interfaceNum i ws ∧ num = .ofNat ws.length ∧
          t.array (rowPlace c.packet.slot ws.length) = word ∧
          (c.packet.Hashed → word = .ofNat (c.packet.action.member i).toNat)
  | .mark | .test => ∃ ws, Scanned t c.packet c.interfaceNum c.interfaceNum ws
  | .index => ∃ ws, Scanned t c.packet c.interfaceNum c.interfaceNum ws ∧ 0 < ws.length
  | .fetch index =>
      c.packet.Hashed → ∃ ws, Scanned t c.packet c.interfaceNum c.interfaceNum ws ∧ 0 < ws.length ∧
        index = hashIndex (hashOf c.packet.action.loadBalanceMode
          (fillLoadBalanceData netToHost c.packet.w)) ws.length

/-- A slot has the same row in two tables. -/
structure RealTables.SameRow (t t' : RealTables) (slot : Nat) : Prop where
  num : t'.num slot = t.num slot
  row : ∀ i < MAX_INTERFACE_CNT, t'.array (rowPlace slot i) = t.array (rowPlace slot i)

variable {netToHost : UInt64 → UInt64} {fuel : Nat} {a : Action} {t t' : RealTables}
variable {c : BalanceCall} {p : BalancePacket} {num i : Nat} {ws : List UInt16}
variable {r : Action × (BalancePc ⊕ Nat)}

namespace Scanned

theorem congr (h : Scanned t p num i ws) (same : t.SameRow t' p.slot)
    (few : num ≤ MAX_INTERFACE_CNT) : Scanned t' p num i ws where
  holds :=
    ⟨same.num.trans h.holds.num, fun j hj =>
      (same.row j (by have := h.length_le; have := h.le; omega)).trans (h.holds.row j hj)⟩
  length_le := h.length_le
  le := h.le
  exact := h.exact

/-- The number of words is read as it is. -/
theorem toNat_num (h : Scanned t p num i ws) (few : num ≤ MAX_INTERFACE_CNT) :
    (t.num p.slot).toNat = ws.length := by
  have hlength := h.length_le
  have hle := h.le
  have hmax : MAX_INTERFACE_CNT < 2 ^ 16 := by decide
  rw [h.holds.num, UInt16.toNat_ofNat']
  exact Nat.mod_eq_of_lt (by omega)

theorem of_steady {steady : Bool} (h : Scanned t p num i ws)
    (hashed : ({ p with steady } : BalancePacket).Hashed → p.Hashed) :
    Scanned t { p with steady } num i ws :=
  ⟨h.holds, h.length_le, h.le, fun hd => h.exact (hashed hd)⟩

/-- A word is put behind the others and counted. -/
theorem count {word : UInt16} (h : Scanned t p num i ws) (hlt : i < num)
    (hrow : t.array (rowPlace p.slot ws.length) = word)
    (hword : p.Hashed → upWords p.links p.action (i + 1) = ws ++ [word]) :
    Scanned { t with num := Function.update t.num p.slot (.ofNat ws.length + 1) } p num (i + 1)
      (ws ++ [word]) where
  holds := by
    constructor
    · show Function.update t.num p.slot (.ofNat ws.length + 1) p.slot = _
      rw [Function.update_self, List.length_append, List.length_singleton, UInt16.ofNat_add]
      rfl
    · intro j hj
      show t.array (rowPlace p.slot j) = _
      rw [List.length_append, List.length_singleton] at hj
      obtain hold | rfl := Nat.lt_succ_iff_lt_or_eq.mp hj
      · rw [List.getElem_append_left hold]
        exact h.holds.row j hold
      · rw [List.getElem_concat_length rfl]
        exact hrow
  length_le := by
    rw [List.length_append, List.length_singleton]
    exact Nat.succ_le_succ h.length_le
  le := hlt
  exact hd := (hword hd).symm

end Scanned

theorem rowPlace_inj {slot slot' i j : Nat} (hi : i < MAX_INTERFACE_CNT)
    (hj : j < MAX_INTERFACE_CNT) (h : rowPlace slot i = rowPlace slot' j) :
    slot = slot' ∧ i = j := by
  simp only [rowPlace, MAX_INTERFACE_CNT] at hi hj h
  omega

theorem BalanceCall.write_out (h : ¬c.pc.InTable) : c.write a t = t := by
  unfold write
  cases hpc : c.pc with
  | select | check | update | scan | load | test | index | fetch => rfl
  | clear | put | count | mark =>
      rw [hpc] at h
      exact (h trivial).elim

namespace BalanceCall.InRow

theorem out (h : ¬c.pc.InTable) : c.InRow netToHost t := by
  unfold InRow
  cases hpc : c.pc with
  | select | check | update => trivial
  | clear | scan | load | put | count | mark | test | index | fetch =>
      rw [hpc] at h
      exact (h trivial).elim

theorem of_steady {steady : Bool} (h : c.InRow netToHost t)
    (hsteady : steady = true → c.packet.steady = true) :
    { c with packet := { c.packet with steady } }.InRow netToHost t := by
  have hashed (hd : ({ c.packet with steady } : BalancePacket).Hashed) : c.packet.Hashed :=
    ⟨hsteady hd.1, hd.2⟩
  unfold InRow at h ⊢
  cases hpc : c.pc with
  | select | check | update | clear => trivial
  | scan i =>
      rw [hpc] at h
      obtain ⟨ws, hs⟩ := h
      exact ⟨ws, hs.of_steady hashed⟩
  | load i =>
      rw [hpc] at h
      obtain ⟨hup, ws, hs⟩ := h
      exact ⟨fun hd => hup (hashed hd), ws, hs.of_steady hashed⟩
  | put i num =>
      rw [hpc] at h
      obtain ⟨hup, ws, hs, hnum⟩ := h
      exact ⟨fun hd => hup (hashed hd), ws, hs.of_steady hashed, hnum⟩
  | count i num =>
      rw [hpc] at h
      obtain ⟨hup, ws, word, hs, hnum, hrow, hword⟩ := h
      exact ⟨fun hd => hup (hashed hd), ws, word, hs.of_steady hashed, hnum, hrow,
        fun hd => hword (hashed hd)⟩
  | mark | test =>
      rw [hpc] at h
      obtain ⟨ws, hs⟩ := h
      exact ⟨ws, hs.of_steady hashed⟩
  | index =>
      rw [hpc] at h
      obtain ⟨ws, hs, hpos⟩ := h
      exact ⟨ws, hs.of_steady hashed, hpos⟩
  | fetch index =>
      rw [hpc] at h
      intro hd
      obtain ⟨ws, hs, hpos, hindex⟩ := h (hashed hd)
      exact ⟨ws, hs.of_steady hashed, hpos, hindex⟩

theorem congr (h : c.InRow netToHost t) (same : t.SameRow t' c.packet.slot)
    (few : c.interfaceNum ≤ MAX_INTERFACE_CNT) (fits : c.pc.Fits c.interfaceNum) :
    c.InRow netToHost t' := by
  unfold InRow at h ⊢
  cases hpc : c.pc with
  | select | check | update | clear => trivial
  | scan i =>
      rw [hpc] at h
      obtain ⟨ws, hs⟩ := h
      exact ⟨ws, hs.congr same few⟩
  | load i =>
      rw [hpc] at h
      obtain ⟨hup, ws, hs⟩ := h
      exact ⟨hup, ws, hs.congr same few⟩
  | put i num =>
      rw [hpc] at h
      obtain ⟨hup, ws, hs, hnum⟩ := h
      exact ⟨hup, ws, hs.congr same few, hnum⟩
  | count i num =>
      rw [hpc] at h fits
      obtain ⟨hup, ws, word, hs, hnum, hrow, hword⟩ := h
      have hlt : i < c.interfaceNum := fits
      have hplace := same.row ws.length (by have := hs.length_le; omega)
      exact ⟨hup, ws, word, hs.congr same few, hnum, hplace.trans hrow, hword⟩
  | mark | test =>
      rw [hpc] at h
      obtain ⟨ws, hs⟩ := h
      exact ⟨ws, hs.congr same few⟩
  | index =>
      rw [hpc] at h
      obtain ⟨ws, hs, hpos⟩ := h
      exact ⟨ws, hs.congr same few, hpos⟩
  | fetch index =>
      rw [hpc] at h
      intro hd
      obtain ⟨ws, hs, hpos, hindex⟩ := h hd
      exact ⟨ws, hs.congr same few, hpos, hindex⟩

/-- An access leaves the rows of other actions as they are. -/
theorem write_other (h : c.InRow netToHost t) (few : c.interfaceNum ≤ MAX_INTERFACE_CNT)
    (fits : c.pc.Fits c.interfaceNum) {slot : Nat} (hslot : slot ≠ c.packet.slot) :
    t.SameRow (c.write a t) slot := by
  unfold InRow at h
  unfold write
  cases hpc : c.pc with
  | put i num =>
      rw [hpc] at h fits
      obtain ⟨-, ws, hs, hnum⟩ := h
      have hlt : i < c.interfaceNum := fits
      have hlength := hs.length_le
      have hplace : num.toNat = ws.length := by
        rw [hnum, ← hs.holds.num, hs.toNat_num few]
      refine ⟨rfl, fun j hj => Function.update_of_ne (fun heq => hslot ?_) ..⟩
      exact (rowPlace_inj hj (by omega) heq).1
  | clear | count => exact ⟨Function.update_of_ne hslot .., fun _ _ => rfl⟩
  | select | check | update | scan | load | mark | test | index | fetch =>
      exact ⟨rfl, fun _ _ => rfl⟩

/-- An access: the row of the call is as it must be for what comes next, and what is returned is
the interface of the flow. -/
theorem next {κ : Type*} {s : BalanceNode κ} (h : c.InRow netToHost s.tables)
    (knows : c.packet.Hashed → c.Knows netToHost s) (few : c.interfaceNum ≤ MAX_INTERFACE_CNT)
    (fits : c.pc.Fits c.interfaceNum) (renewed : s.tables.update c.packet.slot ≠ 0xff)
    (hnext : c.next netToHost fuel s.links (s.actions c.packet.slot) s.tables = .ok r) :
    (∀ pc, r.2 = .inl pc →
      { c with pc }.InRow netToHost (c.write (s.actions c.packet.slot) s.tables)) ∧
    ∀ interfaceId, r.2 = .inr interfaceId → c.packet.Hashed →
      interfaceId = hashedMember netToHost c.packet.links c.packet.action c.packet.w := by
  have hup (hd : c.packet.Hashed) (i : Nat) : s.links.up ((s.actions c.packet.slot).member i) =
      c.packet.links.up (c.packet.action.member i) := by
    rw [(knows hd).links, member_of_config (knows hd).action]
  unfold InRow at h
  cases hpc : c.pc with
  | select =>
      simp only [BalanceCall.next, hpc] at hnext
      obtain ⟨b, -, hnext⟩ := bind_ok hnext
      cases hnext
      exact ⟨fun pc hgo => by cases hgo; trivial, fun _ hret => by cases hret⟩
  | check interfaceId =>
      refine ⟨fun pc hgo => ?_, fun ret hret hd => ?_⟩
      · simp only [BalanceCall.next, hpc] at hnext
        split at hnext
        next =>
          cases hnext
          cases hgo
        next =>
          split at hnext
          next =>
            obtain ⟨b, -, hnext⟩ := bind_ok hnext
            cases hnext
            cases hgo
          next =>
            cases hnext
            cases hgo
            trivial
      · have hpast := (knows hd).past
        rw [BalanceCall.Past, hpc] at hpast
        rw [BalanceCall.next_check ((knows hd).mode hd) hpc, (knows hd).links] at hnext
        cases hnext
        split_ifs at hret with halive
        rw [hpast] at halive
        rw [hashedMember, if_pos halive, ← Sum.inr.inj hret, hpast]
  | update =>
      simp only [BalanceCall.next, hpc, if_pos renewed] at hnext
      cases hnext
      exact ⟨fun pc hgo => by cases hgo; trivial, fun _ hret => by cases hret⟩
  | clear =>
      simp only [BalanceCall.next, hpc] at hnext
      cases hnext
      refine ⟨fun pc hgo => ?_, fun _ hret => by cases hret⟩
      cases hgo
      refine ⟨[], ⟨?_, fun j hj => absurd hj (Nat.not_lt_zero j)⟩, Nat.le_refl 0,
        Nat.zero_le _, fun _ => rfl⟩
      simp only [write, hpc]
      exact Function.update_self ..
  | scan i =>
      rw [hpc] at h
      obtain ⟨ws, hs⟩ := h
      simp only [BalanceCall.next, hpc] at hnext
      cases hnext
      refine ⟨fun pc hgo => ?_, fun _ hret => by cases hret⟩
      simp only [write, hpc]
      split_ifs at hgo with hlt halive
      · cases hgo
        exact ⟨fun hd => (hup hd i).symm.trans halive, ws, hs⟩
      · cases hgo
        refine ⟨ws, hs.holds, Nat.le_succ_of_le hs.length_le, hlt, fun hd => ?_⟩
        have hdown : ¬c.packet.links.up (c.packet.action.member i) = true := by
          rwa [← hup hd i]
        rw [upWords_succ, if_neg hdown, List.append_nil]
        exact hs.exact hd
      · cases hgo
        obtain rfl : i = c.interfaceNum := Nat.le_antisymm hs.le (Nat.le_of_not_lt hlt)
        exact ⟨ws, hs⟩
  | load i =>
      rw [hpc] at h
      obtain ⟨halive, ws, hs⟩ := h
      simp only [BalanceCall.next, hpc] at hnext
      cases hnext
      refine ⟨fun pc hgo => ?_, fun _ hret => by cases hret⟩
      simp only [write, hpc]
      cases hgo
      exact ⟨halive, ws, hs, hs.holds.num⟩
  | put i num =>
      rw [hpc] at h fits
      obtain ⟨halive, ws, hs, hnum⟩ := h
      have hlt : i < c.interfaceNum := fits
      have hlength := hs.length_le
      have hplace : num.toNat = ws.length := by
        rw [hnum, ← hs.holds.num, hs.toNat_num few]
      simp only [BalanceCall.next, hpc] at hnext
      cases hnext
      refine ⟨fun pc hgo => ?_, fun _ hret => by cases hret⟩
      simp only [write, hpc]
      cases hgo
      refine ⟨halive, ws, _, ⟨⟨hs.holds.num, fun j hj => ?_⟩, hlength, hs.le, hs.exact⟩, hnum,
        rfl, fun hd => ?_⟩
      · refine (Function.update_of_ne (fun heq => ?_) ..).trans (hs.holds.row j hj)
        have hsame := (rowPlace_inj (by omega) (by omega) heq).2
        omega
      · show Function.update s.tables.array _ _ (rowPlace c.packet.slot ws.length) = _
        rw [hplace, Function.update_self, member_of_config (knows hd).action]
  | count i num =>
      rw [hpc] at h fits
      obtain ⟨halive, ws, word, hs, rfl, hrow, hword⟩ := h
      simp only [BalanceCall.next, hpc] at hnext
      cases hnext
      refine ⟨fun pc hgo => ?_, fun _ hret => by cases hret⟩
      simp only [write, hpc]
      cases hgo
      refine ⟨ws ++ [word], hs.count fits hrow fun hd => ?_⟩
      rw [upWords_succ, if_pos (halive hd), ← hs.exact hd, hword hd]
  | mark =>
      rw [hpc] at h
      obtain ⟨ws, hs⟩ := h
      simp only [BalanceCall.next, hpc] at hnext
      cases hnext
      refine ⟨fun pc hgo => ?_, fun _ hret => by cases hret⟩
      simp only [write, hpc]
      cases hgo
      exact ⟨ws, ⟨hs.holds.num, hs.holds.row⟩, hs.length_le, hs.le, hs.exact⟩
  | test =>
      rw [hpc] at h
      obtain ⟨ws, hs⟩ := h
      have hread := hs.toNat_num few
      simp only [BalanceCall.next, hpc] at hnext
      cases hnext
      refine ⟨fun pc hgo => ?_, fun ret hret hd => ?_⟩
      · simp only [write, hpc]
        split_ifs at hgo with hzero
        cases hgo
        refine ⟨ws, hs, Nat.pos_of_ne_zero fun hnil => hzero ?_⟩
        exact UInt16.toNat_inj.mp (hread.trans hnil)
      · split_ifs at hret with hzero
        rw [hzero] at hread
        have hnil : upMembers c.packet.links c.packet.action = [] := by
          have hwords := hs.exact hd
          rw [List.length_eq_zero_iff.mp hread.symm, (knows hd).num] at hwords
          exact List.map_eq_nil_iff.mp hwords.symm
        rw [hashedMember_down (by simpa only [BalanceCall.Past, hpc] using (knows hd).past), hnil]
        exact (Sum.inr.inj hret).symm
  | index =>
      rw [hpc] at h
      obtain ⟨ws, hs, hpos⟩ := h
      have hread := hs.toNat_num few
      refine ⟨fun pc hgo => ?_, fun ret hret hd => ?_⟩
      · have hgo' := hnext
        simp only [BalanceCall.next, hpc] at hgo'
        obtain ⟨b, -, hgo'⟩ := bind_ok hgo'
        cases hgo'
        cases hgo
        simp only [write, hpc]
        intro hd
        rw [BalanceCall.next_index ((knows hd).mode hd) hpc, hread,
          mode_of_config (knows hd).action] at hnext
        refine ⟨ws, hs, hpos, ?_⟩
        have hindex := congrArg Prod.snd (Except.ok.inj hnext)
        exact (BalancePc.fetch.inj (Sum.inl.inj hindex)).symm
      · rw [BalanceCall.next_index ((knows hd).mode hd) hpc] at hnext
        cases hnext
        cases hret
  | fetch index =>
      rw [hpc] at h
      simp only [BalanceCall.next, hpc] at hnext
      cases hnext
      refine ⟨(fun _ hret => by cases hret), fun ret hret hd => ?_⟩
      obtain ⟨ws, hs, hpos, hindex⟩ := h hd
      have hlt : index < ws.length := by
        rw [hindex, hashIndex, if_neg (Nat.ne_of_gt hpos)]
        exact Nat.mod_lt _ hpos
      rw [hashedMember_down (by simpa only [BalanceCall.Past, hpc] using (knows hd).past),
        ← Sum.inr.inj hret, hs.holds.row index hlt]
      have hwords : ws = (upMembers c.packet.links c.packet.action).map fun m =>
          UInt16.ofNat m.toNat := by
        rw [hs.exact hd, (knows hd).num]
        rfl
      subst hwords
      rw [List.length_map] at hindex hlt
      have hsmall := ((upMembers c.packet.links c.packet.action)[index]).toNat_lt
      rw [← hindex, List.getD_eq_getElem _ _ hlt, List.getElem_map, UInt16.toNat_ofNat']
      exact Nat.mod_eq_of_lt (by omega)

end BalanceCall.InRow

/-! ## Runs in which workers are alone at a table -/

namespace BalanceNode

variable {κ : Type*} {s s' : BalanceNode κ}

/-- What holds as long as no two workers are at the table of one action. -/
structure Exclusive (netToHost : UInt64 → UInt64) (s : BalanceNode κ) : Prop where
  sound : Sound netToHost s
  few : ∀ slot, (s.actions slot).loadBalanceInterfacesNum.toNat ≤ MAX_INTERFACE_CNT
  renewed : ∀ slot, s.tables.update slot ≠ 0xff
  fewCall : ∀ k c, s.calls k = some c → c.interfaceNum ≤ MAX_INTERFACE_CNT
  rows : ∀ k c, s.calls k = some c → c.InRow netToHost s.tables
  one : ∀ k u c d, s.calls k = some c → s.calls u = some d → c.pc.InTable → d.pc.InTable →
    c.packet.slot = d.packet.slot → k = u
  answered : ∀ p ∈ s.answers, p.1.Hashed →
    p.2 = hashedMember netToHost p.1.links p.1.action p.1.w

theorem Exclusive.start (links : Links) :
    Exclusive netToHost (BalanceNode.start links : BalanceNode κ) where
  sound := .start links
  few _ := (by decide : resetActionConfigStruct.loadBalanceInterfacesNum.toNat ≤ MAX_INTERFACE_CNT)
  renewed _ := (by decide : (0 : UInt16) ≠ 0xff)
  fewCall _ _ h := (Option.some_ne_none _ h.symm).elim
  rows _ _ h := (Option.some_ne_none _ h.symm).elim
  one _ _ _ _ h := (Option.some_ne_none _ h.symm).elim
  answered _ h := absurd h List.not_mem_nil

/-- Calls of which only the packets are disturbed keep their rows. -/
theorem Exclusive.disturb (h : Exclusive netToHost s) {changed : BalancePacket → Bool}
    (hcalls : s'.calls = BalanceNode.disturb s.calls changed) (htables : s'.tables = s.tables)
    (hanswers : s'.answers = s.answers) (hsound : Sound netToHost s')
    (hfew : ∀ slot, (s'.actions slot).loadBalanceInterfacesNum.toNat ≤ MAX_INTERFACE_CNT) :
    Exclusive netToHost s' where
  sound := hsound
  few := hfew
  renewed slot := htables ▸ h.renewed slot
  fewCall k c hc := by
    rw [hcalls] at hc
    obtain ⟨d, hd, rfl⟩ := disturb_calls hc
    exact h.fewCall k d hd
  rows k c hc := by
    rw [hcalls] at hc
    obtain ⟨d, hd, rfl⟩ := disturb_calls hc
    rw [htables]
    exact (h.rows k d hd).of_steady fun hsteady => (Bool.and_eq_true_iff.mp hsteady).1
  one k u c d hc hd hin hin' hslot := by
    rw [hcalls] at hc hd
    obtain ⟨c', hc', rfl⟩ := disturb_calls hc
    obtain ⟨d', hd', rfl⟩ := disturb_calls hd
    exact h.one k u c' d' hc' hd' hin hin' hslot
  answered := hanswers ▸ h.answered

variable [DecidableEq κ] {e : BalanceEvent κ}

/-- A call is at the table after an access when it was there, or has gone there. -/
theorem inTable_of_next {pc : BalancePc} {b : Action} {l : Links}
    (h : c.next netToHost fuel l a t = .ok (b, .inl pc)) (hin : pc.InTable) :
    c.pc.InTable ∨ c.pc = .update := by
  cases hpc : c.pc with
  | select =>
      simp only [BalanceCall.next, hpc] at h
      obtain ⟨r, -, h⟩ := bind_ok h
      cases h
      exact hin.elim
  | check interfaceId =>
      simp only [BalanceCall.next, hpc] at h
      split at h
      next => cases h
      next =>
        split at h
        next =>
          obtain ⟨r, -, h⟩ := bind_ok h
          cases h
        next =>
          cases h
          exact hin.elim
  | update => exact .inr rfl
  | clear | scan | load | put | count | mark | test | index | fetch => exact .inl trivial

theorem Exclusive.access (h : Exclusive netToHost s) {k : κ} (busy : s.calls k = some c)
    (alone : c.pc = .update →
      ∀ u d, s.calls u = some d → d.packet.slot = c.packet.slot → ¬d.pc.InTable)
    (hnext : c.next netToHost fuel s.links (s.actions c.packet.slot) s.tables = .ok r)
    (hsound : Sound netToHost (s.access k c r)) : Exclusive netToHost (s.access k c r) := by
  have hfits := h.sound.fits k c busy
  have hknows := h.sound.knows k c busy
  have hfew := h.fewCall k c busy
  obtain ⟨hgo, hret⟩ := (h.rows k c busy).next hknows hfew hfits (h.renewed _) hnext
  have hconfig := config_update (BalanceCall.next_config hnext)
  refine ⟨hsound, fun slot => ?_, fun slot => ?_, fun u d hd => ?_, fun u d hd => ?_, ?_,
    fun p hp hashed => ?_⟩
  · show (Function.update s.actions c.packet.slot r.1 slot).loadBalanceInterfacesNum.toNat ≤ _
    rw [num_of_config (hconfig slot)]
    exact h.few slot
  · show (c.write _ s.tables).update slot ≠ 0xff
    unfold BalanceCall.write
    cases c.pc with
    | mark =>
        by_cases hslot : slot = c.packet.slot
        · subst hslot
          show Function.update s.tables.update _ 1 _ ≠ 0xff
          rw [Function.update_self]
          decide
        · show Function.update s.tables.update _ 1 _ ≠ 0xff
          rw [Function.update_of_ne hslot]
          exact h.renewed slot
    | select | check | update | clear | scan | load | put | count | test | index | fetch =>
        exact h.renewed slot
  · obtain ⟨-, hnew⟩ | ⟨-, hold⟩ := update_calls hd
    · obtain ⟨pc, -, rfl⟩ := access_call hnew
      exact hfew
    · exact h.fewCall u d hold
  · obtain ⟨-, hnew⟩ | ⟨hu, hold⟩ := update_calls hd
    · obtain ⟨pc, hpc, rfl⟩ := access_call hnew
      exact hgo pc hpc
    · have hrow := h.rows u d hold
      by_cases hslot : d.packet.slot = c.packet.slot
      · by_cases hin : d.pc.InTable
        · have hout : ¬c.pc.InTable := fun hc => hu (h.one u k d c hold busy hin hc hslot)
          show d.InRow netToHost (c.write _ s.tables)
          rwa [BalanceCall.write_out hout]
        · exact .out hin
      · exact hrow.congr ((h.rows k c busy).write_other hfew hfits hslot) (h.fewCall u d hold)
          (h.sound.fits u d hold)
  · -- a worker that has just come to the table was the only one that went there
    have hnew : ∀ u d pc, r.2 = .inl pc → pc.InTable → u ≠ k → s.calls u = some d →
        d.pc.InTable → c.packet.slot = d.packet.slot → False := by
      intro u d pc hpc hin hu hd hin' hslot
      obtain ⟨b, new⟩ := r
      obtain rfl : new = .inl pc := hpc
      obtain hat | hgoes := inTable_of_next hnext hin
      · exact hu (h.one k u c d busy hd hat hin' hslot).symm
      · exact alone hgoes u d hd hslot.symm hin'
    intro u v d d' hd hd' hin hin' hslot
    obtain ⟨rfl, hfirst⟩ | ⟨hu, hfirst⟩ := update_calls hd
    · obtain ⟨pc, hpc, rfl⟩ := access_call hfirst
      obtain ⟨rfl, -⟩ | ⟨hv, hsecond⟩ := update_calls hd'
      · rfl
      · exact (hnew v d' pc hpc hin hv hsecond hin' hslot).elim
    · obtain ⟨rfl, hsecond⟩ | ⟨-, hsecond⟩ := update_calls hd'
      · obtain ⟨pc, hpc, rfl⟩ := access_call hsecond
        exact (hnew u d pc hpc hin' hu hfirst hin hslot.symm).elim
      · exact h.one u v d d' hfirst hsecond hin hin' hslot
  · obtain hold | ⟨interfaceId, hgone, rfl⟩ := access_answers hp
    · exact h.answered p hold hashed
    · exact hret interfaceId hgone hashed

theorem Exclusive.step (h : Exclusive netToHost s) (alone : Alone s e)
    (hstep : BalanceStep netToHost s e s') : Exclusive netToHost s' := by
  have hsound := h.sound.step hstep
  cases hstep with
  | @put slot a few =>
      refine h.disturb (calls_put s slot a) rfl rfl hsound fun i => ?_
      show (Function.update s.actions slot a i).loadBalanceInterfacesNum.toNat ≤ _
      by_cases hi : i = slot
      · subst hi
        rwa [Function.update_self]
      · rw [Function.update_of_ne hi]
        exact h.few i
  | @selector slot a same =>
      refine ⟨hsound, fun i => ?_, h.renewed, h.fewCall, h.rows, h.one, h.answered⟩
      show (Function.update s.actions slot a i).loadBalanceInterfacesNum.toNat ≤ _
      rw [num_of_config (config_update same i)]
      exact h.few i
  | @link l => exact h.disturb (calls_setLinks s l) rfl rfl hsound h.few
  | @call k slot w idle =>
      refine ⟨hsound, h.few, h.renewed, fun u d hd => ?_, fun u d hd => ?_,
        fun u v d d' hd hd' hin hin' hslot => ?_, h.answered⟩
      · obtain ⟨-, hnew⟩ | ⟨-, hold⟩ := update_calls hd
        · cases hnew
          exact h.few slot
        · exact h.fewCall u d hold
      · obtain ⟨-, hnew⟩ | ⟨-, hold⟩ := update_calls hd
        · cases hnew
          trivial
        · exact h.rows u d hold
      · obtain ⟨-, hnew⟩ | ⟨-, hold⟩ := update_calls hd
        · cases hnew
          exact hin.elim
        · obtain ⟨-, hnew⟩ | ⟨-, hold'⟩ := update_calls hd'
          · cases hnew
            exact hin'.elim
          · exact h.one u v d d' hold hold' hin hin' hslot
  | access busy hnext => exact h.access busy (alone _ busy) hnext hsound

theorem Exclusive.run {links : Links} {es : List (BalanceEvent κ)}
    (h : Run (Along Alone (BalanceStep netToHost)) (BalanceNode.start links) es s) :
    Exclusive netToHost s :=
  h.invariant (.start links) fun _ _ _ hs hstep => hs.step hstep.1 hstep.2

end BalanceNode

/-! ## Every call returns -/

/-- How many accesses are left at most. -/
def BalanceCall.left (c : BalanceCall) : Nat :=
  match c.pc with
  | .select => 4 * c.interfaceNum + 9
  | .check _ => 4 * c.interfaceNum + 8
  | .update => 4 * c.interfaceNum + 7
  | .clear => 4 * c.interfaceNum + 6
  | .scan i => 4 * (c.interfaceNum - i) + 5
  | .load i => 4 * (c.interfaceNum - i) + 4
  | .put i _ => 4 * (c.interfaceNum - i) + 3
  | .count i _ => 4 * (c.interfaceNum - i) + 2
  | .mark => 4
  | .test => 3
  | .index => 2
  | .fetch _ => 1

/-- In a hash mode an access is always possible and brings the call nearer to its end. -/
theorem BalanceCall.next_less {l : Links} (hmode : IsHashMode a.loadBalanceMode)
    (fits : c.pc.Fits c.interfaceNum) : ∃ r, c.next netToHost 0 l a t = .ok r ∧
      0 < c.left ∧ ∀ pc, r.2 = .inl pc → { c with pc }.left < c.left := by
  unfold left
  cases hpc : c.pc with
  | select =>
      refine ⟨_, next_select hmode hpc, Nat.succ_pos _, fun pc hgo => ?_⟩
      cases hgo
      exact Nat.lt_succ_self _
  | check interfaceId =>
      refine ⟨_, next_check hmode hpc, Nat.succ_pos _, fun pc hgo => ?_⟩
      split_ifs at hgo
      cases hgo
      exact Nat.lt_succ_self _
  | index =>
      refine ⟨_, next_index hmode hpc, Nat.succ_pos _, fun pc hgo => ?_⟩
      cases hgo
      exact Nat.lt_succ_self _
  | update =>
      refine ⟨_, by simp only [next, hpc]; rfl, Nat.succ_pos _, fun pc hgo => ?_⟩
      split_ifs at hgo
      · cases hgo
        exact Nat.lt_succ_self _
      · cases hgo
        exact Nat.lt_of_lt_of_le (by decide : 3 < 7) (Nat.le_add_left ..)
  | clear =>
      refine ⟨_, by simp only [next, hpc]; rfl, Nat.succ_pos _, fun pc hgo => ?_⟩
      cases hgo
      exact Nat.lt_succ_self _
  | scan i =>
      refine ⟨_, by simp only [next, hpc]; rfl, Nat.succ_pos _, fun pc hgo => ?_⟩
      split_ifs at hgo with hlt hup
      · cases hgo
        exact Nat.lt_succ_self _
      · cases hgo
        show 4 * (c.interfaceNum - (i + 1)) + 5 < 4 * (c.interfaceNum - i) + 5
        omega
      · cases hgo
        exact Nat.lt_of_lt_of_le (Nat.lt_succ_self 4) (Nat.le_add_left ..)
  | load i | put i =>
      refine ⟨_, by simp only [next, hpc]; rfl, Nat.succ_pos _, fun pc hgo => ?_⟩
      cases hgo
      exact Nat.lt_succ_self _
  | count i num =>
      rw [hpc] at fits
      have hlt : i < c.interfaceNum := fits
      refine ⟨_, by simp only [next, hpc]; rfl, Nat.succ_pos _, fun pc hgo => ?_⟩
      cases hgo
      show 4 * (c.interfaceNum - (i + 1)) + 5 < 4 * (c.interfaceNum - i) + 2
      omega
  | mark =>
      refine ⟨_, by simp only [next, hpc]; rfl, Nat.succ_pos _, fun pc hgo => ?_⟩
      cases hgo
      exact Nat.lt_succ_self 3
  | test =>
      refine ⟨_, by simp only [next, hpc]; rfl, Nat.succ_pos _, fun pc hgo => ?_⟩
      split_ifs at hgo
      cases hgo
      exact Nat.lt_succ_self 2
  | fetch index =>
      refine ⟨_, by simp only [next, hpc]; rfl, Nat.succ_pos _, fun pc hgo => ?_⟩
      cases hgo

/-- A worker whose action is in a hash mode comes to the end of its call with its own accesses. -/
theorem BalanceNode.Sound.returns {κ : Type*} [DecidableEq κ] {s : BalanceNode κ} {k : κ} {d : Nat}
    (h : Sound netToHost s) (busy : s.calls k = some c)
    (hmode : IsHashMode (s.actions c.packet.slot).loadBalanceMode) (hd : c.left ≤ d) :
    ∃ n s', n ≤ d ∧ Run (BalanceStep netToHost) s (List.replicate n (.access k)) s' ∧
      s'.calls k = none := by
  induction d generalizing s c with
  | zero =>
      obtain ⟨-, -, hpos, -⟩ := @BalanceCall.next_less netToHost _ s.tables c s.links hmode
        (h.fits k c busy)
      omega
  | succ d ih =>
      obtain ⟨r, hnext, -, hless⟩ := @BalanceCall.next_less netToHost _ s.tables c s.links hmode
        (h.fits k c busy)
      have hstep : BalanceStep netToHost s (.access k) (s.access k c r) := .access busy hnext
      have hcall : (s.access k c r).calls k =
          r.2.elim (fun pc => some { c with pc }) fun _ => none := Function.update_self ..
      obtain ⟨b, pc | interfaceId⟩ := r
      · have hconfig := config_update (BalanceCall.next_config hnext) c.packet.slot
        have hmode' : IsHashMode
            ((s.access k c (b, .inl pc)).actions c.packet.slot).loadBalanceMode :=
          (mode_of_config hconfig).symm ▸ hmode
        obtain ⟨n, s', hn, hrun, hidle⟩ := ih (h.step hstep) hcall hmode'
          (Nat.le_of_lt_succ (Nat.lt_of_lt_of_le (hless pc rfl) hd))
        exact ⟨n + 1, s', Nat.succ_le_succ hn, .cons hstep hrun, hidle⟩
      · exact ⟨1, _, Nat.le_add_left 1 d, .cons hstep (.refl _), hcall⟩

/-! ## Flows -/

section Flows

variable {κ : Type*} [DecidableEq κ] {links : Links} {es : List (BalanceEvent κ)}
variable {s : BalanceNode κ} {p q : BalancePacket × Nat}

/-- A packet gets the interface that it would get from a call of its own. -/
theorem answer_atomic
    (h : Run (Along Alone (BalanceStep netToHost)) (BalanceNode.start links) es s)
    (hp : p ∈ s.answers) (hashed : p.1.Hashed) (fuel : Nat) {t : RealTable} (renewed : t.Renewed) :
    ∃ t', loadBalanceInterfaces netToHost fuel p.1.links p.1.w p.1.action t =
      .ok (p.1.action, t', p.2) := by
  rw [(BalanceNode.Exclusive.run h).answered p hp hashed]
  exact loadBalanceInterfaces_hashed hashed.2 renewed

/-- Whatever the workers do, a flow keeps its primary member as long as that is up. When no two
of them are at the table of one action at a time, packets of one flow get the same interface with
the same links, and so does the reply where both addresses count. -/
theorem hash_flow_stable (h : Run (BalanceStep netToHost) (BalanceNode.start links) es s)
    (hp : p ∈ s.answers) (hq : q ∈ s.answers) (hsteady : p.1.steady = true)
    (hsteady' : q.1.steady = true) (hsame : p.1.action.config = q.1.action.config)
    (hmode : IsHashMode p.1.action.loadBalanceMode) :
    (SameFlow p.1.action.loadBalanceMode p.1.w q.1.w →
      p.1.links.up (primaryMember netToHost p.1.action p.1.w) = true →
      q.1.links.up (primaryMember netToHost p.1.action p.1.w) = true → p.2 = q.2) ∧
    (Run (Along Alone (BalanceStep netToHost)) (BalanceNode.start links) es s →
      p.1.links.up = q.1.links.up →
      (SameFlow p.1.action.loadBalanceMode p.1.w q.1.w → p.2 = q.2) ∧
      (p.1.action.loadBalanceMode = LOAD_BALANCE_MODE_OUTER_SRCDSTIP →
        SameFlow p.1.action.loadBalanceMode p.1.w.reply q.1.w → p.2 = q.2)) := by
  have hashed : p.1.Hashed := ⟨hsteady, hmode⟩
  have hashed' : q.1.Hashed := ⟨hsteady', mode_of_config hsame ▸ hmode⟩
  have hmember (l : Links) (w : OuterWdata) :
      hashedMember netToHost l q.1.action w = hashedMember netToHost l p.1.action w := by
    rw [← hashedMember_config l q.1.action, ← hsame, hashedMember_config]
  have hprimary (w : OuterWdata) :
      primaryMember netToHost q.1.action w = primaryMember netToHost p.1.action w := by
    rw [← primaryMember_config q.1.action, ← hsame, primaryMember_config]
  constructor
  · intro hflow hup hup'
    have hflows : primaryMember netToHost q.1.action q.1.w =
        primaryMember netToHost p.1.action p.1.w := by
      rw [hprimary, primaryMember, primaryMember, hflow.hashOf_eq hmode]
    have hsound := BalanceNode.Sound.run h
    rw [hsound.answered p hp hashed hup, hsound.answered q hq hashed' (by rwa [hflows]), hflows]
  · intro halone hup
    have hexclusive := BalanceNode.Exclusive.run halone
    rw [hexclusive.answered p hp hashed, hexclusive.answered q hq hashed', hmember]
    constructor
    · exact fun hflow => hashedMember_congr hup (hflow.hashOf_eq hmode)
    · intro hboth hflow
      refine hashedMember_congr hup (Eq.trans ?_ (hflow.hashOf_eq hmode))
      rw [hboth]
      exact (hashOf_reply p.1.w).symm

end Flows

/-! ## Two workers -/

/-- Two members that are chosen by both addresses. -/
def hashedAction : Action :=
  { resetActionConfigStruct with
    type := ACTION_TYPE_LOAD_BALANCE_INTERFACES
    loadBalanceMode := LOAD_BALANCE_MODE_OUTER_SRCDSTIP
    loadBalanceInterfaceArray := [2, 7] ++ .replicate 61 0
    loadBalanceInterfacesNum := 2 }

/-- From 10.0.0.1 to 10.0.0.2. -/
def requestWdata : OuterWdata := ⟨4, ⟨0x0100000a, 0⟩, ⟨0x0200000a, 0⟩⟩

/-- Interface 7 is down. -/
def sevenDown : Links := ⟨fun _ => true, fun i => i ≠ 7⟩

/-- A packet of the action, while interface 7 is down. -/
def hashedPacket (w : OuterWdata) : BalancePacket := ⟨0, w, hashedAction, sevenDown, true⟩

namespace BalanceNode

/-- The event can happen, of those that are looked at here. -/
def Enabled (s : BalanceNode Bool) : BalanceEvent Bool → Prop
  | .put _ a => a.loadBalanceInterfacesNum.toNat ≤ MAX_INTERFACE_CNT
  | .call k _ _ => (s.calls k).isNone
  | .access k => ((s.calls k).bind fun c =>
      (c.next swapBytes 0 s.links (s.actions c.packet.slot) s.tables).toOption).isSome
  | _ => False

instance : (s : BalanceNode Bool) → (e : BalanceEvent Bool) → Decidable (s.Enabled e)
  | _, .put _ _ => inferInstanceAs (Decidable (_ ≤ _))
  | _, .call _ _ _ | _, .access _ => inferInstanceAs (Decidable (_ = true))
  | _, .selector _ _ | _, .link _ => inferInstanceAs (Decidable False)

def after (s : BalanceNode Bool) : BalanceEvent Bool → BalanceNode Bool
  | .put slot a => s.put slot a
  | .call k slot w => s.call k slot w
  | .access k =>
      match s.calls k with
      | none => s
      | some c =>
          match c.next swapBytes 0 s.links (s.actions c.packet.slot) s.tables with
          | .ok r => s.access k c r
          | .error _ => s
  | _ => s

theorem step_after {s : BalanceNode Bool} {e : BalanceEvent Bool} (h : s.Enabled e) :
    BalanceStep swapBytes s e (s.after e) := by
  cases e with
  | put slot a => exact .put h
  | call k slot w => exact .call (Option.isNone_iff_eq_none.mp h)
  | access k =>
      obtain ⟨r, hr⟩ := Option.isSome_iff_exists.mp h
      obtain ⟨c, hc, hr⟩ := Option.bind_eq_some_iff.mp hr
      simp only [after, hc]
      cases hnext : c.next swapBytes 0 s.links (s.actions c.packet.slot) s.tables with
      | error e =>
          rw [hnext] at hr
          cases hr
      | ok r => exact .access hc hnext
  | selector | link => exact h.elim

end BalanceNode

/-- No other worker is at a table. -/
def OthersOut (s : BalanceNode Bool) : BalanceEvent Bool → Prop
  | .access k => ∀ u, u ≠ k → ∀ d ∈ s.calls u, ¬d.pc.InTable
  | _ => True

instance : (s : BalanceNode Bool) → (e : BalanceEvent Bool) → Decidable (OthersOut s e)
  | s, .access k => inferInstanceAs (Decidable (∀ u, u ≠ k → ∀ d ∈ s.calls u, ¬d.pc.InTable))
  | _, .put .. | _, .selector .. | _, .link _ | _, .call .. => inferInstanceAs (Decidable True)

theorem OthersOut.alone {s : BalanceNode Bool} {e : BalanceEvent Bool} (h : OthersOut s e) :
    Alone s e := by
  cases e with
  | access k =>
      intro c hc hpc u d hd _
      by_cases hu : u = k
      · subst hu
        obtain rfl := Option.some.inj (hc.symm.trans hd)
        rw [hpc]
        exact id
      · exact h u hu d hd
  | put | selector | link | call => trivial

/-- A request and its reply on two workers, of which one has tested the member of its flow before
the other one goes to the table. -/
def replyEvents : List (BalanceEvent Bool) :=
  [.put 0 hashedAction, .call true 0 requestWdata, .call false 0 requestWdata.reply] ++
    .replicate 2 (.access false) ++ .replicate 14 (.access true) ++ .replicate 12 (.access false)

theorem hash_flow_stable_reply : ∃ (s : BalanceNode Bool) (p q : BalancePacket × Nat),
    Run (Along Alone (BalanceStep swapBytes)) (.start sevenDown) replyEvents s ∧
      p ∈ s.answers ∧ q ∈ s.answers ∧ p.1.w = requestWdata ∧ q.1.w = requestWdata.reply ∧
      p.2 = q.2 := by
  have halone : Run (Along Alone (BalanceStep swapBytes)) (.start sevenDown) replyEvents _ :=
    .of_checked (p := fun s e => OthersOut s e ∧ s.Enabled e)
      (fun _ _ h => ⟨h.1.alone, BalanceNode.step_after h.2⟩) (by decide +kernel)
  have hanswers : (replyEvents.foldl BalanceNode.after (.start sevenDown)).answers =
      [(hashedPacket requestWdata, 2), (hashedPacket requestWdata.reply, 2)] := rfl
  have hp : (hashedPacket requestWdata, 2) ∈
      (replyEvents.foldl BalanceNode.after (.start sevenDown)).answers := by simp [hanswers]
  have hq : (hashedPacket requestWdata.reply, 2) ∈
      (replyEvents.foldl BalanceNode.after (.start sevenDown)).answers := by simp [hanswers]
  have hstable := hash_flow_stable halone.of_along hp hq rfl rfl rfl (.inl rfl)
  exact ⟨_, _, _, halone, hp, hq, rfl, rfl,
    (hstable.2 halone rfl).2 rfl ⟨rfl, fun _ => rfl, fun _ => rfl⟩⟩

/-- A worker has filled the table of the action when another one begins to fill it again. Then it
comes with the same packet once more. -/
def racedEvents : List (BalanceEvent Bool) :=
  [.put 0 hashedAction, .call true 0 requestWdata, .call false 0 requestWdata.reply] ++
    .replicate 11 (.access true) ++ .replicate 4 (.access false) ++ [.access true] ++
    .replicate 10 (.access false) ++ [.call true 0 requestWdata] ++ .replicate 14 (.access true)

/-- The first packet has no interface, the same packet has one afterwards. -/
theorem hash_flow_raced : ∃ (s : BalanceNode Bool) (p q : BalancePacket × Nat),
    Run (BalanceStep swapBytes) (.start sevenDown) racedEvents s ∧ p ∈ s.answers ∧
      q ∈ s.answers ∧ p.1 = q.1 ∧ p.1.steady = true ∧ IsHashMode p.1.action.loadBalanceMode ∧
      p.2 = INVALID_INTERFACE_ID ∧ q.2 = 2 := by
  have hanswers : (racedEvents.foldl BalanceNode.after (.start sevenDown)).answers =
      [(hashedPacket requestWdata, 0), (hashedPacket requestWdata.reply, 2),
        (hashedPacket requestWdata, 2)] := rfl
  exact ⟨racedEvents.foldl BalanceNode.after (.start sevenDown), (hashedPacket requestWdata, 0),
    (hashedPacket requestWdata, 2),
    .of_checked (fun _ _ h => BalanceNode.step_after h) (by decide +kernel),
    by simp [hanswers], by simp [hanswers], rfl, rfl, .inl rfl, rfl, rfl⟩

end Tapplet.Actions
