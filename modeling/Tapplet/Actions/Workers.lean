import Tapplet.Actions.Hashed
import Tapplet.Lib.Run

/-!
# Load balancing on several workers

The tables of the members that are up are static arrays of the node, and every worker fills and
reads them without a lock. A worker does one access to them at a time; in between come the other
workers, changes of the links and changes of the store, in any order. `Alone` says of a step that
no two workers are at the table of one action.
-/

namespace Tapplet.Actions

open Fallible Transition

/-! ## One worker -/

/-- `interface_update_load_balance`, `interface_num_real_load_balance` and
`interface_array_real_load_balance`, by the slots of the actions: the slot of an action is its id
less 1. The rows of the last array lie one behind the other. -/
structure RealTables where
  update : Nat → UInt16
  num : Nat → UInt16
  array : Nat → UInt16

def RealTables.zero : RealTables := ⟨fun _ => 0, fun _ => 0, fun _ => 0⟩

/-- Where the row of a slot has its place `i`. -/
def rowPlace (slot i : Nat) : Nat := slot * MAX_INTERFACE_CNT + i

/-- What a worker does next in `load_balance_interfaces`. In the loop over the members it tests
one (`scan`), reads the number of those found so far (`load`), puts this one behind them (`put`)
and stores the new number (`count`). -/
inductive BalancePc where
  | select
  | check (interfaceId : UInt8)
  | update
  | clear
  | scan (i : Nat)
  | load (i : Nat)
  | put (i : Nat) (num : UInt16)
  | count (i : Nat) (num : UInt16)
  | mark
  | test
  | index
  | fetch (index : Nat)

/-- A packet of an action, with what is not in the source: the action and the links at the start
of the call, and whether neither has been changed since. -/
structure BalancePacket where
  slot : Nat
  w : OuterWdata
  action : Action
  links : Links
  steady : Bool

/-- A call of `load_balance_interfaces`. -/
structure BalanceCall where
  packet : BalancePacket
  interfaceNum : Nat
  pc : BalancePc

namespace BalanceCall

/-- What the next access writes to the tables. -/
def write (a : Action) (t : RealTables) (c : BalanceCall) : RealTables :=
  let slot := c.packet.slot
  match c.pc with
  | .clear => { t with num := Function.update t.num slot 0 }
  | .put i num =>
      { t with
        array := Function.update t.array (rowPlace slot num.toNat) (.ofNat (a.member i).toNat) }
  | .count _ num => { t with num := Function.update t.num slot (num + 1) }
  | .mark => { t with update := Function.update t.update slot 1 }
  | _ => t

/-- What the selector leaves of the action, and where the call goes on, or what it returns. -/
def next (netToHost : UInt64 → UInt64) (fuel : Nat) (l : Links) (a : Action) (t : RealTables)
    (c : BalanceCall) : Except Stop (Action × (BalancePc ⊕ Nat)) :=
  let data := fillLoadBalanceData netToHost c.packet.w
  let slot := c.packet.slot
  match c.pc with
  | .select => do
      let r ← actionGetLoadBalanceIndex fuel a data c.interfaceNum
      .ok (r.1, .inl (.check (r.1.member r.2)))
  | .check interfaceId =>
      if l.up interfaceId then .ok (a, .inr interfaceId.toNat)
      else if a.loadBalanceMode = LOAD_BALANCE_MODE_ROUND_ROBIN ∨
          a.loadBalanceMode = LOAD_BALANCE_MODE_WRR then do
        let r ← selectUp fuel l data c.interfaceNum MAX_LOAD_BALANCE_NODE a
        .ok (r.1, .inr r.2)
      else .ok (a, .inl .update)
  | .update => .ok (a, .inl (if t.update slot ≠ 0xff then .clear else .test))
  | .clear => .ok (a, .inl (.scan 0))
  | .scan i =>
      .ok (a, .inl (if i < c.interfaceNum then
        if l.up (a.member i) then .load i else .scan (i + 1)
      else .mark))
  | .load i => .ok (a, .inl (.put i (t.num slot)))
  | .put i num => .ok (a, .inl (.count i num))
  | .count i _ => .ok (a, .inl (.scan (i + 1)))
  | .mark => .ok (a, .inl .test)
  | .test => .ok (a, if t.num slot = 0 then .inr INVALID_INTERFACE_ID else .inl .index)
  | .index => do
      let r ← actionGetLoadBalanceIndex fuel a data (t.num slot).toNat
      .ok (r.1, .inl (.fetch r.2))
  | .fetch index => .ok (a, .inr (t.array (rowPlace slot index)).toNat)

end BalanceCall

/-! ## All workers -/

variable {κ : Type*}

/-- The store, the links and the node with the calls that the workers are in. `answers` is not in
the source: the packets that have been forwarded, with their interfaces. -/
structure BalanceNode (κ : Type*) where
  actions : Nat → Action
  links : Links
  tables : RealTables
  calls : κ → Option BalanceCall
  answers : List (BalancePacket × Nat)

namespace BalanceNode

def start (links : Links) : BalanceNode κ :=
  ⟨fun _ => resetActionConfigStruct, links, .zero, fun _ => none, []⟩

/-- The calls, when something that these packets depend on is changed. -/
def disturb (calls : κ → Option BalanceCall) (changed : BalancePacket → Bool) (k : κ) :
    Option BalanceCall :=
  (calls k).map fun c =>
    { c with packet := { c.packet with steady := c.packet.steady && !changed c.packet } }

/-- `put_action_config` -/
def put (s : BalanceNode κ) (slot : Nat) (a : Action) : BalanceNode κ :=
  { s with
    actions := Function.update s.actions slot a
    calls := disturb s.calls fun p => p.slot = slot }

def setLinks (s : BalanceNode κ) (l : Links) : BalanceNode κ :=
  { s with links := l, calls := disturb s.calls fun _ => true }

/-- A worker begins with a packet. -/
def call [DecidableEq κ] (s : BalanceNode κ) (k : κ) (slot : Nat) (w : OuterWdata) :
    BalanceNode κ :=
  let a := s.actions slot
  { s with
    calls := Function.update s.calls k
      (some ⟨⟨slot, w, a, s.links, true⟩, a.loadBalanceInterfacesNum.toNat, .select⟩) }

/-- A worker has done an access. -/
def access [DecidableEq κ] (s : BalanceNode κ) (k : κ) (c : BalanceCall)
    (r : Action × (BalancePc ⊕ Nat)) : BalanceNode κ :=
  { s with
    actions := Function.update s.actions c.packet.slot r.1
    tables := c.write (s.actions c.packet.slot) s.tables
    calls := Function.update s.calls k (r.2.elim (fun pc => some { c with pc }) fun _ => none)
    answers := s.answers ++ r.2.elim (fun _ => []) fun interfaceId => [(c.packet, interfaceId)] }

end BalanceNode

inductive BalanceEvent (κ : Type*) where
  | put (slot : Nat) (a : Action)
  | selector (slot : Nat) (a : Action)
  | link (l : Links)
  | call (k : κ) (slot : Nat) (w : OuterWdata)
  | access (k : κ)

/-- An action with at most as many members as there are interfaces is stored, the links change, or
a worker begins with a packet or does its next access. Workers whose packets turn the selector of
one action at the same time may leave it in any state. -/
inductive BalanceStep [DecidableEq κ] (netToHost : UInt64 → UInt64) :
    BalanceNode κ → BalanceEvent κ → BalanceNode κ → Prop where
  | put {s slot a} (few : a.loadBalanceInterfacesNum.toNat ≤ MAX_INTERFACE_CNT) :
      BalanceStep netToHost s (.put slot a) (s.put slot a)
  | selector {s slot a} (same : a.config = (s.actions slot).config) :
      BalanceStep netToHost s (.selector slot a)
        { s with actions := Function.update s.actions slot a }
  | link {s l} : BalanceStep netToHost s (.link l) (s.setLinks l)
  | call {s k slot w} (idle : s.calls k = none) :
      BalanceStep netToHost s (.call k slot w) (s.call k slot w)
  | access {s k c fuel r} (busy : s.calls k = some c)
      (next : c.next netToHost fuel s.links (s.actions c.packet.slot) s.tables = .ok r) :
      BalanceStep netToHost s (.access k) (s.access k c r)

/-- The call is between its first write to the table of its action and its last read. -/
def BalancePc.InTable : BalancePc → Prop
  | .select | .check _ | .update => False
  | _ => True

instance : (pc : BalancePc) → Decidable pc.InTable
  | .select | .check _ | .update => isFalse id
  | .clear | .scan _ | .load _ | .put .. | .count .. | .mark | .test | .index | .fetch _ =>
      isTrue trivial

/-- A worker goes to the table of an action when no other worker is there. -/
def Alone (s : BalanceNode κ) : BalanceEvent κ → Prop
  | .access k => ∀ c, s.calls k = some c → c.pc = .update →
      ∀ u d, s.calls u = some d → d.packet.slot = c.packet.slot → ¬d.pc.InTable
  | _ => True

/-! ## What one access does -/

variable {netToHost : UInt64 → UInt64} {fuel : Nat} {l : Links} {a : Action} {t t' : RealTables}
variable {c : BalanceCall} {r : Action × (BalancePc ⊕ Nat)}

/-- A packet of a hash mode during whose call nothing that it depends on has changed. -/
def BalancePacket.Hashed (p : BalancePacket) : Prop :=
  p.steady = true ∧ IsHashMode p.action.loadBalanceMode

/-- The index of a member that is tested is one of the members. -/
def BalancePc.Fits (num : Nat) : BalancePc → Prop
  | .load i | .put i _ | .count i _ => i < num
  | _ => True

namespace BalanceCall

theorem next_config (h : c.next netToHost fuel l a t = .ok r) : r.1.config = a.config := by
  cases hpc : c.pc with
  | select | index =>
      simp only [next, hpc] at h
      obtain ⟨s, hs, h⟩ := bind_ok h
      cases h
      exact actionGetLoadBalanceIndex_config hs
  | check interfaceId =>
      simp only [next, hpc] at h
      split_ifs at h
      · cases h
        rfl
      · obtain ⟨s, hs, h⟩ := bind_ok h
        have hstep (b : Action) (r : Action × Nat) (hb : b.config = a.config)
            (hr : actionGetLoadBalanceIndex fuel b (fillLoadBalanceData netToHost c.packet.w)
              c.interfaceNum = .ok r) : r.1.config = a.config :=
          (actionGetLoadBalanceIndex_config hr).trans hb
        have hloop := selectUp_induct hstep rfl hs
        cases h
        exact hloop
      · cases h
        rfl
  | update | clear | scan | load | put | count | mark | test | fetch =>
      simp only [next, hpc] at h
      cases h
      rfl

theorem next_fits {b : Action} {pc : BalancePc}
    (h : c.next netToHost fuel l a t = .ok (b, .inl pc)) (fits : c.pc.Fits c.interfaceNum) :
    pc.Fits c.interfaceNum := by
  cases hpc : c.pc with
  | select | index =>
      simp only [next, hpc] at h
      obtain ⟨s, -, h⟩ := bind_ok h
      cases h
      trivial
  | check interfaceId =>
      simp only [next, hpc] at h
      split at h
      next => cases h
      next =>
        split at h
        next =>
          obtain ⟨s, -, h⟩ := bind_ok h
          cases h
        next =>
          cases h
          trivial
  | scan i =>
      simp only [next, hpc] at h
      split_ifs at h with hlt hup
      · cases h
        exact hlt
      · cases h
        trivial
      · cases h
        trivial
  | update =>
      simp only [next, hpc] at h
      split_ifs at h
      · cases h
        trivial
      · cases h
        trivial
  | test =>
      simp only [next, hpc] at h
      split at h
      next => cases h
      next =>
        cases h
        trivial
  | load | put =>
      rw [hpc] at fits
      simp only [next, hpc] at h
      cases h
      exact fits
  | clear | count | mark =>
      simp only [next, hpc] at h
      cases h
      trivial
  | fetch =>
      simp only [next, hpc] at h
      cases h

variable (hmode : IsHashMode a.loadBalanceMode)
include hmode

theorem next_select (hpc : c.pc = .select) :
    c.next netToHost fuel l a t = .ok (a, .inl (.check (a.member (hashIndex
      (hashOf a.loadBalanceMode (fillLoadBalanceData netToHost c.packet.w)) c.interfaceNum)))) := by
  simp only [next, hpc]
  exact bind_of_ok (actionGetLoadBalanceIndex_hashed hmode _ _) _

theorem next_check {interfaceId : UInt8} (hpc : c.pc = .check interfaceId) :
    c.next netToHost fuel l a t =
      .ok (a, if l.up interfaceId then .inr interfaceId.toNat else .inl .update) := by
  have hretry : ¬(a.loadBalanceMode = LOAD_BALANCE_MODE_ROUND_ROBIN ∨
      a.loadBalanceMode = LOAD_BALANCE_MODE_WRR) := by
    obtain h | h | h := hmode <;> rw [h] <;> decide
  simp only [next, hpc, if_neg hretry]
  split <;> rfl

theorem next_index (hpc : c.pc = .index) :
    c.next netToHost fuel l a t = .ok (a, .inl (.fetch (hashIndex
      (hashOf a.loadBalanceMode (fillLoadBalanceData netToHost c.packet.w))
      (t.num c.packet.slot).toNat))) := by
  simp only [next, hpc]
  exact bind_of_ok (actionGetLoadBalanceIndex_hashed hmode _ _) _

end BalanceCall

/-! ## What a packet knows of its flow -/

/-- The member that has been tested is the one of the flow, and is down when the call goes on. -/
def BalanceCall.Past (netToHost : UInt64 → UInt64) (c : BalanceCall) : Prop :=
  match c.pc with
  | .select => True
  | .check interfaceId => interfaceId = primaryMember netToHost c.packet.action c.packet.w
  | _ => c.packet.links.up (primaryMember netToHost c.packet.action c.packet.w) = false

/-- What holds of a call as long as nothing that it depends on has changed. -/
structure BalanceCall.Knows (netToHost : UInt64 → UInt64) (s : BalanceNode κ) (c : BalanceCall) :
    Prop where
  links : s.links = c.packet.links
  action : (s.actions c.packet.slot).config = c.packet.action.config
  num : c.interfaceNum = c.packet.action.loadBalanceInterfacesNum.toNat
  past : c.Past netToHost

namespace BalanceCall.Knows

variable {s s' : BalanceNode κ}

theorem congr (h : c.Knows netToHost s) (hlinks : s'.links = s.links)
    (hconfig : (s'.actions c.packet.slot).config = (s.actions c.packet.slot).config) :
    c.Knows netToHost s' where
  links := hlinks.trans h.links
  action := hconfig.trans h.action
  num := h.num
  past := h.past

theorem mode (h : c.Knows netToHost s) (hashed : c.packet.Hashed) :
    IsHashMode (s.actions c.packet.slot).loadBalanceMode :=
  (mode_of_config h.action).symm ▸ hashed.2

/-- An access: the call goes on to what it knows, or returns the primary member if that is up. -/
theorem next (h : c.Knows netToHost s) (hashed : c.packet.Hashed)
    (hnext : c.next netToHost fuel s.links (s.actions c.packet.slot) s.tables = .ok r) :
    (∀ pc, r.2 = .inl pc → { c with pc }.Past netToHost) ∧
      ∀ interfaceId, r.2 = .inr interfaceId →
        c.packet.links.up (primaryMember netToHost c.packet.action c.packet.w) = true →
        interfaceId = (primaryMember netToHost c.packet.action c.packet.w).toNat := by
  have hpast := h.past
  rw [Past] at hpast
  cases hpc : c.pc with
  | select =>
      rw [next_select (h.mode hashed) hpc, mode_of_config h.action, member_of_config h.action,
        h.num] at hnext
      cases hnext
      refine ⟨fun pc hgo => ?_, nofun⟩
      cases hgo
      exact rfl
  | check interfaceId =>
      rw [hpc] at hpast
      rw [next_check (h.mode hashed) hpc, h.links, hpast] at hnext
      cases hnext
      cases hup : c.packet.links.up (primaryMember netToHost c.packet.action c.packet.w) with
      | true =>
          refine ⟨nofun, fun interfaceId hret _ => ?_⟩
          exact (Sum.inr.inj hret).symm
      | false =>
          refine ⟨fun pc hgo => ?_, nofun⟩
          cases hgo
          exact hup
  | index =>
      rw [hpc] at hpast
      rw [next_index (h.mode hashed) hpc] at hnext
      cases hnext
      refine ⟨fun pc hgo => ?_, nofun⟩
      cases hgo
      exact hpast
  | update =>
      rw [hpc] at hpast
      simp only [BalanceCall.next, hpc] at hnext
      cases hnext
      refine ⟨fun pc hgo => ?_, nofun⟩
      split_ifs at hgo <;> cases hgo <;> exact hpast
  | scan i =>
      rw [hpc] at hpast
      simp only [BalanceCall.next, hpc] at hnext
      cases hnext
      refine ⟨fun pc hgo => ?_, nofun⟩
      split_ifs at hgo <;> cases hgo <;> exact hpast
  | test =>
      rw [hpc] at hpast
      simp only [BalanceCall.next, hpc] at hnext
      cases hnext
      refine ⟨fun pc hgo => ?_, fun interfaceId _ hup => ?_⟩
      · split_ifs at hgo
        cases hgo
        exact hpast
      · exact absurd (hpast.symm.trans hup) Bool.false_ne_true
  | fetch =>
      rw [hpc] at hpast
      simp only [BalanceCall.next, hpc] at hnext
      cases hnext
      exact ⟨nofun, fun interfaceId _ hup => absurd (hpast.symm.trans hup) Bool.false_ne_true⟩
  | clear | load | put | count | mark =>
      rw [hpc] at hpast
      simp only [BalanceCall.next, hpc] at hnext
      cases hnext
      refine ⟨fun pc hgo => ?_, nofun⟩
      cases hgo
      exact hpast

end BalanceCall.Knows

namespace BalanceNode

@[simp] theorem calls_put (s : BalanceNode κ) (slot : Nat) (a : Action) :
    (s.put slot a).calls = disturb s.calls fun p => p.slot = slot := rfl

@[simp] theorem calls_setLinks (s : BalanceNode κ) (l : Links) :
    (s.setLinks l).calls = disturb s.calls fun _ => true := rfl

theorem disturb_calls {calls : κ → Option BalanceCall} {changed : BalancePacket → Bool} {k : κ}
    (h : disturb calls changed k = some c) : ∃ d, calls k = some d ∧ c =
      { d with packet := { d.packet with steady := d.packet.steady && !changed d.packet } } := by
  obtain ⟨d, hd, rfl⟩ := Option.map_eq_some_iff.mp h
  exact ⟨d, hd, rfl⟩

theorem config_update {s : BalanceNode κ} {slot : Nat} {a : Action}
    (same : a.config = (s.actions slot).config) (i : Nat) :
    (Function.update s.actions slot a i).config = (s.actions i).config := by
  by_cases hi : i = slot
  · subst hi
    rwa [Function.update_self]
  · rw [Function.update_of_ne hi]

/-- What holds of the calls and answers in every run. -/
structure Sound (netToHost : UInt64 → UInt64) (s : BalanceNode κ) : Prop where
  fits : ∀ k c, s.calls k = some c → c.pc.Fits c.interfaceNum
  knows : ∀ k c, s.calls k = some c → c.packet.Hashed → c.Knows netToHost s
  answered : ∀ p ∈ s.answers, p.1.Hashed →
    p.1.links.up (primaryMember netToHost p.1.action p.1.w) = true →
    p.2 = (primaryMember netToHost p.1.action p.1.w).toNat

theorem Sound.start (links : Links) : Sound netToHost (start links : BalanceNode κ) :=
  ⟨fun _ _ h => (Option.some_ne_none _ h.symm).elim,
    fun _ _ h => (Option.some_ne_none _ h.symm).elim, fun _ h => absurd h List.not_mem_nil⟩

variable [DecidableEq κ] {s s' : BalanceNode κ} {e : BalanceEvent κ}

theorem update_calls {calls : κ → Option BalanceCall} {k u : κ} {new : Option BalanceCall}
    (h : Function.update calls k new u = some c) :
    u = k ∧ new = some c ∨ u ≠ k ∧ calls u = some c := by
  by_cases hu : u = k
  · subst hu
    rw [Function.update_self] at h
    exact .inl ⟨rfl, h⟩
  · rw [Function.update_of_ne hu] at h
    exact .inr ⟨hu, h⟩

/-- The call of a worker after its access. -/
theorem access_call {new : BalancePc ⊕ Nat} {d : BalanceCall}
    (h : new.elim (fun pc => some { c with pc }) (fun _ => none) = some d) :
    ∃ pc, new = .inl pc ∧ d = { c with pc } := by
  cases new with
  | inl pc => exact ⟨pc, rfl, (Option.some.inj h).symm⟩
  | inr interfaceId => cases h

theorem access_answers {new : BalancePc ⊕ Nat} {p : BalancePacket × Nat}
    {answers : List (BalancePacket × Nat)}
    (h : p ∈ answers ++ new.elim (fun _ => []) fun interfaceId => [(c.packet, interfaceId)]) :
    p ∈ answers ∨ ∃ interfaceId, new = .inr interfaceId ∧ p = (c.packet, interfaceId) := by
  obtain hold | hnew := List.mem_append.mp h
  · exact .inl hold
  · cases new with
    | inl pc => cases hnew
    | inr interfaceId => exact .inr ⟨interfaceId, rfl, List.mem_singleton.mp hnew⟩

theorem Sound.step (h : Sound netToHost s) (hstep : BalanceStep netToHost s e s') :
    Sound netToHost s' := by
  cases hstep with
  | @put slot a few =>
      refine ⟨fun k c hc => ?_, fun k c hc hashed => ?_, h.answered⟩
      · rw [calls_put] at hc
        obtain ⟨d, hd, rfl⟩ := disturb_calls hc
        exact h.fits k d hd
      · rw [calls_put] at hc
        obtain ⟨d, hd, rfl⟩ := disturb_calls hc
        obtain ⟨hsteady, hother⟩ := Bool.and_eq_true_iff.mp hashed.1
        have hne : d.packet.slot ≠ slot := by simpa using hother
        have hknows := h.knows k d hd ⟨hsteady, hashed.2⟩
        have hsame : Function.update s.actions slot a d.packet.slot = s.actions d.packet.slot :=
          Function.update_of_ne hne ..
        exact ⟨hknows.links, (congrArg Action.config hsame).trans hknows.action, hknows.num,
          hknows.past⟩
  | @selector slot a same =>
      exact ⟨h.fits, fun k c hc hashed =>
        (h.knows k c hc hashed).congr rfl (config_update same _), h.answered⟩
  | link =>
      refine ⟨fun k c hc => ?_, fun k c hc hashed => ?_, h.answered⟩
      · rw [calls_setLinks] at hc
        obtain ⟨d, hd, rfl⟩ := disturb_calls hc
        exact h.fits k d hd
      · rw [calls_setLinks] at hc
        obtain ⟨d, hd, rfl⟩ := disturb_calls hc
        exact absurd (Bool.and_eq_true_iff.mp hashed.1).2 Bool.false_ne_true
  | call idle =>
      refine ⟨fun u c hc => ?_, fun u c hc hashed => ?_, h.answered⟩
      · obtain ⟨-, hnew⟩ | ⟨-, hold⟩ := update_calls hc
        · cases hnew
          trivial
        · exact h.fits u c hold
      · obtain ⟨-, hnew⟩ | ⟨-, hold⟩ := update_calls hc
        · cases hnew
          exact ⟨rfl, rfl, rfl, trivial⟩
        · exact (h.knows u c hold hashed).congr rfl rfl
  | @access k c fuel r busy hnext =>
      have hconfig := config_update (BalanceCall.next_config hnext)
      refine ⟨fun u d hd => ?_, fun u d hd hashed => ?_, fun p hp hashed hup => ?_⟩
      · obtain ⟨-, hnew⟩ | ⟨-, hold⟩ := update_calls hd
        · obtain ⟨pc, hgo, rfl⟩ := access_call hnew
          obtain ⟨b, new⟩ := r
          change new = _ at hgo
          obtain rfl := hgo
          have hfits := BalanceCall.next_fits hnext (h.fits k c busy)
          exact hfits
        · exact h.fits u d hold
      · obtain ⟨-, hnew⟩ | ⟨-, hold⟩ := update_calls hd
        · obtain ⟨pc, hpc, rfl⟩ := access_call hnew
          have hknows := h.knows k c busy hashed
          have hpast := (hknows.next hashed hnext).1 pc hpc
          have hafter : c.Knows netToHost (s.access k c r) := hknows.congr rfl (hconfig _)
          exact ⟨hafter.links, hafter.action, hafter.num, hpast⟩
        · exact (h.knows u d hold hashed).congr rfl (hconfig _)
      · obtain hold | ⟨interfaceId, hret, rfl⟩ := access_answers hp
        · exact h.answered p hold hashed hup
        · exact ((h.knows k c busy hashed).next hashed hnext).2 interfaceId hret hup

theorem Sound.run {links : Links} {es : List (BalanceEvent κ)}
    (h : Run (BalanceStep netToHost) (BalanceNode.start links) es s) : Sound netToHost s :=
  h.invariant (.start links) fun _ _ _ hs hstep => hs.step hstep

end BalanceNode

end Tapplet.Actions
