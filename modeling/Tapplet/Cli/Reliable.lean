import Tapplet.Cli.Protocol

/-!
# Each command is executed once

Where the network is reliable in the sense of `ReliableNetwork`, which still loses and reorders, a
client with an open socket has at most one datagram under way, and it is of the call that the client
waits in. The numbers of the calls are not needed for this: no client ever reads a number other
than its own.
-/

namespace Tapplet.Cli

open Transition

variable {κ : Type}

namespace System

/-- The calls whose commands the server has or is going to get. -/
def commands (s : System κ) : Multiset (Call κ) :=
  s.requests.map Datagram.call +
    Multiset.ofList (s.serving.toList.map Serving.call ++ s.executed.map Executed.call)

end System

namespace System

variable {s s' : System κ}

theorem mem_underway_request {d : Datagram κ} (h : d ∈ s.requests) :
    (d.addr, d.call) ∈ s.underway :=
  Multiset.mem_add.mpr (.inl (Multiset.mem_map_of_mem _ h))

theorem mem_underway_reply {d : Datagram κ} (h : d ∈ s.replies) :
    (d.addr, d.call) ∈ s.underway :=
  Multiset.mem_add.mpr (.inr (Multiset.mem_add.mpr (.inr (Multiset.mem_map_of_mem _ h))))

/-- A request that the server takes, or that is lost, is under way no more but for the server. -/
theorem underway_request {d : Datagram κ} {rest : Multiset (Datagram κ)}
    (h : s.requests = d ::ₘ rest) :
    s.underway = (d.addr, d.call) ::ₘ { s with requests := rest }.underway := by
  simp only [underway, h, Multiset.map_cons, Multiset.cons_add]

theorem underway_reply {d : Datagram κ} {rest : Multiset (Datagram κ)}
    (h : s.replies = d ::ₘ rest) :
    s.underway = (d.addr, d.call) ::ₘ { s with replies := rest }.underway := by
  simp only [underway, h, Multiset.map_cons, Multiset.add_cons]

theorem commands_request {d : Datagram κ} {rest : Multiset (Datagram κ)}
    (h : s.requests = d ::ₘ rest) :
    s.commands = d.call ::ₘ { s with requests := rest }.commands := by
  simp only [commands, h, Multiset.map_cons, Multiset.cons_add]

end System

/-- An answer is the output of the call's own command. -/
def AnsweredItself (s : System κ) (call : Call κ) (count : Nat) (text : List UInt8) : Prop :=
  ∃ r ∈ s.sent, r.call = call ∧ ∃ e ∈ s.executed, e.call = call ∧ e.cmd = r.caller.cmd ∧
    text = shown r.caller.room e.output ∧ count = text.length

/-- What is under way to an open socket. -/
structure Own (s : System κ) : Prop where
  address : ∀ j k addr,
    (s.client j).socketFd = some addr → (s.client k).socketFd = some addr → j = k
  own : ∀ k addr, (s.client k).socketFd = some addr → ∀ p ∈ s.underway, p.1 = addr →
    p.2 = s.lastCall k ∧ (s.client k).waiting ≠ none
  underway : (s.underway.map Prod.snd).Nodup
  commands : s.commands.Nodup
  sent : (s.sent.map Sent.call).Nodup
  first : ∀ k w, (s.client k).waiting = some w → w.tryRecvTime = recvRetryTime
  answered : ∀ call count text, (call, .ok count text) ∈ s.returned →
    AnsweredItself s call count text

namespace Sound

/-- Every call that is under way or was executed has been sent. -/
theorem number_underway {s : System κ} (h : Sound s) : ∀ p ∈ s.underway,
    p.2.number ≤ (s.client p.2.client).calls := by
  have hasked : ∀ {addr call cmd}, Asked s addr call cmd →
      call.number ≤ (s.client call.client).calls := by
    rintro addr call cmd ⟨r, hr, -, rfl, -⟩
    exact h.number r hr
  intro p hp
  rw [System.underway, Multiset.mem_add, Multiset.mem_add] at hp
  rcases hp with hp | hp | hp
  · obtain ⟨d, hd, rfl⟩ := Multiset.mem_map.mp hp
    obtain ⟨cmd, hask, -⟩ := h.request d hd
    exact hasked hask
  · obtain ⟨v, hv, rfl⟩ := List.mem_map.mp (Multiset.mem_coe.mp hp)
    exact hasked (h.serving v (Option.mem_toList.mp hv)).1
  · obtain ⟨d, hd, rfl⟩ := Multiset.mem_map.mp hp
    obtain ⟨e, he, -, hcall, -⟩ := h.reply d hd
    rw [← hcall]
    exact hasked (h.executed e he)

theorem number_commands {s : System κ} (h : Sound s) : ∀ call ∈ s.commands,
    call.number ≤ (s.client call.client).calls := by
  intro call hcall
  rw [System.commands, Multiset.mem_add, Multiset.mem_coe, List.mem_append] at hcall
  rcases hcall with hcall | hcall | hcall
  · obtain ⟨d, hd, rfl⟩ := Multiset.mem_map.mp hcall
    exact h.number_underway _ (System.mem_underway_request hd)
  · obtain ⟨v, hv, rfl⟩ := List.mem_map.mp hcall
    obtain ⟨r, hr, -, hrcall, -⟩ := (h.serving v (Option.mem_toList.mp hv)).1
    rw [← hrcall]
    exact h.number r hr
  · obtain ⟨e, he, rfl⟩ := List.mem_map.mp hcall
    obtain ⟨r, hr, -, hrcall, -⟩ := h.executed e he
    rw [← hrcall]
    exact h.number r hr

end Sound

namespace Own

theorem initial (buf : κ → Buffer) : Own (initial buf) where
  address _ _ _ h := by cases h
  own _ _ h := by cases h
  underway := Multiset.nodup_zero
  commands := Multiset.nodup_zero
  sent := List.nodup_nil
  first _ _ h := by cases h
  answered _ _ _ h := by cases h

/-- Less is under way, and the clients are as they were. -/
theorem lessen {s s' : System κ} (h : Own s) (hclient : s'.client = s.client)
    (hunderway : s'.underway ≤ s.underway) (hcommands : s'.commands ≤ s.commands)
    (hsent : s'.sent = s.sent) (hexecuted : s.executed ⊆ s'.executed)
    (hreturned : s'.returned = s.returned) : Own s' where
  address := by
    rw [hclient]
    exact h.address
  own := by
    intro k addr hfd p hp haddr
    rw [hclient] at hfd
    obtain ⟨hcall, hwait⟩ := h.own k addr hfd p (Multiset.mem_of_le hunderway hp) haddr
    rw [System.lastCall, hclient]
    exact ⟨hcall, hwait⟩
  underway := Multiset.nodup_of_le (Multiset.map_le_map hunderway) h.underway
  commands := Multiset.nodup_of_le hcommands h.commands
  sent := by
    rw [hsent]
    exact h.sent
  first := by
    rw [hclient]
    exact h.first
  answered := by
    intro call count text hmem
    rw [hreturned] at hmem
    obtain ⟨r, hr, hcall, e, he, hrest⟩ := h.answered call count text hmem
    rw [← hsent] at hr
    exact ⟨r, hr, hcall, e, hexecuted he, hrest⟩

/-- Nothing is under way to a client once its reply is read. -/
theorem nothing_else {s : System κ} {k : κ} {d : Datagram κ} {rest : Multiset (Datagram κ)}
    (h : Own s) (hreplies : s.replies = d ::ₘ rest) (hfd : (s.client k).socketFd = some d.addr) :
    d.call = s.lastCall k ∧ ∀ p ∈ { s with replies := rest }.underway, p.1 ≠ d.addr := by
  have hsplit := System.underway_reply hreplies
  have hd : (d.addr, d.call) ∈ s.underway := System.mem_underway_reply (by simp [hreplies])
  obtain ⟨hcall, -⟩ := h.own k d.addr hfd _ hd rfl
  refine ⟨hcall, ?_⟩
  intro p hp haddr
  have hp' : p ∈ s.underway := by
    rw [hsplit]
    exact Multiset.mem_cons_of_mem hp
  obtain ⟨hpcall, -⟩ := h.own k d.addr hfd p hp' haddr
  have hnodup := h.underway
  rw [hsplit, Multiset.map_cons, Multiset.nodup_cons] at hnodup
  apply hnodup.1
  rw [hcall, ← hpcall]
  exact Multiset.mem_map_of_mem _ hp

theorem fails {s : System κ} (h : Own s) (call : Call κ) (code : Int) :
    Own { s with returned := s.returned ++ [(call, .fail code)] } := by
  refine { h with answered := ?_ }
  intro call' count text hmem
  rw [List.mem_append, List.mem_singleton] at hmem
  rcases hmem with hmem | hmem
  · exact h.answered call' count text hmem
  · cases hmem

variable [DecidableEq κ]

/-- `k` is not in a call any more, and its socket is closed or has nothing under way to it. -/
theorem setClient {s : System κ} {k : κ} {c : Client} (h : Own s)
    (hwaiting : c.waiting = none)
    (hfd : c.socketFd = none ∨ c.socketFd = (s.client k).socketFd ∧
      ∀ p ∈ s.underway, c.socketFd ≠ some p.1) : Own (s.setClient k c) := by
  have hold : ∀ {j addr}, ((s.setClient k c).client j).socketFd = some addr →
      (s.client j).socketFd = some addr := by
    intro j addr hj
    by_cases hjk : j = k
    · subst hjk
      simp only [System.setClient, Function.update_self] at hj
      rcases hfd with hnone | ⟨hsame, -⟩
      · rw [hnone] at hj
        cases hj
      · rwa [← hsame]
    · simpa [System.setClient, hjk] using hj
  refine { h with address := ?_, own := ?_, first := ?_ }
  · intro i j addr hi hj
    exact h.address i j addr (hold hi) (hold hj)
  · intro j addr hj p hp haddr
    by_cases hjk : j = k
    · subst hjk
      simp only [System.setClient, Function.update_self] at hj
      rcases hfd with hnone | ⟨-, hnot⟩
      · rw [hnone] at hj
        cases hj
      · exact absurd (haddr ▸ hj) (hnot p hp)
    · simpa [System.setClient, System.lastCall, hjk] using h.own j addr (hold hj) p hp haddr
  · intro j w hw
    by_cases hjk : j = k
    · subst hjk
      simp only [System.setClient, Function.update_self, hwaiting] at hw
      cases hw
    · simp only [System.setClient, Function.update_of_ne hjk] at hw
      exact h.first j w hw

theorem send {s : System κ} {k : κ} {caller : Caller} {addr : Nat} {bytes : List UInt8}
    {c : Client} (hsound : Sound s) (h : Own s) (hwait : (s.client k).waiting = none)
    (hfd : (s.client k).socketFd = some addr)
    (hsend : (s.client k).sendmsgtoserver caller = .ok (bytes, c)) :
    Own { s.setClient k c with
      requests := ⟨addr, bytes, ⟨k, c.calls⟩⟩ ::ₘ s.requests
      sent := s.sent ++ [⟨addr, caller, ⟨k, c.calls⟩⟩] } := by
  obtain ⟨-, -, rfl⟩ := Client.sendmsgtoserver_ok hsend
  have hnew : ∀ call : Call κ, call.number ≤ (s.client call.client).calls →
      call ≠ ⟨k, (s.client k).calls + 1⟩ := by
    rintro call hle rfl
    exact Nat.not_succ_le_self _ hle
  have hunderway : ∀ p ∈ s.underway, p.1 ≠ addr := by
    -- a client that is not in a call has nothing under way to its socket
    intro p hp haddr
    exact (h.own k addr hfd p hp haddr).2 hwait
  exact {
    address := by
      intro i j a hi hj
      apply h.address i j a
      · by_cases hik : i = k
        · subst hik
          simpa [System.setClient] using hi
        · simpa [System.setClient, hik] using hi
      · by_cases hjk : j = k
        · subst hjk
          simpa [System.setClient] using hj
        · simpa [System.setClient, hjk] using hj
    own := by
      intro j a hj p hp hpa
      simp only [System.underway, Multiset.map_cons, Multiset.cons_add] at hp
      rcases Multiset.mem_cons.mp hp with rfl | hp
      · have hjk : j = k := by
          by_contra hjk
          simp only [System.setClient, Function.update_of_ne hjk] at hj
          subst hpa
          exact hjk (h.address j k _ hj hfd)
        subst hjk
        simp [System.setClient, System.lastCall]
      · by_cases hjk : j = k
        · subst hjk
          simp only [System.setClient, Function.update_self, hfd, Option.some.injEq] at hj
          exact absurd (hpa.trans hj.symm) (hunderway p hp)
        · simp only [System.setClient, System.lastCall, Function.update_of_ne hjk] at hj ⊢
          exact h.own j a hj p hp hpa
    underway := by
      simp only [System.underway, Multiset.map_cons, Multiset.cons_add]
      rw [Multiset.nodup_cons]
      refine ⟨?_, h.underway⟩
      intro hmem
      obtain ⟨p, hp, hpcall⟩ := Multiset.mem_map.mp hmem
      exact hnew p.2 (hsound.number_underway p hp) hpcall
    commands := by
      simp only [System.commands, Multiset.map_cons, Multiset.cons_add]
      rw [Multiset.nodup_cons]
      refine ⟨?_, h.commands⟩
      intro hmem
      exact hnew _ (hsound.number_commands _ hmem) rfl
    sent := by
      rw [List.map_append, List.nodup_append]
      refine ⟨h.sent, List.nodup_singleton _, ?_⟩
      rintro call hcall _ hmem rfl
      obtain ⟨r, hr, rfl⟩ := List.mem_map.mp hcall
      exact hnew _ (hsound.number r hr) (List.mem_singleton.mp hmem)
    first := by
      intro j w hw
      by_cases hjk : j = k
      · subst hjk
        simp only [System.setClient, Function.update_self, Option.some.injEq] at hw
        rw [← hw]
      · simp only [System.setClient, Function.update_of_ne hjk] at hw
        exact h.first j w hw
    answered := by
      intro call count text hmem
      obtain ⟨r, hr, hrest⟩ := h.answered call count text hmem
      exact ⟨r, List.mem_append_left _ hr, hrest⟩ }

/-- A reply that is read ends the call that its reader is in. -/
theorem recv {s : System κ} {k : κ} {w : Waiting} {d : Datagram κ} {rest : Multiset (Datagram κ)}
    (hsound : Sound s) (h : Own s) (hwait : (s.client k).waiting = some w)
    (hreplies : s.replies = d ::ₘ rest) (hfd : (s.client k).socketFd = some d.addr) :
    Own { s.ends k ((s.client k).recvTurn w d.bytes).1 ((s.client k).recvTurn w d.bytes).2 with
      replies := rest } := by
  obtain ⟨hcall, hnothing⟩ := h.nothing_else hreplies hfd
  obtain ⟨e, he, -, hecall, hbytes⟩ := hsound.reply d (by simp [hreplies])
  have hseq : d.call.seq = (s.client k).sendSeqNumber := by
    rw [hcall, hsound.seq k]
  have hless : Own { s with replies := rest } := by
    refine h.lessen rfl ?_ le_rfl rfl (List.Subset.refl _) rfl
    rw [System.underway_reply hreplies]
    exact Multiset.le_cons_self _ _
  have hset : Own ({ s with replies := rest }.setClient k
      ((s.client k).recvTurn w d.bytes).1) := by
    rw [hbytes]
    rcases Client.recvTurn_own w e.output hseq with hturn | hturn
    · rw [hturn]
      refine hless.setClient rfl (.inr ⟨rfl, ?_⟩)
      intro p hp hsome
      rw [hfd, Option.some.injEq] at hsome
      exact hnothing p hp hsome.symm
    · rw [hturn]
      exact hless.setClient rfl (.inl rfl)
  refine { hset with answered := ?_ }
  intro call count text hmem
  rw [System.ends, List.mem_append] at hmem
  rcases hmem with hold | hnew
  · exact h.answered call count text hold
  cases hresult : ((s.client k).recvTurn w d.bytes).2 with
  | none => simp [hresult] at hnew
  | some result =>
      simp only [hresult, Option.map_some, Option.toList_some, List.mem_singleton,
        Prod.mk.injEq] at hnew
      obtain ⟨rfl, rfl⟩ := hnew
      rw [hbytes] at hresult
      obtain ⟨-, htext, hcount⟩ := Client.recvTurn_ok hresult
      obtain ⟨r, hr, -, hrcall, hrcaller⟩ := hsound.waiting k w hwait
      obtain ⟨q, hq, -, hqcall, hqcmd⟩ := hsound.executed e he
      have hsame : q = r := by
        apply List.inj_on_of_nodup_map h.sent hq hr
        rw [hqcall, hrcall, hecall, hcall]
      refine ⟨r, hr, hrcall, e, he, hecall.trans hcall, ?_, ?_, hcount⟩
      · rw [← hqcmd, hsame]
      · rw [hrcaller, htext]

theorem step {s s' : System κ} {e : Event κ} (hsound : Sound s) (h : Own s)
    (hnetwork : ReliableNetwork s e) (hs : Step s e s') : Own s' := by
  cases hs with
  | @«open» k addr hnone hfree =>
      have hfresh : ∀ p ∈ s.underway, p.1 ≠ addr := hnetwork
      refine { h with address := ?_, own := ?_, first := ?_ }
      · intro i j a hi hj
        by_cases hik : i = k <;> by_cases hjk : j = k
        · exact hik.trans hjk.symm
        · subst hik
          simp only [System.setClient, Function.update_self, Option.some.injEq,
            Function.update_of_ne hjk] at hi hj
          exact absurd (hi ▸ hj) (hfree j)
        · subst hjk
          simp only [System.setClient, Function.update_self, Option.some.injEq,
            Function.update_of_ne hik] at hi hj
          exact absurd (hj ▸ hi) (hfree i)
        · simp only [System.setClient, Function.update_of_ne hik,
            Function.update_of_ne hjk] at hi hj
          exact h.address i j a hi hj
      · intro j a hj p hp hpa
        by_cases hjk : j = k
        · subst hjk
          simp only [System.setClient, Function.update_self, Option.some.injEq] at hj
          exact absurd (hpa.trans hj.symm) (hfresh p hp)
        · simp only [System.setClient, System.lastCall, Function.update_of_ne hjk] at hj ⊢
          exact h.own j a hj p hp hpa
      · intro j w hw
        by_cases hjk : j = k
        · subst hjk
          simp only [System.setClient, Function.update_self] at hw
          exact h.first j w hw
        · simp only [System.setClient, Function.update_of_ne hjk] at hw
          exact h.first j w hw
  | send hwait hfd hsend => exact h.send hsound hwait hfd hsend
  | @sendFails k caller bytes c hwait hsend =>
      exact (h.setClient (c := c.close) rfl (.inl rfl)).fails _ _
  | refuse => exact h
  | @serve d rest hidle hrequests =>
      refine h.lessen rfl ?_ ?_ rfl (List.Subset.refl _) rfl
      · apply le_of_eq
        rw [System.underway_request hrequests]
        simp [System.underway, hidle, Multiset.add_cons]
      · apply le_of_eq
        rw [System.commands_request hrequests]
        simp [System.commands, hidle, ← Multiset.cons_coe, Multiset.add_cons]
  | @output v buffer hv =>
      refine h.lessen rfl ?_ ?_ rfl (List.Subset.refl _) rfl
      · simp [System.underway, hv]
      · simp [System.commands, hv]
  | @reply v hv =>
      refine h.lessen rfl ?_ ?_ rfl (List.subset_append_left _ _) rfl
      · simp [System.underway, hv]
      · have hperm : (s.executed.map Executed.call ++ [v.call]).Perm
            (v.call :: s.executed.map Executed.call) := List.perm_append_singleton _ _
        apply le_of_eq
        simp only [System.commands, hv, Option.toList_none, Option.toList_some, List.map_nil,
          List.nil_append, List.map_append, List.map_cons, List.singleton_append]
        rw [Multiset.coe_eq_coe.mpr hperm]
  | @recv k w d rest hwait hreplies hfd => exact h.recv hsound hwait hreplies hfd
  | @timeout k w hwait =>
      exact (h.setClient (c := Client.close _) rfl (.inl rfl)).fails _ _
  | @loseRequest d rest hrequests =>
      refine h.lessen rfl ?_ ?_ rfl (List.Subset.refl _) rfl
      · rw [System.underway_request hrequests]
        exact Multiset.le_cons_self _ _
      · rw [System.commands_request hrequests]
        exact Multiset.le_cons_self _ _
  | @loseReply d rest hreplies =>
      refine h.lessen rfl ?_ le_rfl rfl (List.Subset.refl _) rfl
      rw [System.underway_reply hreplies]
      exact Multiset.le_cons_self _ _
  | copyRequest => exact hnetwork.elim
  | copyReply => exact hnetwork.elim

end Own

/-- Along a reliable network a command is executed at most once, an answer is the output of the
call's own command, and no client has read a number other than its own. -/
theorem reliable_answer [DecidableEq κ] {buf : κ → Buffer} {events : List (Event κ)}
    {s : System κ} (run : Run (Along ReliableNetwork Step) (initial buf) events s) :
    (s.serving.toList.map Serving.call ++ s.executed.map Executed.call).Nodup ∧
      (∀ call count text, (call, .ok count text) ∈ s.returned →
        AnsweredItself s call count text) ∧
      ∀ k w, (s.client k).waiting = some w → w.tryRecvTime = recvRetryTime := by
  have h : Sound s ∧ Own s := by
    apply run.invariant (I := fun s => Sound s ∧ Own s) ⟨.initial buf, .initial buf⟩
    rintro s e s' ⟨hsound, hown⟩ ⟨hnetwork, hs⟩
    exact ⟨hsound.step hs, hown.step hsound hnetwork hs⟩
  refine ⟨?_, h.2.answered, h.2.first⟩
  exact Multiset.coe_nodup.mp (Multiset.nodup_of_le (Multiset.le_add_left _ _) h.2.commands)

/-- `ls`, sent first, is executed last. The reply to `sh` comes after its process has closed the
socket; the process asks again from a new address while that reply is under way. -/
def reliableEvents : List (Event Bool) :=
  [.open false 7, .open true 8, .send true (.rest [108, 115] 2048),
    .send false (.rest [115, 104] 2048), .serve, .output [49], .reply, .timeout false,
    .serve, .output [50], .reply, .recv true,
    .open false 9, .send false (.rest [115, 104] 2048), .lose, .serve, .output [51], .reply,
    .recv false]

theorem run_reliable : ∃ s : System Bool,
    Run (Along ReliableNetwork Step) (initial fun _ _ => 0) reliableEvents s ∧
      (⟨true, 1⟩, .ok 2 [50, 0]) ∈ s.returned ∧ (⟨false, 2⟩, .ok 2 [51, 0]) ∈ s.returned := by
  apply Exists.intro
  apply And.intro
  · apply Run.cons
    · exact .intro (fun p hp => by cases hp) (.open rfl fun j h => by cases h)
    apply Run.cons
    · exact .intro (fun p hp => by cases hp) (.open rfl fun j h => by cases j <;> cases h)
    apply Run.cons ⟨trivial, @Step.send Bool _ _ true (.rest [108, 115] 2048) 8 _ _ rfl rfl rfl⟩
    apply Run.cons ⟨trivial, @Step.send Bool _ _ false (.rest [115, 104] 2048) 7 _ _ rfl rfl rfl⟩
    apply Run.cons ⟨trivial, @Step.serve Bool _ _ (requestOf 7 ⟨false, 1⟩ [115, 104])
      {requestOf 8 ⟨true, 1⟩ [108, 115]} rfl rfl⟩
    apply Run.cons ⟨trivial, @Step.output Bool _ _ _ [49] rfl⟩
    apply Run.cons ⟨trivial, @Step.reply Bool _ _ _ rfl⟩
    apply Run.cons ⟨trivial, @Step.timeout Bool _ _ false _ rfl⟩
    apply Run.cons ⟨trivial, @Step.serve Bool _ _ (requestOf 8 ⟨true, 1⟩ [108, 115]) 0 rfl rfl⟩
    apply Run.cons ⟨trivial, @Step.output Bool _ _ _ [50] rfl⟩
    apply Run.cons ⟨trivial, @Step.reply Bool _ _ _ rfl⟩
    apply Run.cons ⟨trivial, @Step.recv Bool _ _ true _ _ {replyOf 7 ⟨false, 1⟩ [49]}
      rfl rfl rfl⟩
    apply Run.cons
    · apply And.intro
      · intro p hp
        have h : p = (7, ⟨false, 1⟩) := Multiset.mem_singleton.mp hp
        simp [h]
      · exact .open rfl fun j h => by cases j <;> cases h
    apply Run.cons ⟨trivial, @Step.send Bool _ _ false (.rest [115, 104] 2048) 9 _ _ rfl rfl rfl⟩
    apply Run.cons ⟨trivial, @Step.loseReply Bool _ _ (replyOf 7 ⟨false, 1⟩ [49]) 0 rfl⟩
    apply Run.cons ⟨trivial, @Step.serve Bool _ _ (requestOf 9 ⟨false, 2⟩ [115, 104]) 0 rfl rfl⟩
    apply Run.cons ⟨trivial, @Step.output Bool _ _ _ [51] rfl⟩
    apply Run.cons ⟨trivial, @Step.reply Bool _ _ _ rfl⟩
    apply Run.cons ⟨trivial, @Step.recv Bool _ _ false _ _ 0 rfl rfl rfl⟩
    exact .refl _
  · exact ⟨@List.mem_of_getElem? _ _ 1 _ rfl, @List.mem_of_getElem? _ _ 2 _ rfl⟩

theorem reliable_answer_reordered : ∃ s : System Bool,
    Run (Along ReliableNetwork Step) (initial fun _ _ => 0) reliableEvents s ∧
      (s.serving.toList.map Serving.call ++ s.executed.map Executed.call).Nodup ∧
      AnsweredItself s ⟨true, 1⟩ 2 [50, 0] ∧ AnsweredItself s ⟨false, 2⟩ 2 [51, 0] := by
  obtain ⟨s, run, htrue, hfalse⟩ := run_reliable
  obtain ⟨hnodup, hanswer, -⟩ := reliable_answer run
  exact ⟨s, run, hnodup, hanswer _ _ _ htrue, hanswer _ _ _ hfalse⟩

end Tapplet.Cli
