import Mathlib.Data.Multiset.Basic
import Mathlib.Data.Multiset.AddSub
import Mathlib.Data.Multiset.MapFold
import Mathlib.Tactic.Common
import Tapplet.Cli.Udp
import Tapplet.Lib.Run

/-!
# Clients of the cli over UDP

Any number of processes send commands to the cli of the data plane and wait for the output. A
client does not send a command twice: when no reply comes it closes its socket, so that what is
still under way to it is dropped.

The network loses, reorders and copies datagrams, and may give a new socket the address of one that
was closed. An answer then is the output of some command that was sent from this address under this
number (`answer_output`). Where datagrams are not copied, and an address is not given again while
datagrams from it are under way, a command is executed at most once and its answer is its own
output (`reliable_answer`).
-/

namespace Tapplet.Cli

open Transition

/-- A call of `sendmsgtoserver_rest` that sends: the process,
and how many it made up to this one. -/
@[ext] structure Call (κ : Type) where
  client : κ
  number : Nat

variable {κ : Type}

/-- The number that goes with the call. -/
def Call.seq (call : Call κ) : UInt32 := UInt32.ofNat call.number

/-- The reply to a command that wrote this output. -/
def replyBytes (call : Call κ) (output : List UInt8) : List UInt8 :=
  (seqBytes call.seq ++ output).take (serverSendbufLen - 1)

/-- The receive loop: who waits, and the turns that are left. -/
structure Waiting where
  caller : Caller
  tryRecvTime : Nat

/-- A process that loads the client library. `calls` is how many of its calls have sent, which
the code does not count beyond 32 bits. -/
structure Client where
  socketFd : Option Nat
  sendCmdBuf : Buffer
  sendSeqNumber : UInt32
  waiting : Option Waiting
  calls : Nat

/-- What a call returns: the bytes in `retbuf` and how many, or the code of a failure. -/
inductive Result where
  | ok (count : Nat) (text : List UInt8)
  | fail (code : Int)

namespace Client

/-- `sendmsgtoserver_rest` up to `sendto`. -/
def sendmsgtoserver (c : Client) (caller : Caller) : Except Int (List UInt8 × Client) :=
  match c.socketFd with
  | none => .error internalError
  | some _ =>
    if udpSendBufMaxLen - 4 - 1 < caller.cmd.length then .error cmdTooLong
    else
      let seq := c.sendSeqNumber + 1
      .ok (caller.datagram c.sendCmdBuf seq,
        { c with
          sendCmdBuf := caller.sendCmdBuf c.sendCmdBuf seq
          sendSeqNumber := seq
          waiting := some ⟨caller, recvRetryTime⟩
          calls := c.calls + 1 })

/-- The socket is closed and the call has failed. -/
def close (c : Client) : Client := { c with socketFd := none, waiting := none }

/-- One turn of the receive loop, in which `recvfrom` gets a datagram. -/
def recvTurn (c : Client) (w : Waiting) (bytes : List UInt8) : Client × Option Result :=
  let udpRecvBuf := bytes.take w.caller.room
  let count := udpRecvBuf.length
  if 4 ≤ count then
    if seqOf udpRecvBuf = c.sendSeqNumber then
      ({ c with waiting := none }, some (.ok (count + 1 - 4) ((udpRecvBuf ++ [0]).drop 4)))
    else if w.tryRecvTime ≤ 1 then
      ({ c with waiting := none }, some (.fail recvfromFail))
    else
      ({ c with waiting := some { w with tryRecvTime := w.tryRecvTime - 1 } }, none)
  else (c.close, some (.fail recvfromFail))

theorem sendmsgtoserver_ok {c c' : Client} {caller : Caller} {bytes : List UInt8}
    (h : c.sendmsgtoserver caller = .ok (bytes, c')) :
    caller.cmd.length ≤ udpSendBufMaxLen - 4 - 1 ∧
      bytes = seqBytes (c.sendSeqNumber + 1) ++ caller.cmd ∧
      c' = { c with
        sendCmdBuf := caller.sendCmdBuf c.sendCmdBuf (c.sendSeqNumber + 1)
        sendSeqNumber := c.sendSeqNumber + 1
        waiting := some ⟨caller, recvRetryTime⟩
        calls := c.calls + 1 } := by
  unfold sendmsgtoserver at h
  split at h
  · cases h
  · split at h
    · cases h
    next hshort =>
      cases h
      exact ⟨Nat.not_lt.mp hshort, Caller.datagram_eq _ _ _, rfl⟩

@[simp] theorem close_calls (c : Client) : c.close.calls = c.calls := rfl

@[simp] theorem close_sendSeqNumber (c : Client) : c.close.sendSeqNumber = c.sendSeqNumber := rfl

/-- A turn ends the call, with or without the socket, or leaves one turn less. -/
theorem recvTurn_cases (c : Client) (w : Waiting) (bytes : List UInt8) :
    (4 ≤ (bytes.take w.caller.room).length ∧
        seqOf (bytes.take w.caller.room) = c.sendSeqNumber ∧
        c.recvTurn w bytes = ({ c with waiting := none },
          some (.ok ((bytes.take w.caller.room).length + 1 - 4)
            ((bytes.take w.caller.room ++ [0]).drop 4)))) ∨
      (4 ≤ (bytes.take w.caller.room).length ∧
        seqOf (bytes.take w.caller.room) ≠ c.sendSeqNumber ∧
        (c.recvTurn w bytes = ({ c with waiting := none }, some (.fail recvfromFail)) ∨
          c.recvTurn w bytes =
            ({ c with waiting := some { w with tryRecvTime := w.tryRecvTime - 1 } }, none))) ∨
      c.recvTurn w bytes = (c.close, some (.fail recvfromFail)) := by
  unfold recvTurn
  by_cases hlen : 4 ≤ (bytes.take w.caller.room).length
  · by_cases hseq : seqOf (bytes.take w.caller.room) = c.sendSeqNumber
    · exact .inl ⟨hlen, hseq, by simp only [if_pos hlen, if_pos hseq]⟩
    · refine .inr (.inl ⟨hlen, hseq, ?_⟩)
      by_cases hlast : w.tryRecvTime ≤ 1
      · exact .inl (by simp only [if_pos hlen, if_neg hseq, if_pos hlast])
      · exact .inr (by simp only [if_pos hlen, if_neg hseq, if_neg hlast])
  · exact .inr (.inr (by simp only [if_neg hlen]))

/-- The call that a client is in does not change in a turn, nor does its number. -/
theorem recvTurn_seq (c : Client) (w : Waiting) (bytes : List UInt8) :
    (c.recvTurn w bytes).1.sendSeqNumber = c.sendSeqNumber ∧
      (c.recvTurn w bytes).1.calls = c.calls := by
  rcases recvTurn_cases c w bytes with ⟨-, -, h⟩ | ⟨-, -, h | h⟩ | h <;> rw [h] <;> exact ⟨rfl, rfl⟩

/-- Who still waits after a turn has its socket, and is in the same call. -/
theorem recvTurn_waiting {c : Client} {w w' : Waiting} {bytes : List UInt8}
    (h : (c.recvTurn w bytes).1.waiting = some w') :
    (c.recvTurn w bytes).1.socketFd = c.socketFd ∧ w'.caller = w.caller := by
  rcases recvTurn_cases c w bytes with ⟨-, -, hc⟩ | ⟨-, -, hc | hc⟩ | hc <;>
    rw [hc] at h ⊢ <;> cases h
  exact ⟨rfl, rfl⟩

/-- Where there is room for the number, it is read from the reply. -/
theorem seqOf_reply {w : Waiting} {call : Call κ} {output : List UInt8}
    (h : 4 ≤ ((replyBytes call output).take w.caller.room).length) :
    (replyBytes call output).take w.caller.room
        = seqBytes call.seq ++ output.take (w.caller.room - 4) ∧
      seqOf ((replyBytes call output).take w.caller.room) = call.seq := by
  have hroom : 4 ≤ w.caller.room := h.trans (by simp)
  have hbuf := recvBuf_reply call.seq output hroom w.caller.room_le
  refine ⟨hbuf, ?_⟩
  rw [replyBytes, hbuf, seqOf_append]

/-- A turn that ends the call with a text has read the number of the call. -/
theorem recvTurn_ok {c : Client} {w : Waiting} {call : Call κ} {output text : List UInt8}
    {count : Nat} (h : (c.recvTurn w (replyBytes call output)).2 = some (.ok count text)) :
    call.seq = c.sendSeqNumber ∧ text = shown w.caller.room output ∧ count = text.length := by
  rcases recvTurn_cases c w (replyBytes call output) with
    ⟨hlen, hseq, hc⟩ | ⟨-, -, hc | hc⟩ | hc <;> rw [hc] at h <;> cases h
  obtain ⟨hbuf, hnumber⟩ := seqOf_reply hlen
  refine ⟨hnumber.symm.trans hseq, ?_, ?_⟩
  · rw [hbuf, List.append_assoc, List.drop_left' (seqBytes_length _), shown]
  · simp

/-- The reply to the call itself ends the call. -/
theorem recvTurn_own {c : Client} (w : Waiting) {call : Call κ} (output : List UInt8)
    (h : call.seq = c.sendSeqNumber) :
    (c.recvTurn w (replyBytes call output)).1 = { c with waiting := none } ∨
      (c.recvTurn w (replyBytes call output)).1 = c.close := by
  rcases recvTurn_cases c w (replyBytes call output) with ⟨-, -, hc⟩ | ⟨hlen, hseq, -⟩ | hc
  · exact .inl (congrArg Prod.fst hc)
  · exact absurd ((seqOf_reply hlen).2.trans h) hseq
  · exact .inr (congrArg Prod.fst hc)

end Client

/-- A datagram to or from a client's address, with the call that it belongs to. -/
structure Datagram (κ : Type) where
  addr : Nat
  bytes : List UInt8
  call : Call κ

/-- The request that `sf_cli_serv_process` works on, and the output of its command so far. -/
structure Serving (κ : Type) where
  addr : Nat
  cmd : List UInt8
  sendbuf : List UInt8
  call : Call κ
  output : List UInt8

/-- A call and the address that it was sent from. -/
structure Sent (κ : Type) where
  addr : Nat
  caller : Caller
  call : Call κ

/-- A command that `vlib_cli_input` is done with, and what it wrote. -/
structure Executed (κ : Type) where
  addr : Nat
  cmd : List UInt8
  output : List UInt8
  call : Call κ

/-- The clients, the server, and the datagrams between them. The last three fields record what
happened. -/
structure System (κ : Type) where
  client : κ → Client
  requests : Multiset (Datagram κ)
  serving : Option (Serving κ)
  replies : Multiset (Datagram κ)
  sent : List (Sent κ)
  executed : List (Executed κ)
  returned : List (Call κ × Result)

inductive Event (κ : Type) where
  | open (k : κ) (addr : Nat)
  | send (k : κ) (caller : Caller)
  | sendFails (k : κ) (caller : Caller)
  | refuse (k : κ) (caller : Caller) (code : Int)
  | serve
  | output (buffer : List UInt8)
  | reply
  | recv (k : κ)
  | timeout (k : κ)
  | lose
  | copy

/-- The call that `k` is in or has made last. -/
def System.lastCall (s : System κ) (k : κ) : Call κ := ⟨k, (s.client k).calls⟩

section Steps

variable [DecidableEq κ]

namespace System

def setClient (s : System κ) (k : κ) (c : Client) : System κ :=
  { s with client := Function.update s.client k c }

/-- The call of `k` ends. -/
def ends (s : System κ) (k : κ) (c : Client) (result : Option Result) : System κ :=
  { s.setClient k c with
    returned := s.returned ++ (result.map fun r => (s.lastCall k, r)).toList }

end System

/-- What can happen. The clients, the server and the network take turns in any order. -/
inductive Step : System κ → Event κ → System κ → Prop where
  | open {s k addr} :
      (s.client k).socketFd = none → (∀ j, (s.client j).socketFd ≠ some addr) →
      Step s (.open k addr) (s.setClient k { s.client k with socketFd := some addr })
  | send {s k caller addr bytes c} :
      (s.client k).waiting = none → (s.client k).socketFd = some addr →
      (s.client k).sendmsgtoserver caller = .ok (bytes, c) →
      Step s (.send k caller)
        { s.setClient k c with
          requests := ⟨addr, bytes, ⟨k, c.calls⟩⟩ ::ₘ s.requests
          sent := s.sent ++ [⟨addr, caller, ⟨k, c.calls⟩⟩] }
  | sendFails {s k caller bytes c} :
      (s.client k).waiting = none →
      (s.client k).sendmsgtoserver caller = .ok (bytes, c) →
      Step s (.sendFails k caller)
        { s.setClient k c.close with
          returned := s.returned ++ [(⟨k, c.calls⟩, .fail internalError)] }
  | refuse {s k caller code} :
      (s.client k).waiting = none →
      (s.client k).sendmsgtoserver caller = .error code →
      Step s (.refuse k caller code) s
  | serve {s d rest} :
      s.serving = none → s.requests = d ::ₘ rest →
      Step s .serve
        { s with
          requests := rest
          serving := some
            { addr := d.addr
              cmd := (handleUdpCliRequest (d.bytes.take serverRecvbufLen)).1
              sendbuf := (handleUdpCliRequest (d.bytes.take serverRecvbufLen)).2
              call := d.call
              output := [] } }
  | output {s v buffer} :
      s.serving = some v →
      Step s (.output buffer)
        { s with
          serving := some
            { v with
              sendbuf := sfUdpCliOutput v.sendbuf buffer
              output := v.output ++ buffer } }
  | reply {s v} :
      s.serving = some v →
      Step s .reply
        { s with
          serving := none
          replies := ⟨v.addr, v.sendbuf, v.call⟩ ::ₘ s.replies
          executed := s.executed ++ [⟨v.addr, v.cmd, v.output, v.call⟩] }
  | recv {s k w d rest} :
      (s.client k).waiting = some w → s.replies = d ::ₘ rest →
      (s.client k).socketFd = some d.addr →
      Step s (.recv k)
        { s.ends k ((s.client k).recvTurn w d.bytes).1 ((s.client k).recvTurn w d.bytes).2 with
          replies := rest }
  | timeout {s k w} :
      (s.client k).waiting = some w →
      Step s (.timeout k) (s.ends k (s.client k).close (some (.fail recvfromFail)))
  | loseRequest {s d rest} :
      s.requests = d ::ₘ rest → Step s .lose { s with requests := rest }
  | loseReply {s d rest} :
      s.replies = d ::ₘ rest → Step s .lose { s with replies := rest }
  | copyRequest {s d} :
      d ∈ s.requests → Step s .copy { s with requests := d ::ₘ s.requests }
  | copyReply {s d} :
      d ∈ s.replies → Step s .copy { s with replies := d ::ₘ s.replies }

end Steps

/-- The datagrams under way, and the request that the server works on: where the reply goes, and
the call. -/
def System.underway (s : System κ) : Multiset (Nat × Call κ) :=
  s.requests.map (fun d => (d.addr, d.call)) +
    (Multiset.ofList (s.serving.toList.map fun v => (v.addr, v.call)) +
      s.replies.map fun d => (d.addr, d.call))

/-- The network copies nothing, and an address is given again when nothing under way names it. -/
def ReliableNetwork (s : System κ) : Event κ → Prop
  | .open _ addr => ∀ p ∈ s.underway, p.1 ≠ addr
  | .copy => False
  | _ => True

/-- Before the first call. -/
def Client.start (buf : Buffer) : Client where
  socketFd := none
  sendCmdBuf := buf
  sendSeqNumber := 0
  waiting := none
  calls := 0

def initial (buf : κ → Buffer) : System κ where
  client k := .start (buf k)
  requests := 0
  serving := none
  replies := 0
  sent := []
  executed := []
  returned := []

/-! ## What an answer is -/

/-- The call was sent from the address with this command. -/
def Asked (s : System κ) (addr : Nat) (call : Call κ) (cmd : List UInt8) : Prop :=
  ∃ r ∈ s.sent, r.addr = addr ∧ r.call = call ∧ r.caller.cmd = cmd

/-- The text is what a client has room for of the output of a command, whose number and address
are those of the call. -/
def Answered (s : System κ) (call : Call κ) (count : Nat) (text : List UInt8) : Prop :=
  ∃ r ∈ s.sent, r.call = call ∧ ∃ e ∈ s.executed, e.addr = r.addr ∧ e.call.seq = call.seq ∧
    text = shown r.caller.room e.output ∧ count = text.length

theorem Asked.mono {s s' : System κ} {addr : Nat} {call : Call κ} {cmd : List UInt8}
    (h : Asked s addr call cmd) (hsent : s.sent ⊆ s'.sent) : Asked s' addr call cmd := by
  obtain ⟨r, hr, hrest⟩ := h
  exact ⟨r, hsent hr, hrest⟩

theorem Answered.mono {s s' : System κ} {call : Call κ} {count : Nat} {text : List UInt8}
    (h : Answered s call count text) (hsent : s.sent ⊆ s'.sent)
    (hexecuted : s.executed ⊆ s'.executed) : Answered s' call count text := by
  obtain ⟨r, hr, hcall, e, he, hrest⟩ := h
  exact ⟨r, hsent hr, hcall, e, hexecuted he, hrest⟩

/-- What every state has. -/
structure Sound (s : System κ) : Prop where
  seq : ∀ k, (s.client k).sendSeqNumber = (s.lastCall k).seq
  number : ∀ r ∈ s.sent, r.call.number ≤ (s.client r.call.client).calls
  short : ∀ r ∈ s.sent, r.caller.cmd.length ≤ udpSendBufMaxLen - 4 - 1
  request : ∀ d ∈ s.requests, ∃ cmd,
    Asked s d.addr d.call cmd ∧ d.bytes = seqBytes d.call.seq ++ cmd
  serving : ∀ v ∈ s.serving,
    Asked s v.addr v.call v.cmd ∧ v.sendbuf = replyBytes v.call v.output
  executed : ∀ e ∈ s.executed, Asked s e.addr e.call e.cmd
  reply : ∀ d ∈ s.replies, ∃ e ∈ s.executed,
    e.addr = d.addr ∧ e.call = d.call ∧ d.bytes = replyBytes d.call e.output
  waiting : ∀ k w, (s.client k).waiting = some w →
    ∃ r ∈ s.sent, (s.client k).socketFd = some r.addr ∧ r.call = s.lastCall k ∧
      r.caller = w.caller
  answered : ∀ call count text, (call, .ok count text) ∈ s.returned → Answered s call count text

namespace Sound

theorem initial (buf : κ → Buffer) : Sound (initial buf) where
  seq _ := rfl
  number _ h := by cases h
  short _ h := by cases h
  request _ h := by cases h
  serving _ h := by cases h
  executed _ h := by cases h
  reply _ h := by cases h
  waiting _ _ h := by cases h
  answered _ _ _ h := by cases h

theorem seq_succ {s : System κ} (h : Sound s) (k : κ) :
    (s.client k).sendSeqNumber + 1 = (⟨k, (s.client k).calls + 1⟩ : Call κ).seq := by
  rw [h.seq k]
  simp [Call.seq, System.lastCall]

/-- A failure is returned. -/
theorem fails {s : System κ} (h : Sound s) (call : Call κ) (code : Int) :
    Sound { s with returned := s.returned ++ [(call, .fail code)] } := by
  refine { h with answered := ?_ }
  intro call' count text hmem
  rw [List.mem_append, List.mem_singleton] at hmem
  rcases hmem with hmem | hmem
  · exact h.answered call' count text hmem
  · cases hmem

/-- The server takes the request apart into what the client put into it. -/
theorem serve {s : System κ} {d : Datagram κ} {rest : Multiset (Datagram κ)} (h : Sound s)
    (hrequests : s.requests = d ::ₘ rest) :
    ∃ cmd, Asked s d.addr d.call cmd ∧
      handleUdpCliRequest (d.bytes.take serverRecvbufLen) = (cmd, seqBytes d.call.seq) := by
  obtain ⟨cmd, hasked, hbytes⟩ := h.request d (by simp [hrequests])
  obtain ⟨r, hr, -, -, hcmd⟩ := id hasked
  have hshort := h.short r hr
  rw [hcmd] at hshort
  rw [hbytes]
  exact ⟨cmd, hasked, handleUdpCliRequest_datagram _ hshort⟩

variable [DecidableEq κ]

/-- `k` goes on to a later call or stays in its own; the other clients are as they were. -/
theorem setClient {s : System κ} {k : κ} {c : Client} (h : Sound s)
    (hcalls : (s.client k).calls ≤ c.calls)
    (hseq : c.sendSeqNumber = (⟨k, c.calls⟩ : Call κ).seq)
    (hwaiting : ∀ w, c.waiting = some w → c.calls = (s.client k).calls ∧
      ∃ v, (s.client k).waiting = some v ∧ w.caller = v.caller ∧
        c.socketFd = (s.client k).socketFd) :
    Sound (s.setClient k c) := by
  refine { h with seq := ?_, number := ?_, waiting := ?_ }
  · intro j
    by_cases hj : j = k
    · subst hj
      simpa [System.setClient, System.lastCall] using hseq
    · simpa [System.setClient, System.lastCall, hj] using h.seq j
  · intro r hr
    have hle := h.number r hr
    by_cases hj : r.call.client = k
    · rw [hj] at hle
      simpa [System.setClient, hj] using hle.trans hcalls
    · simpa [System.setClient, hj] using hle
  · intro j w hw
    by_cases hj : j = k
    · subst hj
      simp only [System.setClient, Function.update_self] at hw
      obtain ⟨hsame, v, hv, hcaller, hfd⟩ := hwaiting w hw
      obtain ⟨r, hr, hrfd, hrcall, hrcaller⟩ := h.waiting j v hv
      refine ⟨r, hr, ?_, ?_, hrcaller.trans hcaller.symm⟩
      · simpa [System.setClient, hfd] using hrfd
      · simpa [System.setClient, System.lastCall, hsame] using hrcall
    · simp only [System.setClient, Function.update_of_ne hj] at hw
      obtain ⟨r, hr, hrest⟩ := h.waiting j w hw
      exact ⟨r, hr, by simpa [System.setClient, System.lastCall, hj] using hrest⟩

/-- A call ends, or goes on. -/
theorem ends {s : System κ} {k : κ} {c : Client} {result : Option Result} (h : Sound s)
    (hcalls : (s.client k).calls = c.calls)
    (hseq : c.sendSeqNumber = (s.client k).sendSeqNumber)
    (hwaiting : ∀ w, c.waiting = some w →
      ∃ v, (s.client k).waiting = some v ∧ w.caller = v.caller ∧
        c.socketFd = (s.client k).socketFd)
    (hresult : ∀ count text, result = some (.ok count text) →
      Answered s (s.lastCall k) count text) :
    Sound (s.ends k c result) := by
  have hnumber : c.sendSeqNumber = (⟨k, c.calls⟩ : Call κ).seq := by
    rw [hseq, h.seq k, System.lastCall, hcalls]
  refine { h.setClient hcalls.le hnumber fun w hw => ⟨hcalls.symm, hwaiting w hw⟩ with
    answered := ?_ }
  intro call count text hmem
  rw [System.ends, List.mem_append] at hmem
  cases hmem with
  | inl hold => exact h.answered call count text hold
  | inr hnew =>
      cases hr : result with
      | none => simp [hr] at hnew
      | some r =>
          simp only [hr, Option.map_some, Option.toList_some, List.mem_singleton,
            Prod.mk.injEq] at hnew
          obtain ⟨rfl, rfl⟩ := hnew
          exact hresult count text hr

/-- A call that is sent has the next number, which no earlier call has. -/
theorem send {s : System κ} {k : κ} {caller : Caller} {addr : Nat} {bytes : List UInt8}
    {c : Client} (h : Sound s) (hfd : (s.client k).socketFd = some addr)
    (hsend : (s.client k).sendmsgtoserver caller = .ok (bytes, c)) :
    Sound { s.setClient k c with
      requests := ⟨addr, bytes, ⟨k, c.calls⟩⟩ ::ₘ s.requests
      sent := s.sent ++ [⟨addr, caller, ⟨k, c.calls⟩⟩] } := by
  obtain ⟨hshort, rfl, rfl⟩ := Client.sendmsgtoserver_ok hsend
  have hseq := h.seq_succ k
  have hsent : s.sent ⊆ s.sent ++ [⟨addr, caller, ⟨k, (s.client k).calls + 1⟩⟩] :=
    List.subset_append_left _ _
  exact {
    seq := by
      intro j
      by_cases hj : j = k
      · subst hj
        simpa [System.setClient, System.lastCall] using hseq
      · simpa [System.setClient, System.lastCall, hj] using h.seq j
    number := by
      intro r hr
      rw [List.mem_append, List.mem_singleton] at hr
      rcases hr with hr | rfl
      · have hle := h.number r hr
        by_cases hj : r.call.client = k
        · rw [hj] at hle
          simpa [System.setClient, hj] using Nat.le_succ_of_le hle
        · simpa [System.setClient, hj] using hle
      · simp [System.setClient]
    short := by
      intro r hr
      rw [List.mem_append, List.mem_singleton] at hr
      rcases hr with hr | rfl
      · exact h.short r hr
      · exact hshort
    request := by
      intro d hd
      rw [Multiset.mem_cons] at hd
      rcases hd with rfl | hd
      · refine ⟨caller.cmd,
          ⟨_, List.mem_append_right _ (List.mem_singleton_self _), rfl, rfl, rfl⟩, ?_⟩
        rw [hseq]
      · obtain ⟨cmd, hasked, hbytes⟩ := h.request d hd
        exact ⟨cmd, hasked.mono hsent, hbytes⟩
    serving := fun v hv => ⟨(h.serving v hv).1.mono hsent, (h.serving v hv).2⟩
    executed := fun e he => (h.executed e he).mono hsent
    reply := h.reply
    waiting := by
      intro j w hw
      by_cases hj : j = k
      · subst hj
        simp only [System.setClient, Function.update_self, Option.some.injEq] at hw
        subst hw
        refine ⟨_, List.mem_append_right _ (List.mem_singleton_self _), ?_, ?_, rfl⟩
        · simpa [System.setClient] using hfd
        · simp [System.setClient, System.lastCall]
      · simp only [System.setClient, Function.update_of_ne hj] at hw
        obtain ⟨r, hr, hrest⟩ := h.waiting j w hw
        refine ⟨r, hsent hr, ?_⟩
        simpa [System.setClient, System.lastCall, hj] using hrest
    answered := fun call count text hmem =>
      (h.answered call count text hmem).mono hsent (List.Subset.refl _) }

theorem step {s s' : System κ} {e : Event κ} (h : Sound s) (hs : Step s e s') : Sound s' := by
  cases hs with
  | @«open» k addr hnone hfree =>
      refine h.setClient le_rfl (h.seq k) ?_
      intro w hw
      obtain ⟨r, -, hfd, -⟩ := h.waiting k w hw
      rw [hnone] at hfd
      cases hfd
  | send hwait hfd hsend => exact h.send hfd hsend
  | @sendFails k caller bytes c hwait hsend =>
      obtain ⟨-, -, rfl⟩ := Client.sendmsgtoserver_ok hsend
      refine fails (s := s.setClient k (Client.close _)) (h.setClient (Nat.le_succ _) ?_ ?_) _ _
      · exact h.seq_succ k
      · intro w hw
        cases hw
  | refuse => exact h
  | @serve d rest hidle hrequests =>
      obtain ⟨cmd, hasked, hhandle⟩ := h.serve hrequests
      refine { h with request := ?_, serving := ?_ }
      · intro d' hd'
        exact h.request d' (by rw [hrequests]; exact Multiset.mem_cons_of_mem hd')
      · intro v hv
        cases hv
        rw [hhandle]
        refine ⟨hasked, ?_⟩
        rw [replyBytes, List.append_nil]
        exact (List.take_of_length_le (by simp [serverSendbufLen])).symm
  | @output v buffer hv =>
      obtain ⟨hasked, hbuf⟩ := h.serving v hv
      refine { h with serving := ?_ }
      intro v' hv'
      cases hv'
      refine ⟨hasked, ?_⟩
      simp only [hbuf, replyBytes, sfUdpCliOutput_take, List.append_assoc]
  | @reply v hv =>
      obtain ⟨hasked, hbuf⟩ := h.serving v hv
      have hexecuted : s.executed ⊆ s.executed ++ [⟨v.addr, v.cmd, v.output, v.call⟩] :=
        List.subset_append_left _ _
      refine { h with serving := ?_, executed := ?_, reply := ?_, answered := ?_ }
      · intro v' hv'
        cases hv'
      · intro e he
        rw [List.mem_append, List.mem_singleton] at he
        rcases he with he | rfl
        · exact h.executed e he
        · exact hasked
      · intro d hd
        rw [Multiset.mem_cons] at hd
        rcases hd with rfl | hd
        · exact ⟨_, List.mem_append_right _ (List.mem_singleton_self _), rfl, rfl, hbuf⟩
        · obtain ⟨e, he, hrest⟩ := h.reply d hd
          exact ⟨e, hexecuted he, hrest⟩
      · intro call count text hmem
        exact (h.answered call count text hmem).mono (List.Subset.refl _) hexecuted
  | @recv k w d rest hwait hreplies hfd =>
      obtain ⟨r, hr, hraddr, hrcall, hrcaller⟩ := h.waiting k w hwait
      obtain ⟨e, he, headdr, hecall, hbytes⟩ := h.reply d (by simp [hreplies])
      obtain ⟨hseq, hcalls⟩ := (s.client k).recvTurn_seq w d.bytes
      refine { h.ends hcalls.symm hseq ?_ ?_ with reply := ?_ }
      · intro w' hw'
        obtain ⟨hfd', hcaller⟩ := Client.recvTurn_waiting hw'
        exact ⟨w, hwait, hcaller, hfd'⟩
      · intro count text hok
        rw [hbytes] at hok
        obtain ⟨hnumber, htext, hcount⟩ := Client.recvTurn_ok hok
        rw [hfd, Option.some.injEq] at hraddr
        refine ⟨r, hr, hrcall, e, he, headdr.trans hraddr, ?_, ?_, hcount⟩
        · rw [hecall, hnumber, h.seq k]
        · rw [hrcaller, htext]
      · intro d' hd'
        exact h.reply d' (by rw [hreplies]; exact Multiset.mem_cons_of_mem hd')
  | timeout hwait =>
      refine h.ends (c := Client.close _) rfl rfl ?_ ?_
      · intro w' hw'
        cases hw'
      · intro count text hok
        cases hok
  | loseRequest hrequests =>
      exact { h with
        request := fun d hd =>
          h.request d (by rw [hrequests]; exact Multiset.mem_cons_of_mem hd) }
  | loseReply hreplies =>
      exact { h with
        reply := fun d hd => h.reply d (by rw [hreplies]; exact Multiset.mem_cons_of_mem hd) }
  | copyRequest hd =>
      refine { h with request := ?_ }
      intro d' hd'
      rcases Multiset.mem_cons.mp hd' with rfl | hd'
      · exact h.request _ hd
      · exact h.request d' hd'
  | copyReply hd =>
      refine { h with reply := ?_ }
      intro d' hd'
      rcases Multiset.mem_cons.mp hd' with rfl | hd'
      · exact h.reply _ hd
      · exact h.reply d' hd'

end Sound

/-- What a call is given as output is the output of a command that was sent from the address of
the call under its number. Where the two calls are of one process, which has made less than `2 ^ 32`
of them, they are the same call. -/
theorem answer_output [DecidableEq κ] {buf : κ → Buffer} {events : List (Event κ)} {s : System κ}
    (run : Run Step (initial buf) events s) {call : Call κ} {count : Nat} {text : List UInt8}
    (hmem : (call, .ok count text) ∈ s.returned) :
    ∃ r ∈ s.sent, r.call = call ∧ ∃ e ∈ s.executed, e.addr = r.addr ∧ e.call.seq = call.seq ∧
      text = shown r.caller.room e.output ∧ count = text.length ∧
      Asked s e.addr e.call e.cmd ∧
      (e.call.client = call.client → (s.client call.client).calls < 2 ^ 32 → e.call = call) := by
  have h : Sound s := run.invariant (Sound.initial buf) fun _ _ _ h hs => h.step hs
  obtain ⟨r, hr, rfl, e, he, haddr, hseq, htext, hcount⟩ := h.answered call count text hmem
  have hasked := h.executed e he
  refine ⟨r, hr, rfl, e, he, haddr, hseq, htext, hcount, hasked, ?_⟩
  intro hclient hlt
  obtain ⟨q, hq, -, hqcall, -⟩ := hasked
  have hrle := h.number r hr
  have hele := h.number q hq
  rw [hqcall, hclient] at hele
  have hnumber : e.call.number = r.call.number := by
    have hmod := congrArg UInt32.toNat hseq
    simp only [Call.seq, UInt32.toNat_ofNat'] at hmod
    rwa [Nat.mod_eq_of_lt (by omega), Nat.mod_eq_of_lt (by omega)] at hmod
  exact Call.ext hclient hnumber

/-- What `sendmsgtoserver_rest` sends for a call with this command. -/
def requestOf (addr : Nat) (call : Call κ) (cmd : List UInt8) : Datagram κ :=
  ⟨addr, seqBytes call.seq ++ cmd, call⟩

/-- What the server sends back, when the command has written this. -/
def replyOf (addr : Nat) (call : Call κ) (output : List UInt8) : Datagram κ :=
  ⟨addr, replyBytes call output, call⟩

/-- Two processes send `sh` and `ls`, and the network copies `sh`. Both copies of `sh` are executed
before `ls`: the next call of its process reads the second reply first. The reply to `ls` is lost,
and its process asks again from a new address. -/
def copiedEvents : List (Event Bool) :=
  [.open false 7, .open true 8, .send true (.rest [108, 115] 2048),
    .send false (.rest [115, 104] 2048), .copy, .serve, .output [49], .reply, .recv false,
    .serve, .output [50], .reply, .send false (.rest [112] 2048), .recv false,
    .serve, .output [51], .reply, .recv false, .serve, .output [52], .reply, .lose, .timeout true,
    .open true 9, .send true (.rest [108, 115] 2048), .serve, .output [53], .reply, .recv true]

theorem run_copied : ∃ s : System Bool, Run Step (initial fun _ _ => 0) copiedEvents s ∧
    (⟨true, 2⟩, .ok 2 [53, 0]) ∈ s.returned ∧ (⟨false, 2⟩, .ok 2 [51, 0]) ∈ s.returned := by
  apply Exists.intro
  apply And.intro
  · apply Run.cons
    · exact .open rfl fun j h => by cases h
    apply Run.cons
    · exact .open rfl fun j h => by cases j <;> cases h
    apply Run.cons (@Step.send Bool _ _ true (.rest [108, 115] 2048) 8 _ _ rfl rfl rfl)
    apply Run.cons (@Step.send Bool _ _ false (.rest [115, 104] 2048) 7 _ _ rfl rfl rfl)
    apply Run.cons
    · apply Step.copyRequest
      dsimp only
      exact Multiset.mem_cons_self _ _
    apply Run.cons (@Step.serve Bool _ _ (requestOf 7 ⟨false, 1⟩ [115, 104])
      {requestOf 7 ⟨false, 1⟩ [115, 104], requestOf 8 ⟨true, 1⟩ [108, 115]} rfl rfl)
    apply Run.cons (@Step.output Bool _ _ _ [49] rfl)
    apply Run.cons (@Step.reply Bool _ _ _ rfl)
    apply Run.cons (@Step.recv Bool _ _ false _ _ 0 rfl rfl rfl)
    apply Run.cons (@Step.serve Bool _ _ (requestOf 7 ⟨false, 1⟩ [115, 104])
      {requestOf 8 ⟨true, 1⟩ [108, 115]} rfl rfl)
    apply Run.cons (@Step.output Bool _ _ _ [50] rfl)
    apply Run.cons (@Step.reply Bool _ _ _ rfl)
    apply Run.cons (@Step.send Bool _ _ false (.rest [112] 2048) 7 _ _ rfl rfl rfl)
    apply Run.cons (@Step.recv Bool _ _ false _ _ 0 rfl rfl rfl)
    apply Run.cons (@Step.serve Bool _ _ (requestOf 7 ⟨false, 2⟩ [112])
      {requestOf 8 ⟨true, 1⟩ [108, 115]} rfl rfl)
    apply Run.cons (@Step.output Bool _ _ _ [51] rfl)
    apply Run.cons (@Step.reply Bool _ _ _ rfl)
    apply Run.cons (@Step.recv Bool _ _ false _ _ 0 rfl rfl rfl)
    apply Run.cons (@Step.serve Bool _ _ (requestOf 8 ⟨true, 1⟩ [108, 115]) 0 rfl rfl)
    apply Run.cons (@Step.output Bool _ _ _ [52] rfl)
    apply Run.cons (@Step.reply Bool _ _ _ rfl)
    apply Run.cons (@Step.loseReply Bool _ _ _ 0 rfl)
    apply Run.cons (@Step.timeout Bool _ _ true _ rfl)
    apply Run.cons
    · exact .open rfl fun j h => by cases j <;> cases h
    apply Run.cons (@Step.send Bool _ _ true (.rest [108, 115] 2048) 9 _ _ rfl rfl rfl)
    apply Run.cons (@Step.serve Bool _ _ (requestOf 9 ⟨true, 2⟩ [108, 115]) 0 rfl rfl)
    apply Run.cons (@Step.output Bool _ _ _ [53] rfl)
    apply Run.cons (@Step.reply Bool _ _ _ rfl)
    apply Run.cons (@Step.recv Bool _ _ true _ _ 0 rfl rfl rfl)
    exact .refl _
  · exact ⟨@List.mem_of_getElem? _ _ 3 _ rfl, @List.mem_of_getElem? _ _ 1 _ rfl⟩

theorem answer_output_copied : ∃ s : System Bool,
    Run Step (initial fun _ _ => 0) copiedEvents s ∧
      Answered s ⟨true, 2⟩ 2 [53, 0] ∧
      ∃ r ∈ s.sent, r.call = ⟨false, 2⟩ ∧ ∃ e ∈ s.executed, e.addr = r.addr ∧ e.call.seq = 2 ∧
        [51, 0] = shown r.caller.room e.output ∧ Asked s e.addr e.call e.cmd ∧
        (e.call.client = false → (s.client false).calls < 2 ^ 32 → e.call = ⟨false, 2⟩) := by
  obtain ⟨s, run, htrue, hfalse⟩ := run_copied
  obtain ⟨q, hq, hqcall, f, hf, hfaddr, hfseq, hftext, hfcount, -⟩ := answer_output run htrue
  obtain ⟨r, hr, hrcall, e, he, haddr, hseq, htext, -, hasked, hsame⟩ := answer_output run hfalse
  exact ⟨s, run, ⟨q, hq, hqcall, f, hf, hfaddr, hfseq, hftext, hfcount⟩,
    r, hr, hrcall, e, he, haddr, hseq, htext, hasked, hsame⟩

end Tapplet.Cli
