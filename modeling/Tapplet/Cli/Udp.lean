import Mathlib.Data.Nat.Digits.Defs
import Mathlib.Data.List.Basic
import Mathlib.Logic.Function.Basic
import Mathlib.Tactic.Common

/-!
# Requests to the cli and their replies

The functions that put a request and a reply together and take them apart:
`sendmsgtoserver_rest` with its two callers, and `handle_udp_cli_request_inline` with
`sf_udp_cli_output`. A datagram starts with the number of the call, as the four bytes of a
`uint32_t`.
-/

namespace Tapplet.Cli

/-- `UDP_RECV_BUF_MAX_LEN` and `UDP_SEND_BUF_MAX_LEN` of the client. -/
def udpRecvBufMaxLen : Nat := 10240
def udpSendBufMaxLen : Nat := 256

/-- `SF_CLI_UDP_SERVER_SENDBUF_LEN` and `SF_CLI_UDP_SERVER_RECVBUF_LEN`. -/
def serverSendbufLen : Nat := 10240
def serverRecvbufLen : Nat := 256

/-- `RECV_RETRY_TIME`. -/
def recvRetryTime : Nat := 3

/-- The codes that `sendmsgtoserver_rest` returns when it fails. -/
def cmdTooLong : Int := -3
def internalError : Int := -2
def recvfromFail : Int := -1

/-! ## The number of a call -/

/-- The bytes of a `uint32_t` in memory. -/
def seqBytes (seq : UInt32) : List UInt8 :=
  (List.range 4).map fun i => UInt8.ofNat (seq.toNat / 256 ^ i)

/-- The `uint32_t` that a pointer to the bytes reads. -/
def seqOf (bytes : List UInt8) : UInt32 :=
  UInt32.ofNat (Nat.ofDigits 256 ((bytes.take 4).map UInt8.toNat))

@[simp] theorem seqBytes_length (seq : UInt32) : (seqBytes seq).length = 4 := by
  simp [seqBytes]

theorem seqOf_seqBytes (seq : UInt32) : seqOf (seqBytes seq) = seq := by
  have hlt := seq.toNat_lt
  have hdigits : Nat.ofDigits 256 ((seqBytes seq).map UInt8.toNat) = seq.toNat := by
    simp [seqBytes, List.range_succ, Nat.ofDigits_cons]
    omega
  have htake : (seqBytes seq).take 4 = seqBytes seq := List.take_of_length_le (by simp)
  rw [seqOf, htake, hdigits, UInt32.ofNat_toNat]

/-- The number is read from the first four bytes, whatever follows. -/
@[simp] theorem seqOf_append (seq : UInt32) (rest : List UInt8) :
    seqOf (seqBytes seq ++ rest) = seq := by
  have htake : (seqBytes seq ++ rest).take 4 = (seqBytes seq).take 4 :=
    List.take_append_of_le_length (by simp)
  calc
    seqOf (seqBytes seq ++ rest) = seqOf (seqBytes seq) := by rw [seqOf, seqOf, htake]
    _ = seq := seqOf_seqBytes seq

/-! ## The request -/

/-- A buffer in memory. -/
abbrev Buffer := Nat → UInt8

namespace Buffer

/-- The first bytes of the buffer. -/
def bytes (b : Buffer) (n : Nat) : List UInt8 := (List.range n).map b

/-- `memcpy` to offset `start`. -/
def copy (b : Buffer) (start : Nat) (source : List UInt8) : Buffer := fun i =>
  if start ≤ i then (source[i - start]?).getD (b i) else b i

/-- `for(i = len ; i >= 0 ; i--) send_cmd_buf[i + seq_len] = send_cmd_buf[i];` -/
def shift : Nat → Buffer → Buffer
  | 0, b => Function.update b (0 + 4) (b 0)
  | i + 1, b => shift i (Function.update b (i + 1 + 4) (b (i + 1)))

@[simp] theorem copy_apply (b : Buffer) (start i : Nat) (source : List UInt8) :
    b.copy start source (start + i) = (source[i]?).getD (b (start + i)) := by
  simp [copy]

theorem copy_of_lt (b : Buffer) (source : List UInt8) {start i : Nat} (h : i < start) :
    b.copy start source i = b i := by
  simp [copy, Nat.not_le.mpr h]

theorem copy_zero (b : Buffer) {source : List UInt8} {i : Nat} (h : i < source.length) :
    b.copy 0 source i = source[i] := by
  simp [copy, h]

theorem shift_apply (len : Nat) (b : Buffer) (j : Nat) :
    shift len b j = if 4 ≤ j ∧ j ≤ len + 4 then b (j - 4) else b j := by
  induction len generalizing b with
  | zero =>
      rw [shift, Function.update_apply]
      grind
  | succ i ih =>
      -- the byte written is above every byte that is still to be read
      rw [shift, ih, Function.update_apply, Function.update_apply]
      grind

theorem bytes_eq {b : Buffer} {source : List UInt8}
    (h : ∀ i (hi : i < source.length), b i = source[i]) : b.bytes source.length = source := by
  apply List.ext_getElem
  · simp [bytes]
  · intro i _ hi
    simpa [bytes] using h i hi

end Buffer

/-- The two ways to call `sendmsgtoserver_rest`: with a command and the room for the answer, or by
`sendmsgtoserver_sfshell`, with a line that stands in `send_cmd_buf` already. -/
inductive Caller where
  | rest (buf : List UInt8) (retbufLen : Nat)
  | sfshell (line : List UInt8)

namespace Caller

/-- The command; `strlen` stops at the first zero byte. -/
def cmd : Caller → List UInt8
  | rest buf _ => buf
  | sfshell line => line.takeWhile (· ≠ 0)

/-- `retbuf_len`, once the call has cut it. -/
def room : Caller → Nat
  | rest _ retbufLen => min retbufLen (udpRecvBufMaxLen - 10)
  | sfshell _ => min udpRecvBufMaxLen (udpRecvBufMaxLen - 10)

/-- `send_cmd_buf` when the datagram is sent. `sendmsgtoserver_sfshell` gives the buffer itself as
the command, which is then moved behind the number in place. -/
def sendCmdBuf (old : Buffer) (seq : UInt32) : Caller → Buffer
  | rest buf _ => (old.copy 0 (seqBytes seq)).copy 4 buf
  | sfshell line =>
      (Buffer.shift (cmd (sfshell line)).length (old.copy 0 (line ++ [0]))).copy 0 (seqBytes seq)

/-- What `sendto` sends. -/
def datagram (old : Buffer) (seq : UInt32) (caller : Caller) : List UInt8 :=
  (caller.sendCmdBuf old seq).bytes (caller.cmd.length + 4)

theorem room_le (caller : Caller) : caller.room ≤ udpRecvBufMaxLen - 10 := by
  cases caller <;> exact min_le_right _ _

theorem sendCmdBuf_seq (old : Buffer) (seq : UInt32) (caller : Caller) {i : Nat}
    (h : i < (seqBytes seq).length) : caller.sendCmdBuf old seq i = (seqBytes seq)[i] := by
  cases caller with
  | rest buf retbufLen =>
      rw [sendCmdBuf, Buffer.copy_of_lt _ _ (by simpa using h), Buffer.copy_zero]
  | sfshell line => rw [sendCmdBuf, Buffer.copy_zero]

theorem sendCmdBuf_cmd (old : Buffer) (seq : UInt32) (caller : Caller) {i : Nat}
    (h : i < caller.cmd.length) : caller.sendCmdBuf old seq (4 + i) = caller.cmd[i] := by
  cases caller with
  | rest buf retbufLen =>
      have hget : buf[i]? = some buf[i] := List.getElem?_eq_getElem h
      rw [sendCmdBuf, Buffer.copy_apply, hget]
      rfl
  | sfshell line =>
      have hsent : (sfshell line).cmd <+: line ++ [0] :=
        (List.takeWhile_prefix _).trans (List.prefix_append _ _)
      have hi : i < (line ++ [0]).length := h.trans_le hsent.length_le
      calc
        (sfshell line).sendCmdBuf old seq (4 + i)
          = Buffer.shift (sfshell line).cmd.length (old.copy 0 (line ++ [0])) (4 + i) := by
            simp [sendCmdBuf, Buffer.copy]
        _ = old.copy 0 (line ++ [0]) i := by
            rw [Buffer.shift_apply, if_pos (by omega), Nat.add_sub_cancel_left]
        _ = (line ++ [0])[i] := Buffer.copy_zero _ _
        _ = (sfshell line).cmd[i] := (hsent.getElem h).symm

/-- Both ways send the number and then the command, whatever stood in the buffer. -/
theorem datagram_eq (old : Buffer) (seq : UInt32) (caller : Caller) :
    caller.datagram old seq = seqBytes seq ++ caller.cmd := by
  have hlen : caller.cmd.length + 4 = (seqBytes seq ++ caller.cmd).length := by
    simp [Nat.add_comm]
  rw [datagram, hlen]
  apply Buffer.bytes_eq
  intro i hi
  by_cases h : i < (seqBytes seq).length
  · rw [List.getElem_append_left h, sendCmdBuf_seq old seq caller h]
  · obtain ⟨j, rfl⟩ := Nat.exists_eq_add_of_le (Nat.not_lt.mp h)
    rw [List.length_append] at hi
    rw [List.getElem_append_right (Nat.le_add_right _ _)]
    simpa using sendCmdBuf_cmd old seq caller (Nat.lt_of_add_lt_add_left hi)

end Caller

/-! ## The reply -/

/-- `sf_udp_cli_output`: a piece of output is put behind what `udp_server_sendbuf` has. -/
def sfUdpCliOutput (sendbuf buffer : List UInt8) : List UInt8 :=
  if serverSendbufLen - 1 ≤ sendbuf.length then sendbuf
  else if serverSendbufLen - 1 < sendbuf.length + buffer.length then
    sendbuf ++ buffer.take (serverSendbufLen - 1 - sendbuf.length)
  else sendbuf ++ buffer

/-- However the output is cut into pieces, the buffer has as much of it as fits. -/
theorem sfUdpCliOutput_take (out buffer : List UInt8) :
    sfUdpCliOutput (out.take (serverSendbufLen - 1)) buffer
      = (out ++ buffer).take (serverSendbufLen - 1) := by
  unfold sfUdpCliOutput
  rw [List.take_append]
  split
  next hfull =>
    rw [List.length_take] at hfull
    have hzero : serverSendbufLen - 1 - out.length = 0 := by omega
    rw [hzero, List.take_zero, List.append_nil]
  next hroom =>
    have hall : out.take (serverSendbufLen - 1) = out := by
      apply List.take_of_length_le
      rw [List.length_take] at hroom
      omega
    rw [hall]
    split
    · rfl
    next hfits => rw [List.take_of_length_le (by omega)]

/-- `handle_udp_cli_request_inline` up to `vlib_cli_input`: the number and the command that
`udp_server_recvbuf` has, and `udp_server_sendbuf` with the number in it. -/
def handleUdpCliRequest (recvbuf : List UInt8) : List UInt8 × List UInt8 :=
  (recvbuf.drop 4, seqBytes (seqOf recvbuf))

/-- A request is taken apart into what the client put into it. -/
theorem handleUdpCliRequest_datagram (seq : UInt32) {cmd : List UInt8}
    (h : cmd.length ≤ udpSendBufMaxLen - 4 - 1) :
    handleUdpCliRequest ((seqBytes seq ++ cmd).take serverRecvbufLen) = (cmd, seqBytes seq) := by
  have hwhole : (seqBytes seq ++ cmd).take serverRecvbufLen = seqBytes seq ++ cmd := by
    apply List.take_of_length_le
    simp only [List.length_append, seqBytes_length, serverRecvbufLen]
    simp only [udpSendBufMaxLen] at h
    omega
  rw [hwhole, handleUdpCliRequest, seqOf_append, List.drop_left' (seqBytes_length seq)]

/-- The text that a caller with this room gets of an output, with the zero byte behind it. -/
def shown (room : Nat) (output : List UInt8) : List UInt8 := output.take (room - 4) ++ [0]

/-- A reply in `udp_recv_buf`, behind the number, is the output as far as there is room. -/
theorem recvBuf_reply (seq : UInt32) (output : List UInt8) {room : Nat} (h : 4 ≤ room)
    (hroom : room ≤ udpRecvBufMaxLen - 10) :
    ((seqBytes seq ++ output).take (serverSendbufLen - 1)).take room
      = seqBytes seq ++ output.take (room - 4) := by
  simp only [udpRecvBufMaxLen] at hroom
  rw [List.take_take, serverSendbufLen, min_eq_left (by omega), List.take_append,
    List.take_of_length_le (by simpa using h), seqBytes_length]

end Tapplet.Cli
