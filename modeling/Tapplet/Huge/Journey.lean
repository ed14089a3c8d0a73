import Tapplet.Lib.Run
import Tapplet.Huge.Nodes

/-!
# The way of a huge packet through the graph

A huge packet starts where its node is attached, is handled by any number of nodes that read
and write it, and is then handed to `sf_pkt_output` or `sf_pkt_drop`. The tables of the
interfaces may change at any time. The state of a link is read by no node on the way, so it
does not occur.

The node of the packet is returned once exactly when the packet never meets one of two
disagreements about who frees it: the error branch of `sf_pkt_output` frees the node and
leaves the flag set for `sf_pkt_drop`, and so does `sf_huge_pkt_output` when it sends a packet
whose flag is set to an interface without an output node.
-/

namespace Tapplet.Huge

open Reass Lease Transition

/-- Where a packet is. -/
inductive Place where
  /-- at one of the nodes in between -/
  | graph
  | pktOutput
  | hugePktOutput
  | pktDrop
  /-- handed to the output node of an interface -/
  | sent
  /-- its buffer is free again -/
  | gone
deriving DecidableEq

def Next.place : Next → Place
  | .sfHugePktOutput => .hugePktOutput
  | .sfPktDrop => .pktDrop
  | .intfOutput _ => .sent

structure State where
  main : SfMain
  buffer : BufferId
  pkt : HugePkt
  place : Place
  log : List (Event Block)

inductive Label where
  /-- the tables change -/
  | configure (main : SfMain)
  /-- a node in between reads and writes the packet -/
  | handle (pkt : HugePkt) (times : Nat)
  /-- the packet is handed to `sf_pkt_output` -/
  | send
  /-- the packet is handed to `sf_pkt_drop` -/
  | discard
  | pktOutput
  | hugePktOutput (paired : Bool) (free : List BufferId)
  | pktDrop

/-- One step of the packet. -/
def next (s : State) : Label → Option State
  | .configure main => some { s with main }
  | .handle pkt times =>
      if s.place = .graph ∧ IsHuge pkt.toWdata ∧ pkt.dataPtr = s.pkt.dataPtr then
        some { s with
          pkt
          log := s.log ++ (List.replicate times (touch s.pkt.dataPtr)).flatten }
      else none
  | .send => if s.place = .graph then some { s with place := .pktOutput } else none
  | .discard => if s.place = .graph then some { s with place := .pktDrop } else none
  | .pktOutput =>
      if s.place = .pktOutput then
        let r := sfPktOutput s.main s.pkt
        some { s with place := r.1.place, log := s.log ++ r.2 }
      else none
  | .hugePktOutput paired free =>
      if s.place = .hugePktOutput then
        let r := sfHugePktOutput s.main paired free s.buffer s.pkt
        some { s with pkt := r.1, place := r.2.1.place, log := s.log ++ r.2.2 }
      else none
  | .pktDrop =>
      if s.place = .pktDrop then
        some { s with place := .gone, log := s.log ++ sfPktDrop s.pkt }
      else none

def Step (s : State) (l : Label) (t : State) : Prop := next s l = some t

/-- A packet to which the node `n` has just been attached. -/
inductive Start (n : Block) : State → Prop where
  /-- `ip4_frag_build_pkt` or `ip6_frag_build_pkt` -/
  | joined (main : SfMain) (F : FragFields) (env : Env) (w : Worker) (first b : BufferId)
      (cnt interfaceOut : Nat) (helper : HugepktHelper) :
      Start n ⟨main, b,
        ⟨{ (buildInto F env w first b (some n) cnt).wdata b with interfaceOut }, helper⟩,
        .graph, [.take n]⟩
  /-- `sf_hugepkt_input`, which packets reach whose flag is set -/
  | received (main : SfMain) (b : BufferId) (pkt : HugePkt) {pkt' : HugePkt}
      {drops : List BufferId} {events : List (Event Block)} (huge : IsHuge pkt.toWdata)
      (run : handleHugePacket (some n) pkt = (pkt', 0, drops, events)) :
      Start n ⟨main, b, pkt', .graph, events⟩

/-- The packet has left the graph. -/
def Finished (s : State) : Prop := s.place = .sent ∨ s.place = .gone

/-! ## Flags -/

theorem isHuge_or (x : UInt8) : (x ||| unused8FlagHugePkt) &&& unused8FlagHugePkt ≠ 0 := by
  have hbit : ∀ y : BitVec 8, (y ||| 4#8) &&& 4#8 ≠ 0#8 := by decide
  exact fun hx => hbit x.toBitVec (congrArg UInt8.toBitVec hx)

theorem isHuge_built {w : Wdata} {x : UInt8}
    (h : w.unused8 = x ||| unused8FlagIpReassPkt ||| unused8PktHugePktWithWdata) : IsHuge w := by
  have hbit : ∀ y : BitVec 8, (y ||| 8#8 ||| 7#8) &&& 4#8 ≠ 0#8 := by decide
  rw [IsHuge, h]
  exact fun hx => hbit x.toBitVec (congrArg UInt8.toBitVec hx)

@[simp] theorem not_isHuge_unsetHuge (pkt : HugePkt) : ¬IsHuge pkt.unsetHuge.toWdata := by
  have hbit : ∀ y : BitVec 8, y &&& ~~~4#8 &&& 4#8 = 0#8 := by decide
  exact fun h => h (UInt8.toBitVec_inj.mp (hbit pkt.unused8.toBitVec))

@[simp] theorem unsetHuge_dataPtr (pkt : HugePkt) : pkt.unsetHuge.dataPtr = pkt.dataPtr := rfl

@[simp] theorem unsetHuge_interfaceOut (pkt : HugePkt) :
    pkt.unsetHuge.interfaceOut = pkt.interfaceOut := rfl

@[simp] theorem unsetHuge_currentLength (pkt : HugePkt) :
    pkt.unsetHuge.currentLength = pkt.currentLength := rfl

/-! ## Splitting -/

/-- `sf_vlib_buffer_split` returns 0: the packet is empty or too long, or there are not enough
free buffers. -/
def SplitFails (free : List BufferId) (totalLen : Nat) : Prop :=
  totalLen = 0 ∨ sfHugepktMaxSubBufferCnt < subBufferCnt totalLen ∨
    free.length < subBufferCnt totalLen - 1

/-- What `sf_vlib_buffer_split` leaves as it is, how much it copies, and what it does with the
flag. -/
structure SplitSpec (free : List BufferId) (pkt : HugePkt)
    (r : HugePkt × Nat × List (Event Block)) : Prop where
  fails : SplitFails free pkt.currentLength → r.2.1 = 0
  copied : ¬SplitFails free pkt.currentLength → r.2.1 = pkt.currentLength
  dataPtr : r.1.dataPtr = pkt.dataPtr
  interfaceOut : r.1.interfaceOut = pkt.interfaceOut
  touches : ∃ times, r.2.2 = (List.replicate times (touch pkt.dataPtr)).flatten
  huge : ¬SplitFails free pkt.currentLength →
    (IsHuge r.1.toWdata ↔ IsHuge pkt.toWdata ∨ subBufferCnt pkt.currentLength ≠ 1)

theorem sfVlibBufferSplit_spec (free : List BufferId) (b0 : BufferId) (pkt : HugePkt) :
    SplitSpec free pkt (sfVlibBufferSplit free b0 pkt) := by
  obtain ⟨hpos, hreach⟩ := subBufferCnt_bounds pkt.currentLength
  unfold sfVlibBufferSplit
  dsimp only
  by_cases hlong : sfHugepktMaxSubBufferCnt < subBufferCnt pkt.currentLength
  · rw [if_pos hlong]
    have hfails : SplitFails free pkt.currentLength := .inr (.inl hlong)
    exact ⟨fun _ => rfl, fun h => absurd hfails h, rfl, rfl, ⟨0, rfl⟩, fun h => absurd hfails h⟩
  rw [if_neg hlong]
  by_cases hfree : free.length < subBufferCnt pkt.currentLength - 1
  · have hfails : SplitFails free pkt.currentLength := .inr (.inr hfree)
    rw [sfVlibAllocNoFail, if_pos hfree]
    exact ⟨fun _ => rfl, fun h => absurd hfails h, rfl, rfl, ⟨0, rfl⟩, fun h => absurd hfails h⟩
  rw [sfVlibAllocNoFail, if_neg hfree]
  dsimp only
  have hsum (n : Nat) : ((⟨b0, outputTagPreSize, n⟩ ::
      splitLeft (free.take (subBufferCnt pkt.currentLength - 1)) (pkt.currentLength - n)).map
        HugepktSub.currentLength).sum =
      n + min (pkt.currentLength - n) ((subBufferCnt pkt.currentLength - 1) * 2048) := by
    rw [List.map_cons, List.sum_cons, splitLeft_sum, List.length_take, vlibBufferDataSize,
      Nat.min_eq_left (Nat.le_of_not_lt hfree)]
  refine ⟨fun hfails => ?_, fun _ => ?_, rfl, rfl,
    ⟨_, by rw [List.flatMap_def, List.map_const']; rfl⟩, fun _ => ?_⟩
  · have hzero : pkt.currentLength = 0 := by
      simpa [SplitFails, hlong, hfree] using hfails
    rw [hsum, hzero]
    simp
  · rw [hsum]
    simp only [vlibBufferDataSize, outputTagPreSize] at hreach ⊢
    omega
  · by_cases hone : subBufferCnt pkt.currentLength = 1
    · simp [IsHuge, hone]
    · have hmore : 0 < subBufferCnt pkt.currentLength - 1 := by omega
      simp [IsHuge, hone, hmore, isHuge_or]

/-- How `sf_huge_pkt_output` ends for a flagged packet: the split fails, or it succeeds and the
interface has no output node, or it succeeds and the packet is sent. -/
inductive Output (m : SfMain) (paired : Bool) (free : List BufferId) (pkt : HugePkt) :
    HugePkt → Next → Prop where
  | failed {pkt'} (fails : SplitFails free pkt.currentLength) (flag : ¬IsHuge pkt'.toWdata) :
      Output m paired free pkt pkt' .sfPktDrop
  | unknown {pkt'} (splits : ¬SplitFails free pkt.currentLength)
      (index : m.hugepktOutputNextIndex pkt.interfaceOut = 0)
      (flag : IsHuge pkt'.toWdata ↔ ¬(paired = false ∧ subBufferCnt pkt.currentLength = 1)) :
      Output m paired free pkt pkt' .sfPktDrop
  | sent {pkt'} {i : Nat} (splits : ¬SplitFails free pkt.currentLength)
      (index : m.hugepktOutputNextIndex pkt.interfaceOut = i + 1) :
      Output m paired free pkt pkt' (.intfOutput (i + 1))

theorem sfHugePktOutput_spec (m : SfMain) (paired : Bool) (free : List BufferId) (b0 : BufferId)
    {pkt : HugePkt} (flag : IsHuge pkt.toWdata) :
    ∃ pkt' next times, sfHugePktOutput m paired free b0 pkt = (pkt', next,
        (List.replicate times (touch pkt.dataPtr)).flatten ++ freeHugePkt16k pkt.dataPtr) ∧
      pkt'.dataPtr = pkt.dataPtr ∧ Output m paired free pkt pkt' next := by
  obtain ⟨start, hstart⟩ : ∃ start, start = if paired then pkt else pkt.unsetHuge := ⟨_, rfl⟩
  have hlength : start.currentLength = pkt.currentLength := by rw [hstart]; split <;> rfl
  have hdataPtr : start.dataPtr = pkt.dataPtr := by rw [hstart]; split <;> rfl
  have hout : start.interfaceOut = pkt.interfaceOut := by rw [hstart]; split <;> rfl
  have hflag : IsHuge start.toWdata ↔ paired = true := by
    rw [hstart]
    cases paired <;> simp [flag]
  have spec := sfVlibBufferSplit_spec free b0 start
  obtain ⟨r, hr⟩ : ∃ r, r = sfVlibBufferSplit free b0 start := ⟨_, rfl⟩
  rw [← hr] at spec
  obtain ⟨times, htimes⟩ := spec.touches
  rw [hdataPtr] at htimes
  have hfail := spec.fails
  have hcopied := spec.copied
  have hhuge := spec.huge
  rw [hlength] at hfail hcopied hhuge
  have hout' : r.1.interfaceOut = pkt.interfaceOut := spec.interfaceOut.trans hout
  have hptr : r.1.dataPtr = pkt.dataPtr := spec.dataPtr.trans hdataPtr
  by_cases hfails : SplitFails free pkt.currentLength
  · refine ⟨r.1.unsetHuge, .sfPktDrop, times, ?_, hptr, .failed hfails (not_isHuge_unsetHuge _)⟩
    simp only [sfHugePktOutput, ← hstart, ← hr, hfail hfails, if_true, htimes, hptr]
  · have hpos : r.2.1 ≠ 0 := by
      rw [hcopied hfails]
      exact fun hzero => hfails (.inl hzero)
    cases hindex : m.hugepktOutputNextIndex pkt.interfaceOut with
    | zero =>
        refine ⟨r.1, .sfPktDrop, times, ?_, hptr, .unknown hfails hindex ?_⟩
        · simp only [sfHugePktOutput, ← hstart, ← hr, if_neg hpos, htimes, hptr, hout', hindex]
        · rw [hhuge hfails, hflag]
          cases paired <;> simp
    | succ i =>
        refine ⟨r.1, .intfOutput (i + 1), times, ?_, hptr, .sent hfails hindex⟩
        simp only [sfHugePktOutput, ← hstart, ← hr, if_neg hpos, htimes, hptr, hout', hindex]

/-! ## Who frees the node -/

/-- The tables, the loop and the free buffers with which the nodes agree about who frees the
node of the packet. -/
def Agrees (s : State) : Label → Prop
  | .pktOutput => s.main.Up s.pkt.interfaceOut
  | .hugePktOutput paired free =>
      s.main.hugepktOutputNextIndex s.pkt.interfaceOut ≠ 0 ∨
        SplitFails free s.pkt.currentLength ∨
        (paired = false ∧ subBufferCnt s.pkt.currentLength = 1)
  | _ => True

/-- The flag and the data pointer of a packet with the node `n`. -/
structure Attached (n : Block) (pkt : HugePkt) : Prop where
  flag : IsHuge pkt.toWdata
  dataPtr : pkt.dataPtr = allocHugePkt16k (some n)

/-- The node is held until it is returned, and a packet that is still flagged has it. -/
def Inv (n : Block) (s : State) : Prop :=
  match s.place with
  | .graph | .pktOutput | .hugePktOutput => Attached n s.pkt ∧ status n s.log = .held
  | .pktDrop =>
      Attached n s.pkt ∧ status n s.log = .held ∨
        ¬IsHuge s.pkt.toWdata ∧ status n s.log = .returned
  | .sent | .gone => status n s.log = .returned

/-- The node was returned and the packet is still flagged, or it has been returned twice. -/
def Lost (n : Block) (s : State) : Prop :=
  match s.place with
  | .pktDrop => Attached n s.pkt ∧ status n s.log = .returned
  | .gone => status n s.log = .broken
  | _ => False

section

variable {n : Block} {log : List (Event Block)} {p : DataPtr}

theorem status_touch (hp : p.block = some n) (hheld : status n log = .held) (times : Nat) :
    status n (log ++ (List.replicate times (touch p)).flatten) = .held := by
  have htouch : touch p = [.use n] := by rw [touch, hp]; rfl
  induction times with
  | zero => simpa using hheld
  | succ times ih =>
      rw [List.replicate_succ', List.flatten_append, ← List.append_assoc, status_append, ih,
        htouch]
      simp

theorem status_free (hp : p.block = some n) :
    status n (log ++ freeHugePkt16k p) =
      if status n log = .held then .returned else .broken := by
  have hfree : freeHugePkt16k p = [.give n] := by rw [freeHugePkt16k, hp]; rfl
  rw [status_append, hfree]
  exact next_give n _

end

variable {n : Block} {s t : State} {l : Label}

theorem Attached.block {pkt : HugePkt} (h : Attached n pkt) : pkt.dataPtr.block = some n := by
  rw [h.dataPtr]
  rfl

theorem Inv.start (h : Start n s) : Inv n s := by
  cases h with
  | joined main F env w first b cnt interfaceOut helper =>
      refine ⟨⟨?_, ?_⟩, ?_⟩
      · exact isHuge_built (x := (w.wdata first).unused8) (by simp [buildInto])
      · simp [buildInto]
      · simp [status]
  | @received main b pkt pkt' drops events huge run =>
      unfold handleHugePacket at run
      dsimp only at run
      split at run
      · cases run
      · rw [if_neg (allocHugePkt16k_ne_null _)] at run
        cases run
        refine ⟨⟨huge, rfl⟩, ?_⟩
        have htouches : status n ([.take n] ++ (List.replicate pkt.helper.subBuffer.length
            (touch (allocHugePkt16k (some n)))).flatten) = .held :=
          status_touch rfl (by simp [status]) _
        rw [← List.map_const', ← List.flatMap_def] at htouches
        exact htouches

/-- A step with which the nodes agree. -/
theorem Inv.step (h : Inv n s) (agrees : Agrees s l) (hs : Step s l t) : Inv n t := by
  cases l with
  | configure main =>
      cases hs
      exact h
  | handle pkt times =>
      simp only [Step, next] at hs
      split at hs
      next hplace =>
        obtain ⟨hgraph, flag, hptr⟩ := hplace
        cases hs
        simp only [Inv, hgraph] at h ⊢
        exact ⟨⟨flag, hptr.trans h.1.dataPtr⟩, status_touch h.1.block h.2 times⟩
      next => cases hs
  | send =>
      simp only [Step, next] at hs
      split at hs
      next hgraph =>
        cases hs
        simpa only [Inv, hgraph] using h
      next => cases hs
  | discard =>
      simp only [Step, next] at hs
      split at hs
      next hgraph =>
        cases hs
        simp only [Inv, hgraph] at h ⊢
        exact .inl h
      next => cases hs
  | pktOutput =>
      simp only [Step, next] at hs
      split at hs
      next hplace =>
        cases hs
        simp only [Inv, hplace] at h
        have hup : s.main.Up s.pkt.interfaceOut := agrees
        simpa [Inv, sfPktOutput, hup, h.1.flag, Next.place] using h
      next => cases hs
  | hugePktOutput paired free =>
      simp only [Step, next] at hs
      split at hs
      next hplace =>
        simp only [Inv, hplace] at h
        obtain ⟨pkt', next, times, hrun, hptr, output⟩ :=
          sfHugePktOutput_spec s.main paired free s.buffer h.1.flag
        rw [hrun] at hs
        cases hs
        have hstatus : status n (s.log ++ ((List.replicate times (touch s.pkt.dataPtr)).flatten ++
            freeHugePkt16k s.pkt.dataPtr)) = .returned := by
          rw [← List.append_assoc, status_free h.1.block, if_pos (status_touch h.1.block h.2 times)]
        cases output with
        | failed fails flag => exact .inr ⟨flag, hstatus⟩
        | unknown splits index flag =>
            obtain hindex | hfails | hone := agrees
            · exact absurd index hindex
            · exact absurd hfails splits
            · exact .inr ⟨fun hflag => flag.mp hflag hone, hstatus⟩
        | sent splits index => exact hstatus
      next => cases hs
  | pktDrop =>
      simp only [Step, next] at hs
      split at hs
      next hplace =>
        cases hs
        simp only [Inv, hplace] at h ⊢
        obtain ⟨attached, hheld⟩ | ⟨flag, hreturned⟩ := h
        · rw [sfPktDrop, if_pos attached.flag, status_free attached.block, if_pos hheld]
        · rw [sfPktDrop, if_neg flag, List.append_nil, hreturned]
      next => cases hs

/-- A step with which the nodes disagree. -/
theorem Inv.lost (h : Inv n s) (disagrees : ¬Agrees s l) (hs : Step s l t) : Lost n t := by
  cases l with
  | pktOutput =>
      simp only [Step, next] at hs
      split at hs
      next hplace =>
        cases hs
        simp only [Inv, hplace] at h
        have hdown : ¬s.main.Up s.pkt.interfaceOut := disagrees
        simp only [Lost, sfPktOutput, if_neg hdown, Next.place, if_pos h.1.flag]
        exact ⟨h.1, by rw [status_free h.1.block, if_pos h.2]⟩
      next => cases hs
  | hugePktOutput paired free =>
      simp only [Step, next] at hs
      split at hs
      next hplace =>
        simp only [Inv, hplace] at h
        simp only [Agrees, not_or] at disagrees
        obtain ⟨hindex, hsplits, hmore⟩ := disagrees
        obtain ⟨pkt', next, times, hrun, hptr, output⟩ :=
          sfHugePktOutput_spec s.main paired free s.buffer h.1.flag
        rw [hrun] at hs
        cases hs
        cases output with
        | failed fails flag => exact absurd fails hsplits
        | unknown splits index flag =>
            refine ⟨⟨flag.mpr hmore, hptr.trans h.1.dataPtr⟩, ?_⟩
            rw [← List.append_assoc, status_free h.1.block,
              if_pos (status_touch h.1.block h.2 times)]
        | sent splits index => exact absurd (not_not.mp hindex) (by omega)
      next => cases hs
  | configure => exact absurd trivial disagrees
  | handle => exact absurd trivial disagrees
  | send => exact absurd trivial disagrees
  | discard => exact absurd trivial disagrees
  | pktDrop => exact absurd trivial disagrees

/-- Once the node is lost, the packet can only be dropped, and the node is freed again. -/
theorem Lost.step (h : Lost n s) (hs : Step s l t) : Lost n t := by
  cases l with
  | configure main =>
      cases hs
      exact h
  | pktDrop =>
      simp only [Step, next] at hs
      split at hs
      next hplace =>
        cases hs
        simp only [Lost, hplace] at h ⊢
        rw [sfPktDrop, if_pos h.1.flag, status_free h.1.block, h.2]
        rfl
      next => cases hs
  | _ =>
      simp only [Step, next] at hs
      split at hs
      next hplace => simp [Lost, hplace] at h
      next => cases hs

theorem Inv.returned (h : Inv n t) (finished : Finished t) : status n t.log = .returned := by
  obtain hplace | hplace := finished <;> simpa [Inv, hplace] using h

theorem Lost.broken (h : Lost n t) (finished : Finished t) : status n t.log = .broken := by
  obtain hplace | hplace := finished
  · simp [Lost, hplace] at h
  · simpa [Lost, hplace] using h

/-- On every complete way of a huge packet its node is returned once, and not used afterwards,
exactly when the nodes agree at every step. -/
theorem node_returned_once_iff {ls : List Label} (start : Start n s) (run : Run Step s ls t)
    (finished : Finished t) : ReturnedOnce n t.log ↔ Run (Along Agrees Step) s ls t := by
  constructor
  · intro h
    obtain ⟨hrun, -⟩ | hlost := run.along_or (Inv.start start)
      (fun _ _ _ (h : Inv n _) hC hs => h.step hC hs)
      (fun _ _ _ h hC hs => h.lost hC hs) (fun _ _ _ (h : Lost n _) hs => h.step hs)
    · exact hrun
    · have hbroken := hlost.broken finished
      rw [status_returned_iff.mpr h] at hbroken
      cases hbroken
  · intro hrun
    have hinv : Inv n t := hrun.invariant (Inv.start start) fun _ _ _ h hs => h.step hs.1 hs.2
    exact status_returned_iff.mp (hinv.returned finished)

/-- The first interface is up and has the output node 2. -/
def sampleMain : SfMain where
  adminStatus i := if i = 1 then 1 else 0
  intfOutputNextIndex i := if i = 1 then 2 else 0
  hugepktOutputNextIndex i := if i = 1 then 2 else 0

/-- A flagged packet of two segments, 2000 and 1000 bytes long. -/
def samplePkt (interfaceOut : Nat) : HugePkt :=
  { Wdata.zero with
    currentLength := 2000
    interfaceId := 1
    interfaceOut
    unused8 := 5
    dataPtr := ⟨some 0, 0⟩
    helper := ⟨1000, 2, [⟨1, 0, 2000⟩, ⟨2, 0, 1000⟩]⟩ }

/-- The packet behind `sf_hugepkt_input`, in the node 7. -/
def sampleStart (interfaceOut : Nat) : State where
  main := sampleMain
  buffer := 1
  pkt := { samplePkt interfaceOut with
    currentLength := 3000
    dataPtr := allocHugePkt16k (some 7) }
  place := .graph
  log := [.take 7, .use 7, .use 7]

theorem sampleStart_start (interfaceOut : Nat) : Start 7 (sampleStart interfaceOut) := by
  have hshort : ¬sfHugePktMaxDataSize ≤ 1000 + 2000 := by decide
  have hflag : (5 : UInt8) &&& unused8FlagHugePkt ≠ 0 := by decide
  have hrun : handleHugePacket (some 7) (samplePkt interfaceOut) =
      ((sampleStart interfaceOut).pkt, 0, [2], (sampleStart interfaceOut).log) := by
    unfold handleHugePacket
    dsimp only [samplePkt]
    rw [if_neg hshort, if_neg (allocHugePkt16k_ne_null _)]
    rfl
  exact .received sampleMain 1 (samplePkt interfaceOut) hflag hrun

/-- The packet is sent on the first interface in two buffers. -/
theorem node_returned_once_iff_sent : ∃ t : State, t.place = .sent ∧ ReturnedOnce 7 t.log := by
  have hup : sampleMain.Up 1 := by decide
  have hindex : sampleMain.hugepktOutputNextIndex 1 ≠ 0 := by decide
  have hrun : Run (Along Agrees Step) (sampleStart 1)
      [.send, .pktOutput, .hugePktOutput false [5]] _ :=
    .cons ⟨trivial, rfl⟩ (.cons ⟨hup, rfl⟩ (.cons ⟨.inl hindex, rfl⟩ (.refl _)))
  exact ⟨_, rfl, (node_returned_once_iff (sampleStart_start 1) hrun.of_along (.inl rfl)).mpr hrun⟩

/-- A packet without an interface is freed by `sf_pkt_output` and by `sf_pkt_drop`. -/
theorem node_freed_twice : ∃ s t : State, Start 7 s ∧
    Run Step s [.send, .pktOutput, .pktDrop] t ∧ Finished t ∧ ¬ReturnedOnce 7 t.log := by
  refine ⟨sampleStart 0, _, sampleStart_start 0, .cons rfl (.cons rfl (.cons rfl (.refl _))),
    .inr rfl, ?_⟩
  rw [← status_returned_iff]
  decide

end Tapplet.Huge
