import Mathlib.Logic.Function.Basic
import Mathlib.Algebra.GroupWithZero.Nat
import Tapplet.Lib.Run
import Tapplet.Actions.Basic

/-!
# Interface statistics

Each thread counts the packets of each interface in a record of its own, and each device
counts in registers that wrap. `calculate_single_interface` takes what has been counted since
its last run over to the statistics in the shared memory. The threads go on counting in the
meantime: the copy of one thread's record is one step.

Rates per second, which are computed in floating point from the same differences, are left
out. A thread that takes a count back adds its negative in 64 bits.
-/

namespace Tapplet.Stat

open Actions (MAX_INTERFACE_CNT)

/-- The members that `for_earch_in_out_drop` goes through. -/
inductive InOutDrop where
  | inPackets
  | inOctets
  | outPackets
  | outOctets
  | dropPackets
deriving DecidableEq

/-- `packet_type_e`. -/
inductive PacketType where
  | error
  | vlan
  | mpls
  | gre
  | vxlan
  | netflowTemplate
  | netflowData
  | sflow
  | sslTls
deriving DecidableEq

/-- The members of `sf_intf_stat_pre_thread_t`. -/
inductive Member where
  | inOutDrop (name : InOutDrop)
  | packetTypePackets (k : PacketType)
  | packetTypeOctets (k : PacketType)
deriving DecidableEq

/-- The counters that a device has, apart from the mask. -/
inductive PhyMember where
  | rxPackets
  | rxOctets
  | rxError
  | rxMiss
  | txPackets
  | txOctets
  | txError
deriving DecidableEq

/-- `sf_port_statics_t`. -/
structure SfPortStatics where
  counter : PhyMember → BitVec 64
  mask : BitVec 64

/-- `intf_old_stat_t`. -/
structure IntfOldStat where
  count : Member → BitVec 64
  phy : PhyMember → BitVec 64
  phyMask : BitVec 64

/-- `intf_old_stat_t` after `memset` to zero. -/
def IntfOldStat.zero : IntfOldStat := ⟨fun _ => 0, fun _ => 0, 0⟩

/-- `sf_intf_stat_pre_thread_t`: for each member, one counter for each interface. -/
abbrev IntfStatPreThread := Member → Nat → BitVec 64

/-- `single_interface_stat_t`, without the rates and the counts of packet types, which
nothing adds to. -/
structure SingleInterfaceStat where
  total : InOutDrop → BitVec 64
  txErrorPackets : BitVec 64
  txOkPackets : BitVec 64
  rxMissPackets : BitVec 64

/-- `single_interface_stat_t` after `memset` to zero. -/
def SingleInterfaceStat.zero : SingleInterfaceStat := ⟨fun _ => 0, 0, 0, 0⟩

/-- `trans_port_statics_to_old_stat`. -/
def transPortStaticsToOldStat (portStatics : SfPortStatics) (newStat : IntfOldStat) :
    IntfOldStat :=
  { newStat with phy := portStatics.counter, phyMask := portStatics.mask }

/-- `update_single_intf_phy_statics`. `read` is what the driver gives for the interface, none
when it reports an error. -/
def updateSingleIntfPhyStatics (interfaceId : Nat) (newStat : IntfOldStat)
    (read : Option SfPortStatics) : Int × IntfOldStat :=
  if interfaceId = 0 ∨ interfaceId > MAX_INTERFACE_CNT then (-1, newStat)
  else
    match read with
    | none => (-1, newStat)
    | some portStatics => (0, transPortStaticsToOldStat portStatics newStat)

/-- `init_intf_phy_record`: the last statistics of an interface. -/
def initIntfPhyRecord (intfIndex : Nat) (lastStat : IntfOldStat) (read : Option SfPortStatics) :
    IntfOldStat :=
  (updateSingleIntfPhyStatics (intfIndex + 1) lastStat read).2

/-- The round of the loop of `calculate_single_interface` for one thread: what its record is
ahead of the old one. -/
def collectThread (intfIndex : Nat) (newRecord oldRecord : IntfStatPreThread)
    (newStat : IntfOldStat) : IntfOldStat :=
  { newStat with
    count := fun m => newStat.count m + (newRecord m intfIndex - oldRecord m intfIndex) }

/-- The old record after the round. -/
def keepRecord (intfIndex : Nat) (newRecord oldRecord : IntfStatPreThread) : IntfStatPreThread :=
  fun m => Function.update (oldRecord m) intfIndex (newRecord m intfIndex)

/-- The end of `calculate_single_interface`. -/
def addInterval (lastStat newStat : IntfOldStat) (target : SingleInterfaceStat) :
    SingleInterfaceStat :=
  let total := fun name => target.total name + newStat.count (.inOutDrop name)
  let rxMissPackets :=
    target.rxMissPackets + ((newStat.phy .rxMiss - lastStat.phy .rxMiss) &&& newStat.phyMask)
  let txOkPackets :=
    target.txOkPackets + ((newStat.phy .txPackets - lastStat.phy .txPackets) &&& newStat.phyMask)
  { total
    rxMissPackets
    txOkPackets
    txErrorPackets :=
      if txOkPackets ≤ total .outPackets then total .outPackets - txOkPackets
      else target.txErrorPackets }

/-! ## Devices -/

/-- What a device has counted, and the width of its registers. -/
structure Device where
  width : Nat
  count : PhyMember → Nat

/-- What the driver reads from a device. -/
def Device.read (d : Device) : SfPortStatics where
  counter m := BitVec.ofNat 64 (d.count m % 2 ^ d.width)
  mask := BitVec.ofNat 64 (2 ^ d.width - 1)

/-! ## States -/

/-- A run of `calculate_single_interface` between two of its steps. -/
structure Pass where
  intfIndex : Nat
  /-- the thread whose record is copied next -/
  thread : Nat
  newStat : IntfOldStat

/-- What has happened to the counters; none of it is in the source. -/
structure History where
  /-- the sum of what each thread has added to a counter -/
  made : Nat → Member → Nat → Nat
  /-- the same when its record was copied last -/
  seen : Nat → Member → Nat → Nat
  /-- the sum of the interval totals of the runs that have ended -/
  collected : Member → Nat → Nat
  /-- the interval total of the run that goes on -/
  interval : Member → Nat
  /-- the counts of a device when the statistics began -/
  first : Nat → PhyMember → Nat
  /-- the counts that the last run has read -/
  last : Nat → PhyMember → Nat
  /-- the counts at the last successful read -/
  readAt : Nat → PhyMember → Nat

structure State where
  statMain : Nat → IntfStatPreThread
  oldRecord : Nat → IntfStatPreThread
  oldStat : Nat → IntfOldStat
  interfaces : Nat → SingleInterfaceStat
  device : Nat → Device
  pass : Option Pass
  history : History

/-- The state after the first round of `calculate_interface_stat_process`, which reads the
physical counters of the interfaces. `failed` says for which of them that failed, or was not
done; for these the statistics begin with a count of zero. -/
def State.start (device : Nat → Device) (failed : Nat → Bool) : State :=
  let begin : Nat → PhyMember → Nat := fun i m =>
    if failed i ∨ i + 1 > MAX_INTERFACE_CNT then 0 else (device i).count m
  { statMain := fun _ _ _ => 0
    oldRecord := fun _ _ _ => 0
    oldStat := fun i =>
      initIntfPhyRecord i .zero (if failed i then none else some (device i).read)
    interfaces := fun _ => .zero
    device
    pass := none
    history :=
      { made := fun _ _ _ => 0
        seen := fun _ _ _ => 0
        collected := fun _ _ => 0
        interval := fun _ => 0
        first := begin
        last := begin
        readAt := begin } }

inductive Event where
  /-- a thread adds to one of its counters -/
  | add (thread : Nat) (m : Member) (intfIndex : Nat) (d : BitVec 64)
  /-- a device counts -/
  | count (intfIndex : Nat) (m : PhyMember) (d : Nat)
  /-- `calculate_single_interface` is called, and its physical read succeeds or fails -/
  | call (intfIndex : Nat) (failed : Bool)
  /-- the record of the next thread is copied -/
  | copy
  /-- `calculate_single_interface` returns -/
  | finish
deriving DecidableEq

/-- A table with one entry changed. -/
def set₂ {α β γ : Type*} [DecidableEq α] [DecidableEq β] (f : α → β → γ) (a : α) (b : β) (x : γ) :
    α → β → γ :=
  Function.update f a (Function.update (f a) b x)

namespace State

def add (s : State) (j : Nat) (m : Member) (i : Nat) (d : BitVec 64) : State :=
  { s with
    statMain := Function.update s.statMain j (set₂ (s.statMain j) m i (s.statMain j m i + d))
    history := { s.history with
      made := Function.update s.history.made j
        (set₂ (s.history.made j) m i (s.history.made j m i + d.toNat)) } }

def count (s : State) (i : Nat) (m : PhyMember) (d : Nat) : State :=
  { s with
    device := Function.update s.device i
      { s.device i with
        count := Function.update (s.device i).count m ((s.device i).count m + d) } }

/-- `calculate_single_interface` up to the loop over the threads. -/
def call (s : State) (i : Nat) (failed : Bool) : State :=
  match updateSingleIntfPhyStatics (i + 1) .zero
    (if failed then none else some (s.device i).read) with
  | (0, newStat) =>
      { s with
        pass := some ⟨i, 0, newStat⟩
        history := { s.history with
          interval := fun _ => 0
          readAt := Function.update s.history.readAt i (s.device i).count } }
  | _ => s

/-- The copy of the record of the next thread. -/
def copy (s : State) : State :=
  match s.pass with
  | none => s
  | some p =>
      let j := p.thread
      { s with
        oldRecord := Function.update s.oldRecord j
          (keepRecord p.intfIndex (s.statMain j) (s.oldRecord j))
        pass := some { p with
          thread := j + 1
          newStat := collectThread p.intfIndex (s.statMain j) (s.oldRecord j) p.newStat }
        history := { s.history with
          seen := Function.update s.history.seen j fun m =>
            Function.update (s.history.seen j m) p.intfIndex (s.history.made j m p.intfIndex)
          interval := fun m => s.history.interval m +
            (s.history.made j m p.intfIndex - s.history.seen j m p.intfIndex) } }

def finish (s : State) : State :=
  match s.pass with
  | none => s
  | some p =>
      let i := p.intfIndex
      { s with
        interfaces := Function.update s.interfaces i
          (addInterval (s.oldStat i) p.newStat (s.interfaces i))
        oldStat := Function.update s.oldStat i p.newStat
        pass := none
        history := { s.history with
          collected := fun m =>
            Function.update (s.history.collected m) i
              (s.history.collected m i + s.history.interval m)
          interval := fun _ => 0
          last := Function.update s.history.last i (s.history.readAt i) } }

end State

/-- The state after an event. -/
def State.after (s : State) : Event → State
  | .add j m i d => s.add j m i d
  | .count i m d => s.count i m d
  | .call i failed => s.call i failed
  | .copy => s.copy
  | .finish => s.finish

/-- A device counts less than its modulus between two successful reads, and runs follow one
after the other. `threads` is `TOTAL_THREAD_CNT`. -/
def Enabled (threads : Nat) (s : State) : Event → Prop
  | .add j _ _ _ => j < threads
  | .count i m d => (s.device i).count m + d - s.history.readAt i m < 2 ^ (s.device i).width
  | .call _ _ => s.pass = none
  | .copy => ∃ p ∈ s.pass, p.thread < threads
  | .finish => ∃ p ∈ s.pass, p.thread = threads

instance (threads : Nat) (s : State) (e : Event) : Decidable (Enabled threads s e) := by
  cases e <;> unfold Enabled <;> infer_instance

def Step (threads : Nat) (s : State) (e : Event) (t : State) : Prop :=
  Enabled threads s e ∧ t = s.after e

end Tapplet.Stat
