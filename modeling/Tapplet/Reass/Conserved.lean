import Tapplet.Reass.Invariant

/-!
# No buffer is lost, no record is kept

Over every run of reassembly each buffer is in one place, and the arrays of the nodes are
never written beyond their ends. The nodes and timer infos of closed datagrams go back to
their pools, unless the datagram timed out.
-/

namespace Tapplet.Reass

open Linked GenericHash SfTimer Transition

variable {env : Env} {nenv : NodeEnv} {S T : System} {live : List Datagram}
  {kids : BufferId → List BufferId} {e : Event} {es : List Event}

/-! ## Buffers -/

/-- Where the buffers are when the waiting datagrams are `live`. Those that came in or were made
are those that were handed on, those of the datagrams and those of the built packets that
are on their way. `apart` leaves out what was enqueued already: those buffers may come in
again. -/
structure Conserved (env : Env) (S : System) (live : List Datagram) : Prop where
  table : Cache env S.worker live
  balance : (S.entered ++ S.created).Perm
    (S.handed ++ (cachedBuffers live ++ S.flying.flatMap S.worker.children))
  apart : ((S.posted .ip4 ++ S.posted .ip6).map Prod.fst ++
    (cachedBuffers live ++ S.flying.flatMap S.worker.children)).Nodup
  fits : S.Fits

theorem Parcel.children {s : Worker} {b : BufferId} {row : List BufferId} (h : Parcel s b row) :
    s.children b = row := by
  rw [Worker.children, Worker.chain, h.child, collect_of_seg h.row.linked h.short,
    Option.getD_some]

theorem Inv.conserved (h : Inv env S live kids) : Conserved env S live := by
  have hrows : S.flying.flatMap S.worker.children = S.flying.flatMap kids :=
    List.flatMap_congr fun b hb => (h.parcels b hb).children
  refine ⟨h.cache, ?_, ?_, h.fits⟩
  · rw [hrows]
    exact h.balance
  · rw [hrows]
    refine List.nodup_iff_count_le_one.mpr fun b => ?_
    have honce := h.once b
    have hcount := h.count_eq b
    rw [List.count_append]
    omega

/-- The invariant holds in every state that is reached. -/
theorem inv_of_run (room_pos : ∀ k, 0 < nenv.room k)
    (registered : nenv.nextIndexVec sfTwTimerGroupIpReass ≠ 0) {w : Worker} {arr : EnqueueArrays}
    {start interval : Nat} (hstart : start < 2 ^ 64) (hpos : 0 < interval)
    (run : Run (Step env nenv) (.init w arr start interval) es S) :
    ∃ live kids, Inv env S live kids := by
  refine run.invariant (I := fun S => ∃ live kids, Inv env S live kids)
    ⟨[], _, inv_init env w arr hstart hpos⟩ ?_
  rintro s e t ⟨live, kids, h⟩ hs
  exact h.step room_pos registered hs

/-- Packet buffers are conserved by reassembly. -/
theorem buffers_conserved (room_pos : ∀ k, 0 < nenv.room k)
    (registered : nenv.nextIndexVec sfTwTimerGroupIpReass ≠ 0) {w : Worker} {arr : EnqueueArrays}
    {start interval : Nat} (hstart : start < 2 ^ 64) (hpos : 0 < interval)
    (run : Run (Step env nenv) (.init w arr start interval) es S) :
    ∃ live, Conserved env S live := by
  obtain ⟨live, kids, h⟩ := inv_of_run room_pos registered hstart hpos run
  exact ⟨live, h.conserved⟩

/-! A sample run: two fragments of a datagram arrive, the second one first. -/

def sampleEnv : Env := ⟨fun _ => 0, fun _ => 0⟩

def sampleNodeEnv : NodeEnv := ⟨fun _ => 1, fun _ => 1⟩

def sampleWdata (b size : Nat) : Wdata :=
  { Wdata.zero with
    currentData := 14
    currentLength := 20 + size
    interfaceId := 1
    dataPtr := ⟨some b, 0⟩
    ipWdataCnt := 1
    ipWdata := ⟨14, 4, 6, 20, size, ⟨0, 0⟩, ⟨0, 0⟩, 1, 0⟩ }

/-- An IPv4 frame: its flags and offset, and a payload that starts with `x`. -/
def sampleBytes (flags offset : UInt8) (x : UInt8) : Nat → UInt8 := fun i =>
  if i = 20 then flags else if i = 21 then offset else if i = 34 then x else 0

/-- The `k`-th call of the pools. -/
def sampleOutside (k : Nat) : Outside where
  ipReassLayers := fun _ => 1
  ipReassOutputEnable := fun _ => 0
  newNode := some k
  newInfo := some (8 + k)
  newChunk := some k
  newHuge := some (100 + k)
  newBuffer := some (50 + k)

def sampleWorker : Worker where
  nodePool := ⟨[], []⟩
  timerRecord := fun _ => ⟨⟨0, 0⟩, 0, 0⟩
  timerData := fun _ => ⟨0, none⟩
  infoPool := ⟨[], []⟩
  tw := sfTwTimerInit 0 1 fun _ => ⟨none, 0, fun _ => 0⟩
  chunkHeld := []
  now := 0
  mem := fun _ _ => 0
  wdata := fun b => sampleWdata b 0
  record := fun _ => ⟨none, none, 0, 0, 0, 0, 0, 0⟩
  table := ⟨1, 0, 0, 0, 0, 0, 0, fun _ => ⟨0, none⟩, fun _ => none, fun _ => none⟩
  node := fun _ => .zero ⟨⟨0, 0⟩, ⟨0, 0⟩, 0, 0⟩
  hugePool := ⟨[], []⟩
  copies := []
  completed := []

def sampleArrays : EnqueueArrays := ⟨fun _ => 0, fun _ => 0, 0⟩

def sampleInit : System := .init sampleWorker sampleArrays 0 1

/-- The arrival of an IPv4 fragment in the buffer `b`. -/
def samplePacket (b : BufferId) (flags offset : UInt8) (size : Nat) : Event :=
  .packet .ip4 b (sampleWdata b size) (sampleBytes flags offset b.toUInt8) (sampleOutside b)

/-- The state after some events. -/
def sampleAfter (es : List Event) : System :=
  es.foldl (System.after sampleEnv sampleNodeEnv) sampleInit

def sampleEvents : List Event :=
  [samplePacket 2 0 1 8, samplePacket 1 32 0 8, .endFrame .ip4,
    .forward 51 { sampleWdata 1 8 with unused8 := 15 }]

theorem sampleRun : Run (Step sampleEnv sampleNodeEnv) sampleInit sampleEvents
    (sampleAfter sampleEvents) := by
  have hchecked : Checked Enabled (System.after sampleEnv sampleNodeEnv) sampleInit
      sampleEvents := by decide +kernel
  exact .of_checked (fun _ _ h => ⟨h, rfl⟩) hchecked

theorem buffers_conserved_two_fragments :
    ∃ live, Conserved sampleEnv (sampleAfter sampleEvents) live :=
  buffers_conserved (fun _ => Nat.one_pos) (by decide) (by decide) (by decide) sampleRun

/-! ## Nodes and timer infos -/

/-- A wheel that holds no chunk has no timers. -/
theorem timers_of_held {tw : SfTwTimer} {first : Option ChunkId} {chunks : Nat → List ChunkId}
    {expired : List ChunkId} {count : Nat} {waiting late : List Entry}
    (h : WheelInv tw first [] chunks expired count waiting late) : waiting = [] ∧ late = [] := by
  have hplaces := h.places.symm.eq_nil
  rw [List.append_eq_nil_iff, List.flatMap_eq_nil_iff] at hplaces
  obtain ⟨hchunks, rfl⟩ := hplaces
  constructor
  · refine List.eq_nil_iff_forall_not_mem.mpr fun e he => ?_
    have hlt := Nat.mod_lt e.due sfTwTimerBucketCnt_pos
    have hslots := (h.bucket _ hlt).slots
    rw [hchunks _ (List.mem_range.mpr hlt), List.flatMap_nil, eq_comm,
      List.map_eq_nil_iff] at hslots
    have hmem : e ∈ bucketEntries waiting (e.due % sfTwTimerBucketCnt) :=
      List.mem_filter.mpr ⟨he, by simp⟩
    rw [hslots] at hmem
    exact absurd hmem (by simp)
  · have hslots := h.expiredSlots
    rwa [List.flatMap_nil, eq_comm, List.map_eq_nil_iff] at hslots

/-- What was taken from the two pools and not returned. Each waiting datagram has its node and
its info, and each stopped timer that has not been delivered yet still has its info. -/
structure Released (env : Env) (S : System) (live : List Datagram) (stopped : List Nat) : Prop where
  table : Cache env S.worker live
  nodes : S.worker.nodePool.allocated.Perm (S.worker.nodePool.freed ++ live.map (·.node))
  nodesApart : (live.map (·.node)).Nodup
  infos : S.worker.infoPool.allocated.Perm
    (S.worker.infoPool.freed ++ (live.map (·.info) ++ stopped))
  infosApart : (live.map (·.info) ++ stopped).Nodup
  cleared : ∀ i ∈ stopped, S.worker.timerData i = ⟨0, none⟩
  idle : S.worker.chunkHeld = [] → S.pendingTimers = [] → live = [] ∧ stopped = []
  delivered : ∀ i ∈ S.pendingTimers, S.worker.timerData i = ⟨0, none⟩ ∨
    ∃ d ∈ live, d.info = i ∧ S.worker.timerData i = ⟨d.hashIndex env, some d.node⟩

theorem Inv.released (h : Inv env S live kids) (none_lost : S.timedOut = []) :
    ∃ stopped, Released env S live stopped := by
  obtain ⟨zombies, count, waiting, late, hbooks⟩ := h.books
  have hinfos := hbooks.infos
  have hapart := hbooks.apart
  rw [none_lost, List.append_nil] at hinfos hapart
  refine ⟨zombies, h.cache, hbooks.nodes, hbooks.nodesApart, hinfos, hapart, hbooks.zombie, ?_, ?_⟩
  · intro hheld hpending
    obtain ⟨chunks, expired, hwheel⟩ := hbooks.wheel
    rw [hheld] at hwheel
    obtain ⟨rfl, rfl⟩ := timers_of_held hwheel
    have htokens := hbooks.tokens
    rw [hpending] at htokens
    have hnil := htokens.symm.eq_nil
    rw [List.append_eq_nil_iff, List.map_eq_nil_iff] at hnil
    exact hnil
  · intro i hi
    have hmem := hbooks.tokens.mem_iff.mp (List.mem_append_right _ hi)
    rw [List.mem_append, List.mem_map] at hmem
    obtain ⟨d, hd, rfl⟩ | hmem := hmem
    · exact .inr ⟨d, hd, rfl, (hbooks.timers d hd).data⟩
    · exact .inl (hbooks.zombie i hmem)

/-- No timer is handled while its datagram is waiting. -/
def NoTimeout (S : System) : Event → Prop
  | .onTimer => ∀ info ∈ S.pendingTimers.head?, (S.worker.timerData info).pnode = none
  | _ => True

instance (S : System) : (e : Event) → Decidable (NoTimeout S e)
  | .onTimer => inferInstanceAs (Decidable (∀ info ∈ S.pendingTimers.head?, _ = none))
  | .packet .. | .endFrame _ | .clock _ | .poll | .forward .. => isTrue trivial

theorem timedOut_step (quiet : NoTimeout S e) (hs : Step env nenv S e T) :
    T.timedOut = S.timedOut := by
  obtain ⟨-, rfl⟩ := hs
  cases e with
  | onTimer =>
      rw [System.after, System.onTimer]
      cases hpending : S.pendingTimers with
      | nil => rfl
      | cons info rest =>
          have hnone := quiet info (by simp [hpending])
          simp [hnone]
  | _ => rfl

/-- Nodes and timer infos are returned exactly once, in runs in which no datagram times out. -/
theorem records_released_once (room_pos : ∀ k, 0 < nenv.room k)
    (registered : nenv.nextIndexVec sfTwTimerGroupIpReass ≠ 0) {w : Worker} {arr : EnqueueArrays}
    {start interval : Nat} (hstart : start < 2 ^ 64) (hpos : 0 < interval)
    (run : Run (Along NoTimeout (Step env nenv)) (.init w arr start interval) es S) :
    ∃ live stopped, Released env S live stopped := by
  obtain ⟨live, kids, h⟩ := inv_of_run room_pos registered hstart hpos run.of_along
  have hnone : S.timedOut = [] := by
    refine run.invariant (I := fun S => S.timedOut = []) rfl ?_
    rintro s e t hs ⟨quiet, hstep⟩
    rw [timedOut_step quiet hstep, hs]
  exact ⟨live, h.released hnone⟩

theorem sampleQuietRun : Run (Along NoTimeout (Step sampleEnv sampleNodeEnv)) sampleInit
    sampleEvents (sampleAfter sampleEvents) := by
  have hchecked : Checked (fun S e => NoTimeout S e ∧ Enabled S e)
      (System.after sampleEnv sampleNodeEnv) sampleInit sampleEvents := by decide +kernel
  exact .of_checked (fun _ _ h => ⟨h.1, h.2, rfl⟩) hchecked

theorem records_released_once_two_fragments :
    ∃ live stopped, Released sampleEnv (sampleAfter sampleEvents) live stopped :=
  records_released_once (fun _ => Nat.one_pos) (by decide) (by decide) (by decide) sampleQuietRun

/-- One fragment whose datagram times out. -/
def sampleTimeout : List Event :=
  [samplePacket 1 32 0 8, .endFrame .ip4, .clock 40, .poll, .onTimer]

/-- The info of a datagram that timed out is lost: no datagram is waiting and the wheel is empty,
but the info was not returned. -/
theorem timed_out_info_lost :
    ¬∀ es S, Run (Step sampleEnv sampleNodeEnv) sampleInit es S → Cache sampleEnv S.worker [] →
      S.worker.chunkHeld = [] → S.pendingTimers = [] →
      S.worker.infoPool.allocated.Perm S.worker.infoPool.freed := by
  intro claim
  have hchecked : Checked Enabled (System.after sampleEnv sampleNodeEnv) sampleInit
      sampleTimeout := by decide +kernel
  have hrun : Run (Step sampleEnv sampleNodeEnv) sampleInit sampleTimeout
      (sampleAfter sampleTimeout) := .of_checked (fun _ _ h => ⟨h, rfl⟩) hchecked
  have hpools : (sampleAfter sampleTimeout).worker.nodePool.allocated = [1] ∧
      (sampleAfter sampleTimeout).worker.nodePool.freed = [1] ∧
      (sampleAfter sampleTimeout).worker.infoPool.allocated = [9] ∧
      (sampleAfter sampleTimeout).worker.infoPool.freed = [] ∧
      (sampleAfter sampleTimeout).worker.chunkHeld = [] ∧
      (sampleAfter sampleTimeout).pendingTimers = [] := by decide +kernel
  obtain ⟨hnodes, hfreed, hinfos, hinfosFreed, hheld, hpending⟩ := hpools
  obtain ⟨live, kids, h⟩ := inv_of_run (fun _ => Nat.one_pos) (by decide) (by decide) (by decide)
    hrun
  obtain ⟨zombies, count, waiting, late, hbooks⟩ := h.books
  have hlength := hbooks.nodes.length_eq
  rw [hnodes, hfreed] at hlength
  obtain rfl : live = [] := by simpa using hlength
  have hperm := claim _ _ hrun h.cache hheld hpending
  rw [hinfos, hinfosFreed] at hperm
  exact absurd hperm.length_eq (by decide)

end Tapplet.Reass
