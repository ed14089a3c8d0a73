import Tapplet.Actions.Path

/-!
# Stacked encapsulations

What becomes of a packet whose action has encapsulations: the headers of those that are switched
on, the one of GRE outermost and the one of ERSPAN innermost, and the frame as it was behind them.
-/

namespace Tapplet.Actions

open Transition

/-- The header of an encapsulation with `len` bytes behind it, or nothing when it is switched
off. -/
def HeaderOf {α : Type} (spec : α → Nat → List UInt8 → Prop) (x : Option α) (len : Nat)
    (h : List UInt8) : Prop :=
  match x with
  | none => h = []
  | some a => spec a len h

/-- The frame of `q` is the one of `p` with the headers in front. -/
def Stacked (e : Encapsulations) (p q : Packet) : Prop :=
  ∃ gre vxlan erspan : List UInt8, q.frame = gre ++ vxlan ++ erspan ++ p.frame ∧
    HeaderOf GreHeader e.gre (vxlan ++ erspan ++ p.frame).length gre ∧
    HeaderOf VxlanHeader e.vxlan (erspan ++ p.frame).length vxlan ∧
    HeaderOf ErspanHeader e.erspan p.frame.length erspan

variable {d : Dataplane} {e : Encapsulations} {p : Packet} {a : Action} {len : Nat}
  {ns ms : List Node} {hs hs' : List UInt8}

@[simp] theorem Packet.length_frame : p.frame.length = p.currentLength.toNat := Memory.length_load

theorem Grown.append (h : Grown e len (ns ++ ms) hs hs') :
    ∃ mid, Grown e len ns hs mid ∧ Grown e len ms mid hs' := by
  induction ns generalizing hs with
  | nil => exact ⟨hs, rfl, h⟩
  | cons n ns ih =>
      obtain ⟨bytes, hbytes, hrest⟩ := h
      obtain ⟨mid, hmid, hms⟩ := ih hrest
      exact ⟨mid, ⟨bytes, hbytes, hmid⟩, hms⟩

/-- The header of a node that may be switched off. -/
theorem Grown.optional {α : Type} (n : Node) (spec : α → Nat → List UInt8 → Prop) (x : Option α)
    (hspec : ∀ len h, n.Header e len h → ∃ a, x = some a ∧ spec a len h)
    (h : Grown e len (if x.isSome then [n] else []) hs hs') :
    ∃ bytes, hs' = bytes ++ hs ∧ HeaderOf spec x (hs.length + len) bytes := by
  cases x with
  | none => exact ⟨[], h, rfl⟩
  | some a =>
      obtain ⟨bytes, hbytes, rfl⟩ := h
      obtain ⟨a', ha, hheader⟩ := hspec _ _ hbytes
      obtain rfl := Option.some.inj ha
      exact ⟨bytes, rfl, hheader⟩

/-- The headers of all nodes. -/
theorem Grown.stacked {q : Packet} (h : Grown e p.currentLength.toNat e.nodes [] hs)
    (hq : q.frame = hs ++ p.frame) : Stacked e p q := by
  obtain ⟨two, htwo, hthird⟩ := Grown.append h
  obtain ⟨one, hfirst, hsecond⟩ := htwo.append
  obtain ⟨erspan, rfl, herspan⟩ := hfirst.optional .erspan ErspanHeader e.erspan fun _ _ h => h
  obtain ⟨vxlan, rfl, hvxlan⟩ := hsecond.optional .vxlan VxlanHeader e.vxlan fun _ _ h => h
  obtain ⟨gre, rfl, hgre⟩ := hthird.optional .gre GreHeader e.gre fun _ _ h => h
  rw [List.append_nil] at hgre hvxlan hq
  refine ⟨gre, vxlan, erspan, ?_, ?_, ?_, ?_⟩
  · rw [hq, ← List.append_assoc gre]
  · rwa [List.length_append, p.length_frame]
  · rwa [List.length_append, p.length_frame]
  · rw [p.length_frame]
    rwa [List.length_nil, Nat.zero_add] at herspan

/-- The index behind the last node is none of a node that encapsulates. -/
theorem nodeAt_forward (hforward : a.type = ACTION_TYPE_FORWARD_INTERFACE ∨
    a.type = ACTION_TYPE_LOAD_BALANCE_INTERFACES) :
    nodeAt (actionTypeToNextIndex a.type) = none := by
  obtain h | h := hforward <;> rw [h] <;> rfl

section

variable (haction : d.conf.getAction p.argToNext = some a)
  (hforward : a.type = ACTION_TYPE_FORWARD_INTERFACE ∨ a.type = ACTION_TYPE_LOAD_BALANCE_INTERFACES)
  (hencap : a.additionalActions = e.toAdditional)
  (headroom : p.Headroom (e.nodes.map e.size).sum)

include haction hforward hencap headroom

/-- There is a way along the encapsulations to the node that forwards the packet. -/
theorem exists_forward :
    ∃ s t, Enters d p s ∧ Run (Visits d) s e.nodes t ∧ t.2 = actionTypeToNextIndex a.type := by
  have hs : Enters d p (getActionForwardPath d p) := enters_iff.mpr rfl
  have hunderway :=
    underway_enter haction hforward hencap (headroom.mono (Nat.zero_le _)) hs
  rw [← e.nodes.append_nil] at hunderway
  obtain ⟨hs', t, hrun, ht⟩ :=
    hunderway.exists_run (additional_of_getAction haction hencap) (fun _ h => h) headroom
  exact ⟨_, t, hs, hrun, ht.next_nil⟩

/-- No way leaves it. -/
theorem run_underway {s t : Arrival} {path : List Node} (hs : Enters d p s)
    (hrun : Run (Visits d) s path t) :
    ∃ rest bytes, e.nodes = path ++ rest ∧
      Underway d e p (actionTypeToNextIndex a.type) path rest bytes t :=
  (underway_enter haction hforward hencap (headroom.mono (Nat.zero_le _)) hs).run
    (additional_of_getAction haction hencap) (nodeAt_forward hforward) (fun _ h => h) headroom hrun

/-- At its end all headers are in front of the frame. -/
theorem run_stacked (complements : d.ChecksumComplements)
    (hshort : p.currentLength.toNat + (e.nodes.map e.size).sum < 2 ^ 16) {s t : Arrival}
    {path : List Node} (hs : Enters d p s) (hrun : Run (Visits d) s path t)
    (hend : nodeAt t.2 = none) :
    path = e.nodes ∧ t.2 = actionTypeToNextIndex a.type ∧ Stacked e p t.1 := by
  obtain ⟨rest, bytes, hnodes, ht⟩ :=
    run_underway haction hforward hencap headroom hs hrun
  cases rest with
  | nil =>
      rw [List.append_nil] at hnodes
      have hsize : p.currentLength.toNat + bytes.length < 2 ^ 16 := by
        rw [ht.size, ← hnodes]
        exact hshort
      refine ⟨hnodes.symm, ht.next_nil, Grown.stacked ?_ (ht.frame hsize)⟩
      rw [hnodes]
      exact ht.grown complements hsize
  | cons n rest =>
      rw [ht.next_cons, nodeAt_index] at hend
      cases hend

end

/-- With enough headroom, and a frame that stays below 65536 bytes, a packet visits the nodes of
the encapsulations that are switched on, whatever the vectors are that it is in and whichever of
the two loops takes it, and is forwarded with their headers in front of its frame. -/
theorem encapsulated_stacked (complements : d.ChecksumComplements)
    (haction : d.conf.getAction p.argToNext = some a)
    (hforward : a.type = ACTION_TYPE_FORWARD_INTERFACE ∨ a.type =
      ACTION_TYPE_LOAD_BALANCE_INTERFACES)
    (hencap : a.additionalActions = e.toAdditional)
    (headroom : p.Headroom (e.nodes.map e.size).sum)
    (hshort : p.currentLength.toNat + (e.nodes.map e.size).sum < 2 ^ 16) :
    (∃ s t, Enters d p s ∧ Run (Visits d) s e.nodes t ∧ nodeAt t.2 = none) ∧
    (∀ s path t, Enters d p s → Run (Visits d) s path t → path <+: e.nodes ∧
      (nodeAt t.2 = none → path = e.nodes ∧ t.2 = actionTypeToNextIndex a.type ∧
        Stacked e p t.1)) ∧
    (∀ ps rs, MainLoops d () ps () rs ↔ rs = ps.map (getActionForwardPath d)) ∧
    ∀ (n : Node) option ps option' rs, n.Loops d option ps option' rs ↔
      DualLoop.singles (n.single d) option ps = (option', rs) := by
  refine ⟨?_, ?_, ?_, ?_⟩
  · obtain ⟨s, t, hs, hrun, hnext⟩ := exists_forward haction hforward hencap headroom
    refine ⟨s, t, hs, hrun, ?_⟩
    rw [hnext]
    exact nodeAt_forward hforward
  · intro s path t hs hrun
    obtain ⟨rest, bytes, hnodes, -⟩ :=
      run_underway haction hforward hencap headroom hs hrun
    exact ⟨⟨rest, hnodes.symm⟩,
      run_stacked haction hforward hencap headroom complements hshort hs hrun⟩
  · exact fun ps rs => mainLoops_iff
  · exact fun n option ps option' rs => DualLoop.loops_iff (n.unrolled d)

/-- A destination over IPv4 or IPv6. -/
def sampleOuter (isIpv6 : Bool) : Outer where
  dmac := .replicate 6 2
  isIpv6 := isIpv6
  dip := .replicate (if isIpv6 then 16 else 4) 10
  dscp := 0
  length_dmac := rfl
  length_dip := List.length_replicate
  dscp_le := by decide

/-- All three encapsulations over IPv4. -/
def threeIpv4 : Encapsulations where
  gre := some (sampleOuter false)
  vxlan := some ⟨sampleOuter false, 7, 4789, by decide, by decide⟩
  erspan := some ⟨sampleOuter false, 9, ⟨0, by decide⟩, by decide⟩

/-- Every action forwards to interface 1 with the same encapsulations. -/
def sampleDataplane (e : Encapsulations) : Dataplane where
  conf := ⟨fun _ =>
    { resetActionConfigStruct with
      refCounter := 1
      type := ACTION_TYPE_FORWARD_INTERFACE
      forwardInterfaceId := 1
      additionalActions := e.toAdditional }⟩
  interfaces := fun _ => ⟨.replicate 6 4, .replicate 4 0, .replicate 16 0, rfl, rfl, rfl⟩
  ip4HeaderChecksum := fun u => 65535 - OnesComplement.sum (Reass.checksumWords u)

/-- A frame of 60 bytes at the start of its buffer. -/
def samplePacket : Packet where
  mem := fun _ => 0
  recvAt := -192
  currentData := 0
  currentLength := 60
  interfaceId := 1
  interfaceOut := 0
  l2HdrOffset := 0
  arg1ToNext := 1
  arg2ToNext := 0
  clock := 0

theorem encapsulated_stacked_three : ∃ s t, Enters (sampleDataplane threeIpv4) samplePacket s ∧
    Run (Visits (sampleDataplane threeIpv4)) s [.erspan, .vxlan, .gre] t ∧ t.2 = 4 ∧
    Stacked threeIpv4 samplePacket t.1 := by
  obtain ⟨⟨s, t, hs, hrun, hend⟩, hall, -⟩ :=
    @encapsulated_stacked (sampleDataplane threeIpv4) threeIpv4 samplePacket _
      (fun _ _ => .inl rfl) rfl (.inl rfl) rfl ⟨by decide, .inl (by decide)⟩ (by decide)
  obtain ⟨-, hlast, hstacked⟩ := (hall s _ t hs hrun).2 hend
  exact ⟨s, t, hs, hrun, hlast, hstacked⟩

end Tapplet.Actions
