import Tapplet.Actions.RoundTrip
import Tapplet.Actions.Stacked

/-!
# The space in front of a packet

The headers of an action go to the pre-data area of the buffer, 128 bytes in front of its data.
Nothing adds up their sizes: a body may switch on encapsulations that do not fit together, and the
metadata of the packet, with the list of its nodes, end where the area starts.
-/

namespace Tapplet.Actions

open Transition

/-- An accepted body, as `put_action_config` stores it. What counts the weights may have changed
since then. -/
def Admitted (env : Env) (a : Action) : Prop :=
  ∃ id data b c, transDictToActionStruct env id data resetActionConfigStruct = .ok b ∧
    b.stored = some c ∧ SameTreatment a c

/-- The packet lies in its buffer, behind its metadata, and its frame starts at the head. -/
structure AtHead (p : Packet) : Prop where
  recvAt : p.recvAt = -VLIB_BUFFER_PRE_DATA_SIZE - 64
  currentData : p.currentData = 0
  l2HdrOffset : p.l2HdrOffset = 0

/-- The header that a node puts in front of `p`, which gives `q`, lies in the pre-data area or in
the buffer. -/
def HeaderInside (p q : Packet) : Prop :=
  ∀ i : Int, q.currentData.toInt ≤ i → i < p.currentData.toInt →
    -VLIB_BUFFER_PRE_DATA_SIZE ≤ i ∧ i < VLIB_BUFFER_DATA_SIZE

/-- Every header that a node writes for the packet lies in the pre-data area or in the buffer. -/
def HeadersInside (d : Dataplane) (p : Packet) : Prop :=
  ∀ s path t n u, Enters d p s → Run (Visits d) s path t → Visits d t n u → HeaderInside t.1 u.1

/-- The encapsulations that fit together. All three do when they are over IPv4 and the one of
ERSPAN has no header of its own. Over IPv6, ERSPAN with a header of its own does not fit with
VXLAN, and with the longer one not with GRE. -/
def AdditionalActions.FitsPreData (a : AdditionalActions) : Prop :=
  (a.flagErspanEncapsulation ∧ a.flagVxlanEncapsulation ∧ a.flagGreEncapsulation →
    a.erspanType = 1 ∧ a.erspan.dipType = 4 ∧ a.vxlan.dipType = 4 ∧ a.gre.dipType = 4) ∧
  (a.flagErspanEncapsulation ∧ a.flagVxlanEncapsulation →
    ¬(a.erspanType ≠ 1 ∧ a.erspan.dipType = 6 ∧ a.vxlan.dipType = 6)) ∧
  (a.flagErspanEncapsulation ∧ a.flagGreEncapsulation →
    ¬(a.erspanType = 3 ∧ a.erspan.dipType = 6 ∧ a.gre.dipType = 6))

/-! ## Sizes -/

variable {e : Encapsulations}

theorem sum_sizes (e : Encapsulations) :
    (e.nodes.map e.size).sum = e.size .erspan + e.size .vxlan + e.size .gre := by
  rw [Encapsulations.nodes, List.map_append, List.map_append, List.sum_append, List.sum_append]
  congr 1
  · congr 1
    · cases h : e.erspan with
      | none => rw [Encapsulations.size, h]; rfl
      | some r => rfl
    · cases h : e.vxlan with
      | none => rw [Encapsulations.size, h]; rfl
      | some v => rfl
  · cases h : e.gre with
    | none => rw [Encapsulations.size, h]; rfl
    | some o => rfl

/-- The switch, the version of the outer header and the size of the headers of GRE. -/
def greSizes : List (Bool × UInt8 × Nat) := [(false, 0, 0), (true, 4, 38), (true, 6, 58)]

def vxlanSizes : List (Bool × UInt8 × Nat) := [(false, 0, 0), (true, 4, 50), (true, 6, 70)]

/-- The switch, the type, the version of the outer header and the size of the headers of
ERSPAN. -/
def erspanSizes : List (Bool × UInt8 × UInt8 × Nat) :=
  [(false, 0, 0, 0), (true, 1, 4, 38), (true, 1, 6, 58), (true, 2, 4, 50), (true, 2, 6, 70),
    (true, 3, 4, 54), (true, 3, 6, 74)]

theorem mem_greSizes (e : Encapsulations) :
    (e.toAdditional.flagGreEncapsulation, e.toAdditional.gre.dipType, e.size .gre) ∈ greSizes := by
  rw [Encapsulations.toAdditional, Encapsulations.size]
  cases e.gre with
  | none => exact show (false, zeroTunnel.dipType, 0) ∈ greSizes by decide
  | some o =>
      show (true, o.toTunnel.dipType, ETH_HEADER_LEN + o.ipLen + GRE_HEADER_LEN) ∈ greSizes
      rw [dipType_toTunnel, Outer.ipLen]
      cases o.isIpv6 <;> decide

theorem mem_vxlanSizes (e : Encapsulations) :
    (e.toAdditional.flagVxlanEncapsulation, e.toAdditional.vxlan.dipType, e.size .vxlan) ∈
      vxlanSizes := by
  rw [Encapsulations.toAdditional, Encapsulations.size]
  cases e.vxlan with
  | none => exact show (false, zeroTunnel.dipType, 0) ∈ vxlanSizes by decide
  | some v =>
      show (true, v.outer.toTunnel.dipType,
        ETH_HEADER_LEN + v.outer.ipLen + (UDP_HEADER_LEN + VXLAN_HEADER_LEN)) ∈ vxlanSizes
      rw [dipType_toTunnel, Outer.ipLen]
      cases v.outer.isIpv6 <;> decide

theorem mem_erspanSizes (e : Encapsulations) :
    (e.toAdditional.flagErspanEncapsulation, e.toAdditional.erspanType,
      e.toAdditional.erspan.dipType, e.size .erspan) ∈ erspanSizes := by
  rw [Encapsulations.toAdditional, Encapsulations.size]
  cases e.erspan with
  | none => exact show (false, 0, zeroTunnel.dipType, 0) ∈ erspanSizes by decide
  | some r =>
      show (true, UInt8.ofNat (r.type.val + 1), r.outer.toTunnel.dipType,
        ETH_HEADER_LEN + r.outer.ipLen + r.innerLen) ∈ erspanSizes
      have hlt : r.type.val < 3 := r.type.isLt
      rw [dipType_toTunnel, Outer.ipLen, Erspan.innerLen]
      obtain h | h | h : r.type.val = 0 ∨ r.type.val = 1 ∨ r.type.val = 2 := by omega
      all_goals
        rw [h]
        cases r.outer.isIpv6 <;> decide

set_option synthInstance.maxSize 256 in
/-- The headers take no more than the pre-data area exactly when they fit together. -/
theorem sum_sizes_le_iff (e : Encapsulations) :
    (e.nodes.map e.size).sum ≤ VLIB_BUFFER_PRE_DATA_SIZE ↔ e.toAdditional.FitsPreData := by
  have hall : ∀ r ∈ erspanSizes, ∀ v ∈ vxlanSizes, ∀ g ∈ greSizes,
      (r.2.2.2 + v.2.2 + g.2.2 ≤ VLIB_BUFFER_PRE_DATA_SIZE ↔
        (r.1 ∧ v.1 ∧ g.1 → r.2.1 = 1 ∧ r.2.2.1 = 4 ∧ v.2.1 = 4 ∧ g.2.1 = 4) ∧
        (r.1 ∧ v.1 → ¬(r.2.1 ≠ 1 ∧ r.2.2.1 = 6 ∧ v.2.1 = 6)) ∧
        (r.1 ∧ g.1 → ¬(r.2.1 = 3 ∧ r.2.2.1 = 6 ∧ g.2.1 = 6))) := by
    decide
  rw [sum_sizes]
  exact hall _ (mem_erspanSizes e) _ (mem_vxlanSizes e) _ (mem_greSizes e)

/-- No header takes more than the longest one of ERSPAN. -/
theorem size_le (e : Encapsulations) (n : Node) : e.size n ≤ 74 := by
  have hgre : ∀ g ∈ greSizes, g.2.2 ≤ 74 := by decide
  have hvxlan : ∀ v ∈ vxlanSizes, v.2.2 ≤ 74 := by decide
  have herspan : ∀ r ∈ erspanSizes, r.2.2.2 ≤ 74 := by decide
  cases n with
  | gre => exact hgre _ (mem_greSizes e)
  | vxlan => exact hvxlan _ (mem_vxlanSizes e)
  | erspan => exact herspan _ (mem_erspanSizes e)

/-- The first node whose header goes beyond a bound. -/
theorem exists_beyond {bound : Nat} {ns : List Node} (h : bound < (ns.map e.size).sum) :
    ∃ done n more, ns = done ++ n :: more ∧ (done.map e.size).sum ≤ bound ∧
      bound < (done.map e.size).sum + e.size n := by
  induction ns generalizing bound with
  | nil => exact absurd h (Nat.not_lt_zero _)
  | cons n ns ih =>
      rw [List.map_cons, List.sum_cons] at h
      by_cases hn : bound < e.size n
      · exact ⟨[], n, ns, rfl, Nat.zero_le _, by rwa [List.map_nil, List.sum_nil, Nat.zero_add]⟩
      · obtain ⟨done, m, more, rfl, hle, hlt⟩ := @ih (bound - e.size n) (by omega)
        refine ⟨n :: done, m, more, rfl, ?_, ?_⟩
        all_goals
          rw [List.map_cons, List.sum_cons]
          omega

/-! ## What is accepted -/

/-- The type and the encapsulations of an accepted body. -/
theorem Admitted.encapsulations {env : Env} {a : Action}
    (pton : Acl.InetPtonLength env.rest.acl) (h : Admitted env a) :
    (a.type = ACTION_TYPE_DROP ∨ a.type = ACTION_TYPE_FORWARD_INTERFACE ∨
      a.type = ACTION_TYPE_LOAD_BALANCE_INTERFACES) ∧
    ∃ e : Encapsulations, a.additionalActions = e.toAdditional := by
  obtain ⟨id, data, b, c, hdata, hstored, hsame⟩ := h
  have hsame' := Action.stored_same hstored
  obtain ⟨members, basis, b', rfl, -, hbasis, hcases⟩ := transDictToActionStruct_cases hdata
  have hbasic : (b'.type = ACTION_TYPE_DROP ∨ b'.type = ACTION_TYPE_FORWARD_INTERFACE ∨
      b'.type = ACTION_TYPE_LOAD_BALANCE_INTERFACES) ∧
      b'.additionalActions = Encapsulations.none.toAdditional := by
    obtain rfl | ⟨i, valid, rfl⟩ | ⟨entries, rfl, hread⟩ := basicActions_cases hbasis
    · exact ⟨.inl rfl, rfl⟩
    · exact ⟨.inr (.inl rfl), rfl⟩
    · obtain ⟨names, ids, r, array, -, -, -, hmode, hr, -, rfl⟩ := hread
      obtain ⟨m, ws, -, -, -, -, rfl⟩ := basicLoadBalance_read hmode hr
      exact ⟨.inr (.inr rfl), rfl⟩
  obtain ⟨htype, hnone⟩ := hbasic
  rw [hsame.type, hsame'.type, hsame.additionalActions, hsame'.additionalActions]
  obtain rfl | ⟨addi, additional, hadditional, rfl⟩ := hcases
  · exact ⟨htype, .none, hnone⟩
  · rw [hnone] at hadditional
    unfold transActionContentAddiActions at hadditional
    split at hadditional
    next => exact ⟨htype, transAddiActions_ok pton hadditional⟩
    next => cases hadditional

/-! ## Headers -/

section

variable {d : Dataplane} {p : Packet} {a : Action}

theorem AtHead.headroom (h : AtHead p) {n : Nat} (hn : n ≤ VLIB_BUFFER_PRE_DATA_SIZE) :
    p.Headroom n := by
  obtain ⟨hrecv, hcurrent, -⟩ := h
  have hsize : VLIB_BUFFER_PRE_DATA_SIZE = 128 := rfl
  have hzero : p.currentData.toInt = 0 := congrArg Int16.toInt hcurrent
  exact ⟨by omega, by omega⟩

/-- A packet that is dropped visits no node. -/
theorem headersInside_of_drop (haction : d.conf.getAction p.argToNext = some a)
    (hdrop : a.type = ACTION_TYPE_DROP) : HeadersInside d p := by
  intro s path t n u hs hrun hvisit
  obtain rfl := enters_iff.mp hs
  have haction' : d.conf.getAction (p.arg1ToNext.toNat + 65536 * p.arg2ToNext.toNat) = some a :=
    haction
  have hnext : (getActionForwardPath d p).2 = SF_NEXT_NODE_SF_PKT_DROP := by
    rw [getActionForwardPath, haction']
    exact congrArg Prod.snd (if_pos (.inl (Int.le_of_eq hdrop)))
  have hnone : nodeAt (getActionForwardPath d p).2 = none := by
    rw [hnext]
    rfl
  have hstop : ∀ m u, ¬Visits d (getActionForwardPath d p) m u := by
    intro m u hfirst
    have hsome := hnone.symm.trans hfirst.1
    cases hsome
  cases hrun with
  | refl => exact absurd hvisit (hstop _ _)
  | cons hfirst _ => exact absurd hfirst (hstop _ _)

/-- The headers lie inside when all of them fit, and the first one that does not fit lies
outside. -/
theorem headersInside_iff_sum (haction : d.conf.getAction p.argToNext = some a)
    (hforward : a.type = ACTION_TYPE_FORWARD_INTERFACE ∨ a.type =
      ACTION_TYPE_LOAD_BALANCE_INTERFACES)
    (hencap : a.additionalActions = e.toAdditional) (head : AtHead p) :
    HeadersInside d p ↔ (e.nodes.map e.size).sum ≤ VLIB_BUFFER_PRE_DATA_SIZE := by
  have hconf := additional_of_getAction haction hencap
  have hzero : p.currentData.toInt = 0 := congrArg Int16.toInt head.currentData
  have hsize : VLIB_BUFFER_PRE_DATA_SIZE = 128 := rfl
  constructor
  · intro hinside
    by_contra hbeyond
    obtain ⟨done, n, more, hnodes, hle, hlt⟩ := exists_beyond (Nat.not_le.mp hbeyond)
    have hmem : ∀ m ∈ done ++ n :: more, m ∈ e.nodes := fun m hm => hnodes ▸ hm
    have hs : Enters d p (getActionForwardPath d p) := enters_iff.mpr rfl
    have hunderway :=
      underway_enter haction hforward hencap (head.headroom (Nat.zero_le _)) hs
    rw [hnodes] at hunderway
    obtain ⟨hs', t, hrun, ht⟩ := hunderway.exists_run hconf
      (fun m hm => hmem m (List.mem_append_left _ hm)) (head.headroom hle)
    have hvisit : Visits d t n (n.single d 0 t.1).2 := by
      apply visits_iff.mpr
      refine ⟨?_, 0, rfl⟩
      rw [ht.next_cons, nodeAt_index]
    -- The next header starts in front of the area, and is not empty.
    have hconf' : (getActionPtrNocheck d t.1).additionalActions = e.toAdditional := by
      rw [getActionPtrNocheck, ht.arg1ToNext, hconf]
    obtain ⟨bytes, hbytes⟩ := n.encap_encapsulates 0 hconf'
      (hmem n (List.mem_append_right _ List.mem_cons_self))
    have hlength : hs'.length = (done.map e.size).sum := ht.size
    have hcurrent := ht.current
    have hsmall := size_le e n
    have hstart : (n.single d 0 t.1).2.1.currentData.toInt =
        t.1.currentData.toInt - bytes.length := by
      refine Eq.trans ?_ (@Packet.prepend_current t.1 bytes ?_)
      · exact congrArg Int16.toInt
          (hbytes.gets.listOnly.trans Packet.listOnly_pop).currentData
      · rw [hbytes.length]
        omega
    rw [hbytes.length] at hstart
    have hlow := (hinside _ _ _ _ _ hs hrun hvisit _ (Int.le_refl _) (by omega)).1
    omega
  · intro hfits s path t n u hs hrun hvisit
    obtain ⟨rest, bytes, hnodes, hu⟩ := run_underway haction hforward hencap
      (head.headroom hfits) hs (hrun.trans (.cons hvisit (.refl u)))
    obtain ⟨rest', bytes', hnodes', ht⟩ :=
      run_underway haction hforward hencap (head.headroom hfits) hs hrun
    have hlength : bytes.length = ((path ++ [n]).map e.size).sum := hu.size
    have hcurrent := hu.current
    have hcurrent' := ht.current
    have hsum : (e.nodes.map e.size).sum =
        ((path ++ [n]).map e.size).sum + (rest.map e.size).sum := by
      rw [hnodes, ← List.sum_append, ← List.map_append]
    intro i hlow hhigh
    have hbuffer : VLIB_BUFFER_DATA_SIZE = 2048 := rfl
    omega

/-- The headers of an action that was accepted lie in the pre-data area or in the buffer exactly
when it drops the packet or its encapsulations fit together. -/
theorem headers_inside_iff {env : Env} (pton : Acl.InetPtonLength env.rest.acl)
    (admitted : Admitted env a) (haction : d.conf.getAction p.argToNext = some a)
    (head : AtHead p) :
    HeadersInside d p ↔ a.type = ACTION_TYPE_DROP ∨ a.additionalActions.FitsPreData := by
  obtain ⟨htype, e, hencap⟩ := admitted.encapsulations pton
  obtain hdrop | hforward := htype
  · exact ⟨fun _ => .inl hdrop, fun _ => headersInside_of_drop haction hdrop⟩
  · have hdrop : a.type ≠ ACTION_TYPE_DROP := by
      obtain h | h := hforward <;> rw [h] <;> decide
    rw [headersInside_iff_sum haction hforward hencap head, sum_sizes_le_iff, hencap]
    exact (or_iff_right hdrop).symm

end

/-- All three encapsulations over IPv6. -/
def threeIpv6 : Encapsulations where
  gre := some (sampleOuter true)
  vxlan := threeIpv4.vxlan.map fun v => { v with outer := sampleOuter true }
  erspan := threeIpv4.erspan.map fun r => { r with outer := sampleOuter true }

/-- A body that forwards to interface 1 is accepted with any encapsulations. -/
theorem sample_admitted (e : Encapsulations) :
    Admitted fourPorts ((sampleDataplane e).conf.actions 1) := by
  let plan : Plan fourPorts := ⟨.forward 1 ⟨by decide, by decide⟩, e⟩
  have hdocument : transDictToActionStruct fourPorts 1 plan.document resetActionConfigStruct =
      .ok plan.toAction := transDictToActionStruct_text (Acl.addressText _) takesDigits_sample plan
  exact ⟨1, plan.document, plan.toAction, _, hdocument, rfl, ⟨rfl, rfl, rfl, rfl, rfl, rfl, rfl⟩⟩

theorem samplePacket_atHead : AtHead samplePacket := ⟨rfl, rfl, rfl⟩

theorem headers_inside_three : HeadersInside (sampleDataplane threeIpv4) samplePacket := by
  have hpton : Acl.InetPtonLength fourPorts.rest.acl := (Acl.addressText _).length
  apply (headers_inside_iff hpton (sample_admitted threeIpv4) rfl samplePacket_atHead).mpr
  exact .inr ((sum_sizes_le_iff threeIpv4).mp (by decide))

/-- The three encapsulations over IPv6 are accepted, and take 186 bytes. -/
theorem headers_outside : ¬∀ (env : Env) (d : Dataplane) (a : Action) (p : Packet),
    Acl.InetPtonLength env.rest.acl → Admitted env a → d.conf.getAction p.argToNext = some a →
      AtHead p → HeadersInside d p := by
  intro h
  have hinside := h fourPorts (sampleDataplane threeIpv6) _ samplePacket
    (Acl.addressText _).length (sample_admitted threeIpv6) rfl samplePacket_atHead
  have hsum := (headersInside_iff_sum rfl (.inl rfl) rfl samplePacket_atHead).mp hinside
  exact absurd hsum (show ¬(threeIpv6.nodes.map threeIpv6.size).sum ≤ _ by decide)

end Tapplet.Actions
