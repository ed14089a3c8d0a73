import Mathlib.Order.Lattice.Nat
import Tapplet.Lib.DualLoop
import Tapplet.Reass.Packet
import Tapplet.Acl.Classify
import Tapplet.Acl.Hits
import Tapplet.Intf.Document

/-!
# The entry to the actions

`sf_acl_entry` has rte_acl classify a vector of packets, and sends each of them on with the action
that its interface has for the rule. The results lie in an array; the loops, which take two packets
or one, find the result of a packet by its number.

An access to the configuration of the interfaces beyond its arrays is `none`.
-/

namespace Tapplet.Acl

open Hits Intf
open Reass (BufferId)

def UNUSED8_FLAG_IP_REASS_PKT : UInt8 := (1 : UInt8) <<< 3

/-- `sf_wdata_t` as far as it is used here. `decoded` is what rte_acl reads. -/
structure PktWdata where
  currentData : UInt16
  currentLength : UInt16
  interfaceId : UInt8
  l2HdrOffset : UInt8
  unused8 : UInt8
  argToNext : UInt32
  decoded : SfWdata

instance : Inhabited PktWdata := ⟨⟨0, 0, 0, 0, 0, 0, resetPktWdata (.replicate 64 0)⟩⟩

/-- The nodes behind `sf_acl_entry`. -/
inductive EntryNext where
  | sfActionMain
  | ipReassForward
deriving DecidableEq

/-- `sf_wqe_reset_wdata` -/
def sfWqeResetWdata (w : PktWdata) : PktWdata :=
  { w with
    currentLength := w.currentLength + (w.currentData - w.l2HdrOffset.toUInt16)
    currentData := w.l2HdrOffset.toUInt16 }

instance (i : Nat) : Decidable (InArray i) := inferInstanceAs (Decidable (_ ∧ _))

/-- `get_interface_rule_to_action` -/
def getInterfaceRuleToAction (conf : Intf.Conf) (intfId : UInt8) (ruleId : Nat) : Option UInt8 :=
  if h : InArray intfId.toNat ∧ 1 ≤ ruleId ∧ ruleId - 1 < MAX_ACL_RULE_COUNT then
    some ((conf intfId.toNat).ruleToAction ⟨ruleId - 1, h.2.2⟩)
  else none

/-- `get_interface_default_action` -/
def getInterfaceDefaultAction (conf : Intf.Conf) (intfId : UInt8) : Option UInt8 :=
  if InArray intfId.toNat then some (conf intfId.toNat).defaultActionId else none

/-- `update_acl_rule_hit_quick` -/
def updateAclRuleHitQuick (hits : Nat → BitVec 32) (workerIndex groupIndex ruleId : Nat) :
    Nat → BitVec 32 :=
  Function.update hits (hitIndex workerIndex groupIndex ruleId)
    (hits (hitIndex workerIndex groupIndex ruleId) + 1)

/-- The next node of a packet. -/
def entryNext (w : PktWdata) : EntryNext :=
  if w.unused8 &&& UNUSED8_FLAG_IP_REASS_PKT ≠ 0 then .ipReassForward else .sfActionMain

/-- A result is counted. -/
def countResult (workerIndex : Nat) (hits : Nat → BitVec 32) (result : Nat) : Nat → BitVec 32 :=
  if result ≠ 0 then updateAclRuleHitQuick hits workerIndex 0 result else hits

/-- The action of a rule. -/
def ruleAction (conf : Intf.Conf) (result : Nat) (w : PktWdata) : Option PktWdata :=
  if result ≠ 0 then
    (getInterfaceRuleToAction conf w.interfaceId result).map fun a =>
      { w with argToNext := a.toUInt32 }
  else some w

/-- The default action, where there is none yet. -/
def defaultAction (conf : Intf.Conf) (w : PktWdata) : Option PktWdata :=
  if w.argToNext = 0 then
    (getInterfaceDefaultAction conf w.interfaceId).map fun a => { w with argToNext := a.toUInt32 }
  else some w

/-- The counters of the rules, and `pkt_index`. -/
abbrev EntryState := (Nat → BitVec 32) × Nat

/-- A packet that leaves. -/
abbrev EntryOut := BufferId × EntryNext × Option PktWdata

section

variable (conf : Intf.Conf) (workerIndex : Nat) (data : Nat → PktWdata) (results : Nat → Nat)

/-- The loop for one packet. -/
def sfAclEntrySingle (s : EntryState) (bi0 : BufferId) : EntryState × EntryOut :=
  let pktWdata0 := sfWqeResetWdata (data s.2)
  let result0 := results s.2
  let next0 := entryNext pktWdata0
  let pktWdata0 := { pktWdata0 with argToNext := 0 }
  let hits := countResult workerIndex s.1 result0
  let pktWdata0 := ruleAction conf result0 pktWdata0
  ((hits, s.2 + 1), bi0, next0, pktWdata0.bind (defaultAction conf))

/-- The loop for two packets. -/
def sfAclEntryPair (s : EntryState) (bi0 bi1 : BufferId) : EntryState × EntryOut × EntryOut :=
  let pktWdata0 := data s.2
  let pktWdata1 := data (s.2 + 1)
  let result0 := results s.2
  let result1 := results (s.2 + 1)
  let pktWdata0 := sfWqeResetWdata pktWdata0
  let pktWdata1 := sfWqeResetWdata pktWdata1
  let next0 := entryNext pktWdata0
  let next1 := entryNext pktWdata1
  let pktWdata0 := { pktWdata0 with argToNext := 0 }
  let pktWdata1 := { pktWdata1 with argToNext := 0 }
  let hits := countResult workerIndex s.1 result0
  let pktWdata0 := ruleAction conf result0 pktWdata0
  let hits := countResult workerIndex hits result1
  let pktWdata1 := ruleAction conf result1 pktWdata1
  let pktWdata0 := pktWdata0.bind (defaultAction conf)
  let pktWdata1 := pktWdata1.bind (defaultAction conf)
  ((hits, s.2 + 2), (bi0, next0, pktWdata0), bi1, next1, pktWdata1)

end

/-- `sf_acl_entry_node`. The arrays are filled for the packets that there are. -/
def SfAclEntryNode (acl : RteAcl) (context : Option RteAclCtx) (conf : Intf.Conf)
    (workerIndex : Nat) (frame : List (BufferId × PktWdata)) (hits hits' : Nat → BitVec 32)
    (out : List EntryOut) : Prop :=
  ∃ data results,
    (∀ (k : Nat) x, frame[k]? = some x →
      data k = x.2 ∧ results k = sfAclEntryResult acl context x.2.decoded) ∧
    DualLoop.Loops (sfAclEntrySingle conf workerIndex data results)
      (sfAclEntryPair conf workerIndex data results) 2 (hits, 0) (frame.map Prod.fst)
      (hits', frame.length) out

/-! ## What it is for -/

open Classical in
/-- The first of these rules. -/
noncomputable def firstRule (rules : Set Nat) : Option Nat :=
  if rules.Nonempty then some (sInf rules) else none

/-- The rule of a tuple, the first of those that accept it. -/
noncomputable def selected (s : Conf) (g : Nat) (t : Tuple) : Option Nat :=
  firstRule (accepting s g t)

/-- The action that an interface has for a rule; action 0 is none. -/
def boundAction (i : Interface) : Option Nat → UInt8
  | none => i.defaultActionId
  | some o =>
      if h : o - 1 < MAX_ACL_RULE_COUNT then
        if i.ruleToAction ⟨o - 1, h⟩ = 0 then i.defaultActionId else i.ruleToAction ⟨o - 1, h⟩
      else i.defaultActionId

/-- A packet in front of its action, with the window set back. -/
def directed (conf : Intf.Conf) (w : PktWdata) (rule : Option Nat) : PktWdata :=
  { sfWqeResetWdata w with
    argToNext := (boundAction (conf w.interfaceId.toNat) rule).toUInt32 }

variable {env : Env} {s : Conf} {conf : Intf.Conf} {workerIndex : Nat} {w : PktWdata}

/-- What rte_acl is asked for is the rule of the tuple. -/
theorem Stored.result_selected {g : Nat} (stored : Stored env s g) (pton : InetPtonLength env)
    (acl : RteAcl) : ∃ context, rteAclTableSetup acl s g = some context ∧ ∀ wdata,
      sfAclEntryResult acl context wdata = (selected s g wdata.tuple).getD 0 := by
  obtain ⟨context, hsetup, hresult⟩ := stored.rteAclTableSetup_spec acl
  refine ⟨context, hsetup, fun wdata => ?_⟩
  rw [hresult, selected, firstRule]
  obtain hleast | ⟨hnone, hzero⟩ := stored.classify_isLeast pton acl wdata
  · rw [if_pos ⟨_, hleast.1⟩, Option.getD_some, hleast.csInf_eq]
  · rw [hzero, if_neg (Set.not_nonempty_iff_eq_empty.mpr hnone)]
    rfl

theorem Stored.selected_range {g o : Nat} {t : Tuple} (stored : Stored env s g)
    (h : selected s g t = some o) : 1 ≤ o ∧ o ≤ MAX_RULE_PER_GROUP := by
  rw [selected, firstRule] at h
  split at h
  next hsome =>
    obtain ⟨f, a, hmap, -⟩ := Nat.sInf_mem hsome
    obtain ⟨hne, hle, -⟩ := stored.forward _ f a hmap
    rw [Option.some.inj h] at hne hle
    exact ⟨Nat.one_le_iff_ne_zero.mpr hne, hle⟩
  next => cases h

theorem toUInt32_eq_zero {a : UInt8} : a.toUInt32 = 0 ↔ a = 0 := by
  rw [← UInt32.toNat_inj, ← UInt8.toNat_inj, UInt8.toNat_toUInt32]
  rfl

/-- The action is the one of the rule, and no access is outside. -/
theorem action_eq (hid : InArray w.interfaceId.toNat) {rule : Option Nat}
    (hrange : ∀ o, rule = some o → 1 ≤ o ∧ o ≤ MAX_RULE_PER_GROUP) :
    (ruleAction conf (rule.getD 0) { sfWqeResetWdata w with argToNext := 0 }).bind
      (defaultAction conf) = some (directed conf w rule) := by
  have hdefault : getInterfaceDefaultAction conf w.interfaceId =
      some (conf w.interfaceId.toNat).defaultActionId := if_pos hid
  cases rule with
  | none =>
      show defaultAction conf { sfWqeResetWdata w with argToNext := 0 } = _
      rw [defaultAction, if_pos rfl]
      show (getInterfaceDefaultAction conf w.interfaceId).map _ = _
      rw [hdefault]
      rfl
  | some o =>
      obtain ⟨hpos, hle⟩ := hrange o rfl
      have hlt : o - 1 < MAX_ACL_RULE_COUNT := by
        rw [MAX_RULE_PER_GROUP, MAX_TUPLE4_RULE_PER_GROUP, MAX_TUPLE6_RULE_PER_GROUP] at hle
        rw [MAX_ACL_RULE_COUNT]
        omega
      have hrule : getInterfaceRuleToAction conf w.interfaceId o =
          some ((conf w.interfaceId.toNat).ruleToAction ⟨o - 1, hlt⟩) := dif_pos ⟨hid, hpos, hlt⟩
      rw [Option.getD_some, ruleAction, if_pos (Nat.ne_of_gt hpos)]
      show ((getInterfaceRuleToAction conf w.interfaceId o).map _).bind _ = _
      rw [hrule, directed, boundAction, dif_pos hlt]
      show defaultAction conf _ = _
      rw [defaultAction]
      split
      next hzero =>
        rw [if_pos (toUInt32_eq_zero.mp hzero)]
        show (getInterfaceDefaultAction conf w.interfaceId).map _ = _
        rw [hdefault]
        rfl
      next hne => rw [if_neg fun hzero => hne (toUInt32_eq_zero.mpr hzero)]

/-- Every counter has been raised by the number of packets whose rule it is. -/
theorem countResult_selected (hits : Nat → BitVec 32) (rule : Option Nat)
    (hpos : ∀ o, rule = some o → 1 ≤ o) (i : Nat) :
    countResult workerIndex hits (rule.getD 0) i =
      hits i + if rule.map (hitIndex workerIndex 0) = some i then 1 else 0 := by
  cases rule with
  | none =>
      show hits i = _
      simp
  | some o =>
      have hne : o ≠ 0 := Nat.ne_of_gt (hpos o rfl)
      rw [Option.getD_some, countResult, if_pos hne, updateAclRuleHitQuick, Function.update_apply,
        Option.map_some]
      by_cases hi : i = hitIndex workerIndex 0 o
      · rw [if_pos hi, if_pos (congrArg some hi.symm), hi]
      · rw [if_neg hi, if_neg fun h => hi (Option.some.inj h).symm]
        exact (BitVec.add_zero (hits i)).symm

/-- Over a vector a counter has been raised by the number of packets whose rule it is. -/
theorem foldl_countResult {α : Type} (rule : α → Option Nat) (xs : List α)
    (hpos : ∀ x ∈ xs, ∀ o, rule x = some o → 1 ≤ o) (hits : Nat → BitVec 32) (i : Nat) :
    xs.foldl (fun hits x => countResult workerIndex hits ((rule x).getD 0)) hits i =
      hits i + BitVec.ofNat 32
        (xs.countP fun x => (rule x).map (hitIndex workerIndex 0) = some i) := by
  induction xs generalizing hits with
  | nil => simp
  | cons x xs ih =>
      have hx := @countResult_selected workerIndex hits (rule x) (hpos x (by simp)) i
      rw [List.foldl_cons, ih (fun y hy => hpos y (by simp [hy])), hx, List.countP_cons,
        BitVec.add_assoc, BitVec.add_right_inj]
      by_cases hi : (rule x).map (hitIndex workerIndex 0) = some i
      · simp [hi, BitVec.ofNat_add, BitVec.add_comm]
      · simp [hi]

/-! ## The loops -/

section

variable {data : Nat → PktWdata} {results : Nat → Nat}

theorem sfAclEntry_unrolled : DualLoop.Unrolled (sfAclEntrySingle conf workerIndex data results)
    (sfAclEntryPair conf workerIndex data results) := fun _ _ _ => rfl

/-- A packet with its number. -/
def entryOut (conf : Intf.Conf) (data : Nat → PktWdata) (results : Nat → Nat)
    (x : BufferId × Nat) : EntryOut :=
  (x.1, entryNext (sfWqeResetWdata (data x.2)),
    (ruleAction conf (results x.2) { sfWqeResetWdata (data x.2) with argToNext := 0 }).bind
      (defaultAction conf))

/-- Whichever loop takes a packet, it gets the result with its number. -/
theorem sfAclEntry_singles (hits : Nat → BitVec 32) (bis : List BufferId) :
    DualLoop.singles (sfAclEntrySingle conf workerIndex data results) (hits, 0) bis =
      (((bis.zipIdx.foldl (fun hits x => countResult workerIndex hits (results x.2)) hits),
        bis.length), bis.zipIdx.map (entryOut conf data results)) := by
  have h := DualLoop.singles_zipIdx (fun hits x =>
    (countResult workerIndex hits (results x.2), entryOut conf data results x)) hits 0 bis
  rw [DualLoop.singles_foldl, Nat.zero_add] at h
  exact h

end

/-- An array that is filled for a list is read as the list. -/
theorem map_zipIdx {α β γ : Type} (frame : List α) (key : α → β) {f : β × Nat → γ} {g : α → γ}
    (h : ∀ (k : Nat) x, frame[k]? = some x → f (key x, k) = g x) :
    (frame.map key).zipIdx.map f = frame.map g := by
  apply List.ext_getElem?
  intro k
  rw [List.getElem?_map, List.getElem?_zipIdx, List.getElem?_map, List.getElem?_map, Nat.zero_add]
  cases hx : frame[k]? with
  | none => rfl
  | some x => exact congrArg some (h k x hx)

section

variable (stored : Stored env s 1) {acl : RteAcl} {context : Option RteAclCtx}
  {frame : List (BufferId × PktWdata)}
  (hids : ∀ x ∈ frame, InArray x.2.interfaceId.toNat)
  (hresult : ∀ wdata, sfAclEntryResult acl context wdata = (selected s 1 wdata.tuple).getD 0)
  {data : Nat → PktWdata} {results : Nat → Nat}
  (hfilled : ∀ (k : Nat) x, frame[k]? = some x →
    data k = x.2 ∧ results k = sfAclEntryResult acl context x.2.decoded)

include stored hids hresult hfilled

theorem Stored.entryOut_eq : (frame.map Prod.fst).zipIdx.map (entryOut conf data results) =
    frame.map fun x =>
      (x.1, entryNext x.2, some (directed conf x.2 (selected s 1 x.2.decoded.tuple))) := by
  apply map_zipIdx
  intro k x hx
  obtain ⟨hdata, hres⟩ := hfilled k x hx
  have haction := @action_eq conf x.2 (hids x (List.mem_of_getElem? hx))
    (selected s 1 x.2.decoded.tuple) fun o h => stored.selected_range h
  rw [entryOut, hdata, hres, hresult, haction]
  rfl

omit hids in
theorem Stored.counted_eq (hits : Nat → BitVec 32) :
    (frame.map Prod.fst).zipIdx.foldl (fun hits x => countResult workerIndex hits (results x.2))
      hits =
    fun i => hits i + BitVec.ofNat 32 (frame.countP fun x =>
      (selected s 1 x.2.decoded.tuple).map (hitIndex workerIndex 0) = some i) := by
  have hresults : (frame.map Prod.fst).zipIdx.map (fun x => results x.2) =
      frame.map fun x => (selected s 1 x.2.decoded.tuple).getD 0 := by
    apply map_zipIdx
    intro k x hx
    obtain ⟨-, hres⟩ := hfilled k x hx
    rw [hres, hresult]
  have hfold : (frame.map Prod.fst).zipIdx.foldl
      (fun hits x => countResult workerIndex hits (results x.2)) hits =
      ((frame.map Prod.fst).zipIdx.map fun x => results x.2).foldl (countResult workerIndex) hits :=
    List.foldl_map.symm
  funext i
  rw [hfold, hresults, List.foldl_map]
  exact foldl_countResult _ frame (fun x _ o h => (stored.selected_range h).1) hits i

theorem Stored.loops_iff {hits hits' : Nat → BitVec 32} {out : List EntryOut} :
    DualLoop.Loops (sfAclEntrySingle conf workerIndex data results)
        (sfAclEntryPair conf workerIndex data results) 2 (hits, 0) (frame.map Prod.fst)
        (hits', frame.length) out ↔
      hits' = (fun i => hits i + BitVec.ofNat 32 (frame.countP fun x =>
        (selected s 1 x.2.decoded.tuple).map (hitIndex workerIndex 0) = some i)) ∧
      out = frame.map fun x =>
        (x.1, entryNext x.2, some (directed conf x.2 (selected s 1 x.2.decoded.tuple))) := by
  rw [DualLoop.loops_iff sfAclEntry_unrolled, sfAclEntry_singles,
    stored.entryOut_eq hids hresult hfilled, stored.counted_eq hresult hfilled, List.length_map,
    Prod.mk.injEq, Prod.mk.injEq]
  exact ⟨fun h => ⟨h.1.1.symm, h.2.symm⟩, fun h => ⟨⟨h.1.symm, rfl⟩, h.2.symm⟩⟩

end

/-- In whichever loop a packet is handled, it leaves with its window set back and with the action
that its interface has for the first rule that accepts its tuple, and the counters are raised for
the rules that were found. No access is outside an array. -/
theorem sfAclEntryNode_iff (acl : RteAcl) (pton : InetPtonLength env) (stored : Stored env s 1)
    (conf : Intf.Conf) (workerIndex : Nat) (frame : List (BufferId × PktWdata))
    (hids : ∀ x ∈ frame, InArray x.2.interfaceId.toNat) :
    ∃ context, rteAclTableSetup acl s 1 = some context ∧ ∀ hits hits' out,
      SfAclEntryNode acl context conf workerIndex frame hits hits' out ↔
        hits' = (fun i => hits i + BitVec.ofNat 32 (frame.countP fun x =>
          (selected s 1 x.2.decoded.tuple).map (hitIndex workerIndex 0) = some i)) ∧
        out = frame.map fun x =>
          (x.1, entryNext x.2, some (directed conf x.2 (selected s 1 x.2.decoded.tuple))) := by
  obtain ⟨context, hsetup, hresult⟩ := stored.result_selected pton acl
  refine ⟨context, hsetup, fun hits hits' out => ⟨?_, fun h => ?_⟩⟩
  · rintro ⟨data, results, hfilled, hloops⟩
    exact (stored.loops_iff hids hresult hfilled).mp hloops
  · have hfilled (k : Nat) (x : BufferId × PktWdata) (hx : frame[k]? = some x) :
        (frame[k]?.elim default Prod.snd : PktWdata) = x.2 ∧
          (frame[k]?.elim 0 fun x => sfAclEntryResult acl context x.2.decoded) =
            sfAclEntryResult acl context x.2.decoded := by
      rw [hx]
      exact ⟨rfl, rfl⟩
    exact ⟨_, _, hfilled, (stored.loops_iff hids hresult hfilled).mpr h⟩

end Tapplet.Acl
