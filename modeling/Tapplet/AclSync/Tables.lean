import Tapplet.Lib.Run
import Mathlib.Data.List.Nodup
import Mathlib.Logic.Function.Basic

/-!
# Swapping the classifier tables

`sync_rte_tuple_rules` builds a new classifier context from the rules, installs it in
`sf_acl_main.v46_context` and frees the context it replaced, while the workers classify
packets with the installed one. A context is created under one of two names; the name that
is used next is flipped when a context has been installed. There is one rule group
(`MAX_RULE_GROUP_CNT` is 1), so the names and the installed context are not indexed.

Of DPDK the model keeps the contexts that exist under each name. `rte_acl_create` returns
the existing context of a name; otherwise it makes a new one or fails. Contexts are
numbered in the order of their creation, so that an address used again is a new context.
-/

namespace Tapplet.AclSync.Tables

open Transition

/-- A context of `rte_acl`. -/
abbrev Ctx := Nat

/-- An index into `table_name_model`. -/
abbrev NameModel := Bool

/-- What `rte_acl` keeps: the contexts by name, how many have been created, and the contexts
that `rte_acl_free` has been called for. -/
structure Dpdk where
  table : List (NameModel × Ctx)
  count : Nat
  freed : List Ctx
deriving DecidableEq

/-- `rte_acl_create`; `room` says whether a new context can be allocated. -/
def rteAclCreate (d : Dpdk) (name : NameModel) (room : Bool) : Option Ctx × Dpdk :=
  match d.table.lookup name with
  | some context => (some context, d)
  | none =>
      if room then
        (some d.count, { d with table := (name, d.count) :: d.table, count := d.count + 1 })
      else (none, d)

/-- `rte_acl_free` -/
def rteAclFree (d : Dpdk) (context : Ctx) : Dpdk :=
  { d with
    table := d.table.filter fun e => e.2 ≠ context
    freed := context :: d.freed }

/-- `rte_acl_table_free` -/
def rteAclTableFree (d : Dpdk) : Option Ctx → Dpdk
  | none => d
  | some context => rteAclFree d context

/-- What the steps of one `rte_acl_table_setup` answer: whether a context can be allocated,
the results of `rte_acl_set_ctx_classify`, `rte_acl_table_add_rules` and `rte_acl_build`. -/
structure SetupAnswers where
  room : Bool
  setClassify : Int
  addRules : Int
  build : Int
deriving DecidableEq

/-- `rte_acl_table_setup`: the value returned, `*ret_ctx` if the value is 0, and `rte_acl`. -/
def rteAclTableSetup (preTableNameModel : NameModel) (d : Dpdk) (a : SetupAnswers) :
    Int × Option Ctx × Dpdk :=
  match rteAclCreate d preTableNameModel a.room with
  | (none, d) => (-1, none, d)
  | (some context, d) =>
      if a.setClassify ≠ 0 then (-1, none, rteAclFree d context)
      else if a.addRules < 0 then (-1, none, rteAclFree d context)
      else if a.addRules = 0 then (0, none, rteAclFree d context)
      else if a.build ≠ 0 then (-1, none, rteAclFree d context)
      else (0, some context, d)

/-- Where the thread that runs `sync_rte_tuple_rules` stands: outside, before the setup, in
`sf_rte_table_sync` before the lock of worker `i`, or before the flip of the name.
`v46Context` and `swapContext` are its local variables. -/
inductive Control where
  | idle
  | setup (checkSync : Bool)
  | passing (i : Nat) (v46Context swapContext : Option Ctx)
  | release (checkSync : Bool) (v46Context swapContext : Option Ctx)
deriving DecidableEq

/-- Where a worker stands in `sf_acl_entry_node`: without its lock, or holding it with the
context it has read last. -/
inductive Worker where
  | outside
  | locked (context : Option Ctx)
deriving DecidableEq

/-- The state of all threads. `freedUnchecked` logs the contexts that were replaced without
`check_sync`. -/
structure State where
  v46Context : Option Ctx
  preTableNameModel : NameModel
  rteAcl : Dpdk
  control : Control
  worker : Nat → Worker
  freedUnchecked : List Ctx

def State.init : State where
  v46Context := none
  preTableNameModel := false
  rteAcl := ⟨[], 0, []⟩
  control := .idle
  worker := fun _ => .outside
  freedUnchecked := []

inductive Event where
  /-- `sync_rte_tuple_rules` is called -/
  | start (checkSync : Bool)
  /-- `rte_acl_table_setup`, and the new context is installed -/
  | setup (a : SetupAnswers)
  /-- the next lock in `sf_rte_table_sync` is taken and released -/
  | pass
  /-- the name is flipped and the replaced context freed -/
  | release
  /-- a worker takes its lock -/
  | lock (w : Nat)
  /-- a worker reads `sf_acl_main.v46_context` -/
  | read (w : Nat)
  /-- a worker releases its lock -/
  | unlock (w : Nat)
deriving DecidableEq

/-- One step of one thread, for `workerNum` workers. -/
def next (workerNum : Nat) (s : State) : Event → Option State
  | .start checkSync =>
      match s.control with
      | .idle => some { s with control := .setup checkSync }
      | _ => none
  | .setup a =>
      match s.control with
      | .setup checkSync =>
          let (ret, v46Context, d) := rteAclTableSetup s.preTableNameModel s.rteAcl a
          if ret ≠ 0 then some { s with rteAcl := d, control := .idle }
          else some { s with
            rteAcl := d
            v46Context
            control := if checkSync then .passing 0 v46Context s.v46Context
              else .release checkSync v46Context s.v46Context }
      | _ => none
  | .pass =>
      match s.control with
      | .passing i v46Context swapContext =>
          if i < workerNum then
            if s.worker i = .outside then
              some { s with control := .passing (i + 1) v46Context swapContext }
            else none
          else some { s with control := .release true v46Context swapContext }
      | _ => none
  | .release =>
      match s.control with
      | .release checkSync v46Context swapContext => some { s with
          preTableNameModel :=
            if v46Context.isSome then !s.preTableNameModel else s.preTableNameModel
          rteAcl := rteAclTableFree s.rteAcl swapContext
          control := .idle
          freedUnchecked :=
            if checkSync then s.freedUnchecked else swapContext.toList ++ s.freedUnchecked }
      | _ => none
  | .lock w =>
      if w < workerNum ∧ s.worker w = .outside then
        some { s with worker := Function.update s.worker w (.locked none) }
      else none
  | .read w =>
      match s.worker w with
      | .locked _ =>
          some { s with worker := Function.update s.worker w (.locked s.v46Context) }
      | .outside => none
  | .unlock w =>
      match s.worker w with
      | .locked _ => some { s with worker := Function.update s.worker w .outside }
      | .outside => none

def Step (workerNum : Nat) (s : State) (e : Event) (t : State) : Prop := next workerNum s e = some t

/-- The contexts that exist and the freed ones are the created ones, each of them once. -/
def Dpdk.Conserved (d : Dpdk) : Prop :=
  (d.table.map Prod.snd ++ d.freed).Perm (List.range d.count)

namespace Dpdk.Conserved

variable {d : Dpdk} (h : d.Conserved)
include h

theorem lt_of_mem {e : NameModel × Ctx} (he : e ∈ d.table) : e.2 < d.count :=
  List.mem_range.mp (h.mem_iff.mp (List.mem_append_left _ (List.mem_map_of_mem he)))

theorem nodup : (d.table.map Prod.snd ++ d.freed).Nodup :=
  h.nodup_iff.mpr List.nodup_range

/-- A context that exists has not been freed. -/
theorem notMem_freed {e : NameModel × Ctx} (he : e ∈ d.table) : e.2 ∉ d.freed := fun hfreed =>
  (List.nodup_append.mp h.nodup).2.2 e.2 (List.mem_map_of_mem he) e.2 hfreed rfl

/-- A new context. -/
theorem create (name : NameModel) :
    Conserved ⟨(name, d.count) :: d.table, d.count + 1, d.freed⟩ := by
  simp only [Conserved, List.map_cons, List.cons_append, List.range_succ]
  exact (h.cons d.count).trans (List.perm_append_singleton _ _).symm

/-- Freeing the context that was created last takes its entry away again. -/
theorem rteAclFree_last (name : NameModel) :
    rteAclFree ⟨(name, d.count) :: d.table, d.count + 1, d.freed⟩ d.count =
      ⟨d.table, d.count + 1, d.count :: d.freed⟩ := by
  have hkeep : d.table.filter (fun e => decide ¬e.2 = d.count) = d.table :=
    List.filter_eq_self.mpr fun e he => by simpa using Nat.ne_of_lt (h.lt_of_mem he)
  simp only [rteAclFree, ne_eq, List.filter_cons, not_true, decide_false, Bool.false_eq_true,
    if_false, hkeep]

end Dpdk.Conserved

/-- What `rte_acl_table_setup` does when its name is not in use: it fails or finds no rules and
leaves the existing contexts alone, or it returns a new context. -/
theorem rteAclTableSetup_cases {name : NameModel} {d : Dpdk} (a : SetupAnswers)
    (h : d.Conserved) (hname : d.table.lookup name = none) :
    (∃ ret d', rteAclTableSetup name d a = (ret, none, d') ∧ d'.Conserved ∧
      d'.table = d.table ∧ d.count ≤ d'.count ∧ (∀ c < d.count, c ∈ d'.freed → c ∈ d.freed)) ∨
    (∃ d', rteAclTableSetup name d a = (0, some d.count, d') ∧ d'.Conserved ∧
      d'.table = (name, d.count) :: d.table ∧ d'.count = d.count + 1 ∧ d'.freed = d.freed) := by
  have hfreed : Dpdk.Conserved ⟨d.table, d.count + 1, d.count :: d.freed⟩ := by
    have hcreate := h.create name
    simp only [Dpdk.Conserved, List.map_cons, List.cons_append] at hcreate ⊢
    exact List.perm_middle.trans hcreate
  have hleft (ret : Int) : ∃ ret' d', ((ret, none,
      (⟨d.table, d.count + 1, d.count :: d.freed⟩ : Dpdk)) : Int × Option Ctx × Dpdk) =
        (ret', none, d') ∧ d'.Conserved ∧ d'.table = d.table ∧ d.count ≤ d'.count ∧
        (∀ c < d.count, c ∈ d'.freed → c ∈ d.freed) := by
    refine ⟨ret, _, rfl, hfreed, rfl, Nat.le_succ _, fun c hc hmem => ?_⟩
    rcases List.mem_cons.mp hmem with rfl | hmem
    · exact absurd hc (Nat.lt_irrefl _)
    · exact hmem
  simp only [rteAclTableSetup, rteAclCreate, hname]
  by_cases hroom : a.room
  · simp only [hroom, if_true, h.rteAclFree_last]
    split
    · exact .inl (hleft _)
    split
    · exact .inl (hleft _)
    split
    · exact .inl (hleft _)
    split
    · exact .inl (hleft _)
    · exact .inr ⟨_, rfl, h.create name, rfl, rfl, rfl⟩
  · simp only [hroom]
    exact .inl ⟨-1, d, rfl, h, rfl, Nat.le_refl _, fun _ _ hmem => hmem⟩

/-- The contexts that the sync thread knows of, by the names they were created under. -/
def State.owned (s : State) : List (NameModel × Ctx) :=
  match s.control with
  | .idle | .setup _ => s.v46Context.toList.map fun c => (!s.preTableNameModel, c)
  | .passing _ v46Context swapContext | .release _ v46Context swapContext =>
      v46Context.toList.map (fun c => (s.preTableNameModel, c)) ++
        swapContext.toList.map fun c => (!s.preTableNameModel, c)

/-- The workers before `i` do not use the context that is being replaced. -/
def Passed (s : State) (i : Nat) (swapContext : Option Ctx) : Prop :=
  ∀ w < i, ∀ c, swapContext = some c → s.worker w ≠ .locked (some c)

structure Inv (workerNum : Nat) (s : State) : Prop where
  conserved : s.rteAcl.Conserved
  table : s.rteAcl.table = s.owned
  installed : ∀ v swap, (∃ i, s.control = .passing i v swap) ∨
    (∃ check, s.control = .release check v swap) → s.v46Context = v
  passed : ∀ i v swap, s.control = .passing i v swap → Passed s i swap
  released : ∀ v swap, s.control = .release true v swap → Passed s workerNum swap
  created : ∀ w c, s.worker w = .locked (some c) → c < s.rteAcl.count
  unchecked : ∀ w c, s.worker w = .locked (some c) → c ∈ s.rteAcl.freed →
    c ∈ s.freedUnchecked
  workers : ∀ w, workerNum ≤ w → s.worker w = .outside

theorem inv_init (workerNum : Nat) : Inv workerNum State.init :=
  ⟨.refl _, rfl, by simp [State.init], by simp [State.init], by simp [State.init],
    by simp [State.init], by simp [State.init], fun _ _ => rfl⟩

namespace Inv

variable {workerNum : Nat} {s t : State}

/-- The installed context exists. -/
theorem installed_mem (h : Inv workerNum s) {c : Ctx} (hc : s.v46Context = some c) :
    ∃ name, (name, c) ∈ s.rteAcl.table := by
  rw [h.table, State.owned]
  split
  · exact ⟨_, by rw [hc]; simp; rfl⟩
  · exact ⟨_, by rw [hc]; simp; rfl⟩
  · next i v swap hcontrol =>
      rw [← h.installed v swap (.inl ⟨i, hcontrol⟩), hc]
      exact ⟨_, by simp; exact .inl rfl⟩
  · next check v swap hcontrol =>
      rw [← h.installed v swap (.inr ⟨check, hcontrol⟩), hc]
      exact ⟨_, by simp; exact .inl rfl⟩

/-- The context that is being replaced exists, and is not the installed one. -/
theorem swap_mem (h : Inv workerNum s) {v : Option Ctx} {c : Ctx}
    (hcontrol : (∃ i, s.control = .passing i v (some c)) ∨
      ∃ check, s.control = .release check v (some c)) :
    (∃ name, (name, c) ∈ s.rteAcl.table) ∧ s.v46Context ≠ some c := by
  have howned : s.rteAcl.table = v.toList.map (fun c => (s.preTableNameModel, c)) ++
      [(!s.preTableNameModel, c)] := by
    rw [h.table, State.owned]
    rcases hcontrol with ⟨i, hcontrol⟩ | ⟨check, hcontrol⟩ <;> rw [hcontrol] <;> rfl
  refine ⟨⟨!s.preTableNameModel, by rw [howned]; simp⟩, ?_⟩
  rw [h.installed v (some c) hcontrol]
  rintro rfl
  have hnodup := h.conserved.nodup
  rw [howned] at hnodup
  simp at hnodup

/-- A worker that has read the installed context. -/
theorem read_lt (h : Inv workerNum s) {c : Ctx} (hc : s.v46Context = some c) :
    c < s.rteAcl.count ∧ c ∉ s.rteAcl.freed := by
  obtain ⟨name, hmem⟩ := h.installed_mem hc
  exact ⟨h.conserved.lt_of_mem hmem, h.conserved.notMem_freed hmem⟩

theorem start (h : Inv workerNum s) {checkSync : Bool} (hidle : s.control = .idle) :
    Inv workerNum { s with control := .setup checkSync } := by
  refine ⟨h.conserved, ?_, by simp, by simp, by simp, h.created, h.unchecked, h.workers⟩
  rw [h.table, State.owned, State.owned, hidle]

/-- Before a setup no context has the name that is used next. -/
theorem lookup_eq_none (h : Inv workerNum s) {checkSync : Bool}
    (hcontrol : s.control = .setup checkSync) :
    s.rteAcl.table.lookup s.preTableNameModel = none := by
  rw [h.table, State.owned, hcontrol]
  cases s.v46Context with
  | none => rfl
  | some c => cases s.preTableNameModel <;> rfl

theorem setup (h : Inv workerNum s) {a : SetupAnswers} (ht : next workerNum s (.setup a) = some t) :
    Inv workerNum t := by
  simp only [next] at ht
  split at ht
  · next checkSync hcontrol =>
      have howned :
        s.rteAcl.table = s.v46Context.toList.map fun c => (!s.preTableNameModel, c) := by
        rw [h.table, State.owned, hcontrol]
      rcases rteAclTableSetup_cases a h.conserved (h.lookup_eq_none hcontrol) with
        ⟨ret, d, hsetup, hconserved, htable, hcount, hfreed⟩ |
        ⟨d, hsetup, hconserved, htable, hcount, hfreed⟩
      · rw [hsetup] at ht
        have hcreated (w : Nat) (c : Ctx) (hw : s.worker w = .locked (some c)) : c < d.count :=
          Nat.lt_of_lt_of_le (h.created w c hw) hcount
        have hunchecked (w : Nat) (c : Ctx) (hw : s.worker w = .locked (some c))
            (hmem : c ∈ d.freed) : c ∈ s.freedUnchecked :=
          h.unchecked w c hw (hfreed c (h.created w c hw) hmem)
        simp only at ht
        split at ht
        · obtain rfl := Option.some.inj ht
          exact ⟨hconserved, htable.trans howned, by simp, by simp, by simp, hcreated, hunchecked,
            h.workers⟩
        · obtain rfl := Option.some.inj ht
          cases checkSync with
          | true =>
              refine ⟨hconserved, htable.trans howned, ?_, ?_, by simp, hcreated, hunchecked,
                h.workers⟩
              · simp
              · intro i v swap hpos w hw
                simp only [if_true, Control.passing.injEq] at hpos
                omega
          | false =>
              refine ⟨hconserved, htable.trans howned, ?_, ?_, ?_, hcreated, hunchecked, h.workers⟩
              all_goals simp
      · rw [hsetup] at ht
        simp only [ne_eq, not_true, if_false, Option.some.injEq] at ht
        subst ht
        have hcreated (w : Nat) (c : Ctx) (hw : s.worker w = .locked (some c)) : c < d.count := by
          rw [hcount]
          exact Nat.lt_succ_of_lt (h.created w c hw)
        have hunchecked (w : Nat) (c : Ctx) (hw : s.worker w = .locked (some c))
            (hmem : c ∈ d.freed) : c ∈ s.freedUnchecked :=
          h.unchecked w c hw (hfreed ▸ hmem)
        have howned' : d.table = [(s.preTableNameModel, s.rteAcl.count)] ++
            s.v46Context.toList.map fun c => (!s.preTableNameModel, c) := by
          rw [htable, howned]
          rfl
        cases checkSync with
        | true =>
            refine ⟨hconserved, howned', ?_, ?_, by simp, hcreated, hunchecked, h.workers⟩
            · simp
            · intro i v swap hpos w hw
              simp only [if_true, Control.passing.injEq] at hpos
              omega
        | false =>
            refine ⟨hconserved, howned', ?_, ?_, ?_, hcreated, hunchecked, h.workers⟩
            all_goals simp
  · cases ht

theorem pass (h : Inv workerNum s) (ht : next workerNum s .pass = some t) : Inv workerNum t := by
  simp only [next] at ht
  split at ht
  · next i v swap hcontrol =>
      have hv := h.installed v swap (.inl ⟨i, hcontrol⟩)
      split at ht
      · next hi =>
          split at ht
          · next houtside =>
              obtain rfl := Option.some.inj ht
              refine ⟨h.conserved, ?_, by simp [hv], ?_, by simp, h.created, h.unchecked, h.workers⟩
              · rw [h.table, State.owned, hcontrol]
                rfl
              · intro j v' swap' hpos w hw c hc
                simp only [Control.passing.injEq] at hpos
                obtain ⟨rfl, rfl, rfl⟩ := hpos
                rcases Nat.lt_succ_iff_lt_or_eq.mp hw with hlt | rfl
                · exact h.passed i v swap hcontrol w hlt c hc
                · simp [houtside]
          · cases ht
      · next hi =>
          obtain rfl := Option.some.inj ht
          refine ⟨h.conserved, ?_, by simp [hv], by simp, ?_, h.created, h.unchecked, h.workers⟩
          · rw [h.table, State.owned, hcontrol]
            rfl
          · intro v' swap' hpos w hw c hc
            simp only [Control.release.injEq, true_and] at hpos
            obtain ⟨rfl, rfl⟩ := hpos
            exact h.passed i v swap hcontrol w (by omega) c hc
  · cases ht

theorem release (h : Inv workerNum s) (ht : next workerNum s .release = some t) :
    Inv workerNum t := by
  simp only [next] at ht
  split at ht
  · next check v swap hcontrol =>
      obtain rfl := Option.some.inj ht
      have hv := h.installed v swap (.inr ⟨check, hcontrol⟩)
      have howned : s.rteAcl.table = v.toList.map (fun c => (s.preTableNameModel, c)) ++
          swap.toList.map fun c => (!s.preTableNameModel, c) := by
        rw [h.table, State.owned, hcontrol]
      have hname : (v.toList.map fun c => (s.preTableNameModel, c)) = v.toList.map fun c =>
          (!(if v.isSome then !s.preTableNameModel else s.preTableNameModel), c) := by
        cases v <;> simp
      cases swap with
      | none =>
          refine ⟨h.conserved, ?_, by simp, by simp, by simp, h.created, ?_, h.workers⟩
          · simp only [rteAclTableFree, State.owned, hv]
            rw [howned, ← hname]
            simp
          · intro w c hw hfreed
            cases check <;> simpa using h.unchecked w c hw hfreed
      | some old =>
          obtain ⟨-, hne⟩ := h.swap_mem (.inr ⟨check, hcontrol⟩)
          rw [hv] at hne
          have hfree : (rteAclFree s.rteAcl old).table =
              v.toList.map fun c => (s.preTableNameModel, c) := by
            simp only [rteAclFree, howned]
            cases v with
            | none => simp
            | some c =>
                have hc : c ≠ old := fun h => hne (h ▸ rfl)
                simp [hc]
          refine ⟨?_, ?_, by simp, by simp, by simp, h.created, ?_, h.workers⟩
          · have hconserved := h.conserved
            simp only [Dpdk.Conserved, rteAclTableFree, hfree] at hconserved ⊢
            refine List.Perm.trans ?_ hconserved
            rw [howned]
            simp [rteAclFree]
          · simp only [rteAclTableFree, State.owned, hfree, hv]
            exact hname
          · intro w c hw hfreed
            rcases List.mem_cons.mp hfreed with rfl | hfreed
            · cases check with
              | false => simp
              | true =>
                  rcases Nat.lt_or_ge w workerNum with hlt | hge
                  · exact absurd hw (h.released v (some c) hcontrol w hlt c rfl)
                  · rw [h.workers w hge] at hw
                    cases hw
            · have hold := h.unchecked w c hw hfreed
              cases check <;> simp [hold]
  · cases ht

/-- A step of a worker: its new position holds nothing, or the installed context. -/
theorem worker (h : Inv workerNum s) {w : Nat} {pos : Worker}
    (hpos : pos = .outside ∨ pos = .locked none ∨ pos = .locked s.v46Context)
    (hw : pos = .outside ∨ w < workerNum) :
    Inv workerNum { s with worker := Function.update s.worker w pos } := by
  have hread (w' : Nat) (c : Ctx) (hc : Function.update s.worker w pos w' = .locked (some c)) :
      s.v46Context = some c ∨ s.worker w' = .locked (some c) := by
    by_cases hww : w' = w
    · subst hww
      rw [Function.update_self] at hc
      rcases hpos with rfl | rfl | rfl
      · cases hc
      · cases hc
      · exact .inl (Worker.locked.inj hc)
    · rw [Function.update_of_ne hww] at hc
      exact .inr hc
  have hpassed (i : Nat) (v swap : Option Ctx)
      (hcontrol : (∃ i, s.control = .passing i v swap) ∨ ∃ check, s.control = .release check v swap)
      (hp : Passed s i swap) :
      Passed { s with worker := Function.update s.worker w pos } i swap := by
    rintro w' hw' c rfl hc
    rcases hread w' c hc with hinst | hold
    · exact (h.swap_mem hcontrol).2 hinst
    · exact hp w' hw' c rfl hold
  refine ⟨h.conserved, h.table, h.installed, ?_, ?_, ?_, ?_, ?_⟩
  · exact fun i v swap hc => hpassed i v swap (.inl ⟨i, hc⟩) (h.passed i v swap hc)
  · exact fun v swap hc => hpassed workerNum v swap (.inr ⟨true, hc⟩) (h.released v swap hc)
  · intro w' c hc
    rcases hread w' c hc with hinst | hold
    · exact (h.read_lt hinst).1
    · exact h.created w' c hold
  · intro w' c hc hfreed
    rcases hread w' c hc with hinst | hold
    · exact absurd hfreed (h.read_lt hinst).2
    · exact h.unchecked w' c hold hfreed
  · intro w' hge
    change Function.update s.worker w pos w' = .outside
    by_cases hww : w' = w
    · subst hww
      rw [Function.update_self]
      exact hw.resolve_right (Nat.not_lt.mpr hge)
    · rw [Function.update_of_ne hww]
      exact h.workers w' hge

/-- A worker that holds its lock is one of the workers. -/
theorem lt_of_locked (h : Inv workerNum s) {w : Nat} {c : Option Ctx}
    (hw : s.worker w = .locked c) : w < workerNum := by
  by_contra hge
  rw [h.workers w (Nat.le_of_not_lt hge)] at hw
  cases hw

end Inv

/-- Every step of every thread keeps the invariant. -/
theorem step_inv {workerNum : Nat} {s t : State} {e : Event} (h : Inv workerNum s)
    (hs : Step workerNum s e t) : Inv workerNum t := by
  cases e with
  | start checkSync =>
      simp only [Step, next] at hs
      split at hs
      · next hidle => exact Option.some.inj hs ▸ h.start hidle
      · cases hs
  | setup a => exact h.setup hs
  | pass => exact h.pass hs
  | release => exact h.release hs
  | lock w =>
      simp only [Step, next] at hs
      split at hs
      · next hw => exact Option.some.inj hs ▸ h.worker (.inr (.inl rfl)) (.inr hw.1)
      · cases hs
  | read w =>
      simp only [Step, next] at hs
      split at hs
      · next c hw =>
          exact Option.some.inj hs ▸ h.worker (.inr (.inr rfl)) (.inr (h.lt_of_locked hw))
      · cases hs
  | unlock w =>
      simp only [Step, next] at hs
      split at hs
      · exact Option.some.inj hs ▸ h.worker (.inl rfl) (.inl rfl)
      · cases hs

/-- What the swap of the tables promises in every state. A context is in use when it is
installed or about to be freed. -/
structure Safe (workerNum : Nat) (s : State) : Prop where
  newName : ∀ checkSync, s.control = .setup checkSync →
    s.rteAcl.table.lookup s.preTableNameModel = none ∧
      ∀ c, s.v46Context = some c → (!s.preTableNameModel, c) ∈ s.rteAcl.table
  freedOnce : s.rteAcl.freed.Nodup
  freedOrInUse : ∀ c, c < s.rteAcl.count ↔ c ∈ s.rteAcl.freed ∨ c ∈ s.owned.map Prod.snd
  notFreed : ∀ c ∈ s.owned.map Prod.snd, c ∉ s.rteAcl.freed
  locksPassed : ∀ v c, s.control = .release true v (some c) →
    ∀ w, s.worker w ≠ .locked (some c)
  workers : ∀ w c, s.worker w = .locked (some c) → c ∈ s.rteAcl.freed → c ∈ s.freedUnchecked
  failed : ∀ a t, next workerNum s (.setup a) = some t →
    (rteAclTableSetup s.preTableNameModel s.rteAcl a).1 ≠ 0 →
    t.v46Context = s.v46Context ∧ t.preTableNameModel = s.preTableNameModel ∧
      t.rteAcl.table = s.rteAcl.table

theorem Inv.safe {workerNum : Nat} {s : State} (h : Inv workerNum s) : Safe workerNum s := by
  refine ⟨?_, ?_, ?_, ?_, ?_, h.unchecked, ?_⟩
  · intro checkSync hcontrol
    refine ⟨h.lookup_eq_none hcontrol, fun c hc => ?_⟩
    rw [h.table, State.owned, hcontrol, hc]
    simp
  · exact (List.nodup_append.mp h.conserved.nodup).2.1
  · intro c
    rw [← h.table, or_comm, ← List.mem_append, h.conserved.mem_iff, List.mem_range]
  · intro c hc hfreed
    rw [← h.table] at hc
    exact (List.nodup_append.mp h.conserved.nodup).2.2 c hc c hfreed rfl
  · intro v c hcontrol w hw
    exact h.released v (some c) hcontrol w (h.lt_of_locked hw) c rfl hw
  · intro a t ht hret
    simp only [next] at ht
    split at ht
    · next checkSync hcontrol =>
        rw [if_pos hret] at ht
        obtain rfl := Option.some.inj ht
        refine ⟨rfl, rfl, ?_⟩
        rcases rteAclTableSetup_cases a h.conserved (h.lookup_eq_none hcontrol) with
          ⟨ret, d, hsetup, -, htable, -⟩ | ⟨d, hsetup, -⟩
        · rw [hsetup]
          exact htable
        · rw [hsetup] at hret
          exact absurd rfl hret
    · cases ht

/-- `sync_rte_tuple_rules` is only called with `check_sync` so far. -/
def AlwaysChecked (s : State) : Prop :=
  s.freedUnchecked = [] ∧ s.control ≠ .setup false ∧
    ∀ v swap, s.control ≠ .release false v swap

theorem step_alwaysChecked {workerNum : Nat} {s t : State} {e : Event} (h : AlwaysChecked s)
    (hs : Step workerNum s e t) (he : e ≠ .start false) : AlwaysChecked t := by
  obtain ⟨hfreed, hsetup, hrelease⟩ := h
  cases e with
  | start checkSync =>
      simp only [Step, next] at hs
      split at hs
      · obtain rfl := Option.some.inj hs
        cases checkSync with
        | false => exact absurd rfl he
        | true => exact ⟨hfreed, by simp, by simp⟩
      · cases hs
  | setup a =>
      simp only [Step, next] at hs
      split at hs
      · next checkSync hcontrol =>
          cases checkSync with
          | false => exact absurd hcontrol hsetup
          | true =>
              split at hs <;> obtain rfl := Option.some.inj hs <;>
                exact ⟨hfreed, by simp, by simp⟩
      · cases hs
  | pass =>
      simp only [Step, next] at hs
      split at hs
      · split at hs
        · split at hs
          · obtain rfl := Option.some.inj hs
            exact ⟨hfreed, by simp, by simp⟩
          · cases hs
        · obtain rfl := Option.some.inj hs
          exact ⟨hfreed, by simp, by simp⟩
      · cases hs
  | release =>
      simp only [Step, next] at hs
      split at hs
      · next check v swap hcontrol =>
          cases check with
          | false => exact absurd hcontrol (hrelease v swap)
          | true =>
              obtain rfl := Option.some.inj hs
              exact ⟨hfreed, by simp, by simp⟩
      · cases hs
  | lock w | read w | unlock w =>
      simp only [Step, next] at hs
      split at hs
      · obtain rfl := Option.some.inj hs
        exact ⟨hfreed, hsetup, hrelease⟩
      · cases hs

/-- The classifier tables are swapped safely in every run: the name of a new context is not the
one of the installed context, every context is freed once when it has been replaced, and with
`check_sync` not before every worker has left the lock under which it could have read it. -/
theorem tables_swapped_safely (workerNum : Nat) (es : List Event) (s : State)
    (run : Run (Step workerNum) State.init es s) :
    Safe workerNum s ∧ ((∀ e ∈ es, e ≠ .start false) → s.freedUnchecked = []) := by
  refine ⟨(run.invariant (inv_init workerNum) fun _ _ _ h hs => step_inv h hs).safe, ?_⟩
  intro checked
  have hinit : AlwaysChecked State.init := ⟨rfl, by simp [State.init], by simp [State.init]⟩
  suffices AlwaysChecked s from this.1
  generalize State.init = s₀ at hinit run
  induction run with
  | refl => exact hinit
  | cons hs _ ih =>
      exact ih (fun e he => checked e (by simp [he]))
        (step_alwaysChecked hinit hs (checked _ (by simp)))

/-- A context is installed and replaced by another one, while two workers classify. -/
def twoSwaps : List Event :=
  [.start true, .setup ⟨true, 0, 2, 0⟩, .pass, .pass, .pass, .release, .lock 0, .read 0,
    .start true, .setup ⟨true, 0, 3, 0⟩, .lock 1, .read 1, .unlock 0, .pass, .lock 0, .read 0,
    .unlock 1, .pass, .pass, .release]

theorem tables_swapped_safely_twice : ∃ s,
    Run (Step 2) State.init twoSwaps s ∧ s.rteAcl.freed = [0] ∧ s.v46Context = some 1 ∧
      s.worker 0 = .locked (some 1) ∧ Safe 2 s ∧ s.freedUnchecked = [] := by
  have run : Run (Step 2) State.init twoSwaps _ :=
    .cons rfl <| .cons rfl <| .cons rfl <| .cons rfl <| .cons rfl <| .cons rfl <| .cons rfl <|
      .cons rfl <| .cons rfl <| .cons rfl <| .cons rfl <| .cons rfl <| .cons rfl <| .cons rfl <|
      .cons rfl <| .cons rfl <| .cons rfl <| .cons rfl <| .cons rfl <| .cons rfl <| .refl _
  obtain ⟨safe, hchecked⟩ := tables_swapped_safely 2 _ _ run
  exact ⟨_, run, rfl, rfl, rfl, safe, hchecked (by decide)⟩

/-- Without `check_sync` a context is freed while a worker that holds its lock classifies
with it. -/
theorem freed_under_lock : ∃ s,
    Run (Step 1) State.init
      [.start true, .setup ⟨true, 0, 2, 0⟩, .pass, .pass, .release, .lock 0, .read 0,
        .start false, .setup ⟨true, 0, 1, 0⟩, .release] s ∧
      s.worker 0 = .locked (some 0) ∧ 0 ∈ s.rteAcl.freed :=
  ⟨_, .cons rfl (.cons rfl (.cons rfl (.cons rfl (.cons rfl (.cons rfl (.cons rfl (.cons rfl
    (.cons rfl (.cons rfl (.refl _)))))))))), rfl, by decide⟩

end Tapplet.AclSync.Tables
