import Tapplet.Pool.Functions

/-!
# Conservation of pool nodes

Every step keeps `Conserved`: the nodes that exist are, as a multiset, those on the
global free list, those in the local stacks and those handed out. A step only touches
one local pool, so one rule, `Conserved.exchange`, does the accounting of all of them;
each step lemma says which nodes moved and that the touched local pool is in order.
-/

namespace Tapplet.SfPool

open Linked Transition

/-! ## Frames -/

/-- A local pool stays in order when no link of its nodes changes. -/
theorem LocalInv.frame {h h' : PoolHead} {l : LocalPool} {next next' : Node → Option Node}
    {calls : List Phase} (inv : LocalInv h l next calls) (hfill : h'.fillFreeSize = h.fillFreeSize)
    (same : ∀ x ∈ stackNodes l (keptLen l calls), next' x = next x) :
    LocalInv h' l next' calls := by
  have hseg : calls ≠ [.recycled] → SegmentInv l next → SegmentInv l next' := by
    intro hcalls hl
    refine ⟨hl.linked.congr fun x hx => same x ?_, hl.last, hl.length⟩
    have hmem : x ∈ stackNodes l l.currentStackLen :=
      List.mem_of_mem_drop (List.mem_reverse.mp hx)
    match calls, inv with
    | [], _ => exact hmem
    | [.fill], _ => exact hmem
    | [.filled ret], inv => simp [inv.1] at hmem
    | [.recycle], _ => exact hmem
    | [.recycled], _ => exact absurd rfl hcalls
  match calls, inv with
  | [], inv => exact ⟨inv.1, hseg (by simp) inv.2⟩
  | [.fill], inv => exact ⟨inv.1, hseg (by simp) inv.2⟩
  | [.filled ret], inv => exact ⟨inv.1, hfill ▸ inv.2.1, hseg (by simp) inv.2.2⟩
  | [.recycle], inv => exact ⟨inv.1, hseg (by simp) inv.2⟩
  | [.recycled], inv => exact inv

/-- A call that is under way is the only one. -/
theorem LocalInv.only {h : PoolHead} {l : LocalPool} {next : Node → Option Node}
    {calls others : List Phase} {ph : Phase} (inv : LocalInv h l next calls)
    (hcall : calls.Perm (ph :: others)) : calls = [ph] ∧ others = [] := by
  match calls, inv with
  | [], _ => cases List.nil_perm.mp hcall
  | [ph'], _ =>
    have heq := List.perm_singleton.mp hcall.symm
    obtain ⟨rfl, rfl⟩ := List.cons.inj heq
    exact ⟨rfl, rfl⟩
  | ph' :: _ :: _, inv => cases ph' <;> exact inv.elim

namespace Conserved

variable {s s' : Pool} {free free' : List Node}

theorem places_nodup (h : Conserved s free) : (free ++ s.localStacks ++ s.handed).Nodup :=
  h.places.nodup_iff.mp h.nodup

theorem localStacks_nodup (h : Conserved s free) : s.localStacks.Nodup :=
  (List.nodup_append.mp (List.nodup_append.mp h.places_nodup).1).2.1

theorem mem_localStacks {w : Nat} {x : Node} (hw : w < s.workers) (hx : x ∈ s.localStack w) :
    x ∈ s.localStacks :=
  List.mem_flatMap.mpr ⟨w, List.mem_range.mpr hw, hx⟩

theorem not_free_of_localStack (h : Conserved s free) {w : Nat} {x : Node} (hw : w < s.workers)
    (hx : x ∈ s.localStack w) : x ∉ free := fun hf =>
  List.disjoint_of_nodup_append (List.nodup_append.mp h.places_nodup).1 hf (mem_localStacks hw hx)

theorem not_free_of_handed (h : Conserved s free) {x : Node} (hx : x ∈ s.handed) : x ∉ free :=
  fun hf => List.disjoint_of_nodup_append h.places_nodup (List.mem_append_left _ hf) hx

theorem not_localStack_of_handed (h : Conserved s free) {w : Nat} {x : Node} (hw : w < s.workers)
    (hx : x ∈ s.handed) : x ∉ s.localStack w := fun hl =>
  List.disjoint_of_nodup_append h.places_nodup
    (List.mem_append_right _ (mem_localStacks hw hl)) hx

theorem localStack_disjoint (h : Conserved s free) {v w : Nat} {x : Node} (hv : v < s.workers)
    (hw : w < s.workers) (hne : v ≠ w) (hx : x ∈ s.localStack w) : x ∉ s.localStack v := fun hxv =>
  hne (Ledger.place_unique h.localStacks_nodup (List.mem_range.mpr hv) (List.mem_range.mpr hw)
    hxv hx)

/-- The accounting rule. A step that only touches the local pool of worker `w`, and the
links of no other local pool, keeps the nodes when what it moves between the free list,
that local pool, the callers and the nodes not yet created adds up. -/
theorem exchange (h : Conserved s free) {w : Nat} (hw : w < s.workers)
    (workers : s'.workers = s.workers)
    (others : ∀ v, v ≠ w → s'.perWorkerPool v = s.perWorkerPool v ∧ s'.calls v = s.calls v)
    (fillSize : s'.head.fillFreeSize = s.head.fillFreeSize)
    (cacheSize : s'.head.localCacheSize = s.head.localCacheSize)
    (stackMax : (s'.perWorkerPool w).stackMaxLen = (s.perWorkerPool w).stackMaxLen)
    (listMax : (s'.perWorkerPool w).freeListMaxLen = (s.perWorkerPool w).freeListMaxLen)
    (frame : ∀ v < s.workers, v ≠ w → ∀ x ∈ s.localStack v, s'.next x = s.next x)
    (freelist : Seg s'.next s'.head.freelist free' none)
    (freeCnt : s'.head.freeCnt = free'.length) (totalCnt : s'.head.totalCnt = s'.created.length)
    (nodup : s'.created.Nodup)
    (moved : ∀ x, s'.created.count x + free.count x + (s.localStack w).count x +
        s.handed.count x =
      s.created.count x + free'.count x + (s'.localStack w).count x + s'.handed.count x)
    (inv : LocalInv s'.head (s'.perWorkerPool w) s'.next (s'.calls w)) :
    Conserved s' free' := by
  have hsame : ∀ v ∈ List.range s.workers, v ≠ w → s'.localStack v = s.localStack v := by
    intro v _ hv
    rw [Pool.localStack, (others v hv).1, (others v hv).2]
    rfl
  refine ⟨freelist, freeCnt, totalCnt, nodup, ?_, ?_, ?_, ?_⟩
  · refine List.perm_iff_count.mpr fun x => ?_
    have hbefore : s.created.count x = (free ++ s.localStacks ++ s.handed).count x :=
      List.perm_iff_count.mp h.places x
    have hstacks : s'.localStacks.count x + (s.localStack w).count x =
        s.localStacks.count x + (s'.localStack w).count x := by
      rw [Pool.localStacks, workers]
      exact Ledger.count_flatMap_exchange List.nodup_range (List.mem_range.mpr hw) hsame x
    have hmoved := moved x
    simp only [List.count_append] at hbefore ⊢
    omega
  · intro v hv
    rw [workers] at hv
    by_cases hvw : v = w
    · rw [hvw, stackMax, cacheSize, h.stackMax w hw]
    · rw [(others v hvw).1, cacheSize, h.stackMax v hv]
  · intro v hv
    rw [workers] at hv
    by_cases hvw : v = w
    · rw [hvw, listMax, fillSize, h.freeListMax w hw]
    · rw [(others v hvw).1, fillSize, h.freeListMax v hv]
  · intro v hv
    rw [workers] at hv
    by_cases hvw : v = w
    · rw [hvw]
      exact inv
    · rw [(others v hvw).1, (others v hvw).2]
      exact (h.localInv v hv).frame fillSize (frame v hv hvw)

end Conserved

/-! ## Steps -/

theorem setLocal_others {s : Pool} {v w : Nat} (l : LocalPool) (calls : List Phase)
    (hvw : v ≠ w) :
    (s.setLocal w l calls).perWorkerPool v = s.perWorkerPool v ∧
      (s.setLocal w l calls).calls v = s.calls v :=
  ⟨Function.update_of_ne hvw _ _, Function.update_of_ne hvw _ _⟩

@[simp] theorem setLocal_head (s : Pool) (w : Nat) (l : LocalPool) (calls : List Phase) :
    (s.setLocal w l calls).head = s.head := rfl

@[simp] theorem setLocal_next (s : Pool) (w : Nat) (l : LocalPool) (calls : List Phase) :
    (s.setLocal w l calls).next = s.next := rfl

@[simp] theorem setLocal_perWorkerPool (s : Pool) (w : Nat) (l : LocalPool)
    (calls : List Phase) : (s.setLocal w l calls).perWorkerPool w = l := Function.update_self _ _ _

@[simp] theorem setLocal_calls (s : Pool) (w : Nat) (l : LocalPool) (calls : List Phase) :
    (s.setLocal w l calls).calls w = calls := Function.update_self _ _ _

namespace Conserved

variable {s : Pool} {free : List Node} {w : Nat}

/-- A step that only changes the phase of a call, and no node. -/
theorem setCalls (h : Conserved s free) (hw : w < s.workers) {l : LocalPool} {calls : List Phase}
    (stackMax : l.stackMaxLen = (s.perWorkerPool w).stackMaxLen)
    (listMax : l.freeListMaxLen = (s.perWorkerPool w).freeListMaxLen)
    (stack : stackNodes l (keptLen l calls) = s.localStack w)
    (inv : LocalInv s.head l s.next calls) : Conserved (s.setLocal w l calls) free := by
  refine h.exchange hw rfl (fun v hv => setLocal_others _ _ hv) rfl rfl ?_ ?_
    (fun _ _ _ _ _ => rfl) h.freelist h.freeCnt h.totalCnt h.nodup ?_ ?_
  · simpa using stackMax
  · simpa using listMax
  · intro x
    rw [show (s.setLocal w l calls).localStack w = s.localStack w by simpa [Pool.localStack]]
    rfl
  · simp only [setLocal_perWorkerPool, setLocal_calls]
    exact inv

/-- Handing out the top of a stack `l` that holds the nodes of worker `w`. -/
theorem handOut (h : Conserved s free) (hw : w < s.workers) {l : LocalPool} {n : Nat}
    (stackMax : l.stackMaxLen = (s.perWorkerPool w).stackMaxLen)
    (listMax : l.freeListMaxLen = (s.perWorkerPool w).freeListMaxLen)
    (hlen : l.currentStackLen = n + 1) (stack : stackNodes l (n + 1) = s.localStack w)
    (room : n < l.stackMaxLen + l.freeListMaxLen) (seg : SegmentInv l s.next) :
    Conserved (s.handOut w l []) free := by
  obtain ⟨htop, hlen', hmax, hlist, hstack, hseg⟩ := popNode_spec seg hlen
  refine h.exchange hw rfl (fun v hv => setLocal_others _ _ hv) rfl rfl ?_ ?_
    (fun _ _ _ _ _ => rfl) h.freelist h.freeCnt h.totalCnt h.nodup ?_ ?_
  · simpa [Pool.handOut, hmax] using stackMax
  · simpa [Pool.handOut, hlist] using listMax
  · intro x
    have hrest : (s.handOut w l []).localStack w = stackNodes l n := by
      simp only [Pool.localStack, Pool.handOut, setLocal_perWorkerPool, setLocal_calls, keptLen,
        hlen']
      exact stackNodes_congr fun i _ => by rw [hstack]
    rw [hrest, ← stack, stackNodes_succ]
    simp only [Pool.handOut, Pool.setLocal, htop, List.count_append, List.count_cons,
      List.count_nil]
    omega
  · simp only [Pool.handOut, setLocal_perWorkerPool, setLocal_calls]
    exact ⟨by rw [hlen', hmax, hlist]; exact room, hseg⟩

theorem allocEnter (h : Conserved s free) (hw : w < s.workers) (idle : s.calls w = []) :
    Conserved (s.allocEnter w) free := by
  have inv := h.localInv w hw
  rw [idle] at inv
  simp only [Pool.allocEnter, idle]
  split
  next hzero =>
    exact h.setCalls hw rfl rfl (by rw [Pool.localStack, idle]; rfl) ⟨hzero, inv.2⟩
  next hzero =>
    obtain ⟨n, hn⟩ : ∃ n, (s.perWorkerPool w).currentStackLen = n + 1 :=
      ⟨_, (Nat.succ_pred_eq_of_ne_zero hzero).symm⟩
    refine h.handOut hw rfl rfl hn ?_ (by have := inv.1; omega) inv.2
    rw [Pool.localStack, idle, ← hn]
    rfl

/-- The refill moves nodes from the free list, or new ones, into an empty stack. -/
theorem fill (h : Conserved s free) (hw : w < s.workers) (waits : s.calls w = [.fill])
    (halign : 0 < s.head.dataAlignLen) {newMem : Option Node}
    (fresh : FreshMem s s.head.fillFreeSize newMem) :
    ∃ free', Conserved (s.fill w newMem []) free' := by
  have inv := h.localInv w hw
  rw [waits] at inv
  obtain ⟨free', filled, hnodup, hnew⟩ := sfPoolFillCache_spec
    (s.perWorkerPool w).localPoolStack true newMem halign h.freelist h.freeCnt fresh
  have hempty : s.localStack w = [] := by
    rw [Pool.localStack, waits]
    change stackNodes _ (s.perWorkerPool w).currentStackLen = []
    rw [inv.1]
    rfl
  have hstack : (s.fill w newMem []).localStack w = (List.range (sfPoolFillCache s.head s.next
      (s.perWorkerPool w).localPoolStack true newMem).2.2).map (sfPoolFillCache s.head s.next
      (s.perWorkerPool w).localPoolStack true newMem).2.1 := by
    simp only [Pool.localStack, Pool.fill, setLocal_perWorkerPool, setLocal_calls]
    rfl
  refine ⟨free', h.exchange hw rfl (fun v hv => setLocal_others _ _ hv) filled.fillFreeSize
    filled.localCacheSize ?_ ?_ (fun _ _ _ _ _ => rfl) filled.freelist filled.freeCnt ?_ ?_ ?_ ?_⟩
  · simp [Pool.fill]
  · simp [Pool.fill]
  · have htotal := filled.totalCnt
    have hbefore := h.totalCnt
    simp only [Pool.fill, List.length_append, List.length_map, List.length_range] at htotal ⊢
    omega
  · exact List.nodup_append.mpr ⟨h.nodup, hnodup, fun a ha b hb hab => hnew b hb (hab ▸ ha)⟩
  · intro x
    have hmoved := List.perm_iff_count.mp filled.moved x
    rw [hstack, hempty]
    simp only [Pool.fill, Pool.setLocal, List.count_append, List.count_nil] at hmoved ⊢
    omega
  · simp only [Pool.fill, setLocal_perWorkerPool, setLocal_calls]
    have hlen := filled.length
    simp only [List.length_map, List.length_range, if_true] at hlen
    refine ⟨inv.1, by rw [filled.fillFreeSize]; exact hlen, inv.2.of_nil ?_ ?_ rfl rfl rfl⟩ <;>
      exact upper_eq_nil (Nat.le_trans (Nat.le_of_eq inv.1) (Nat.zero_le _))

/-- After a refill the caller gets the top of the new stack, or nothing. -/
theorem allocLeave (h : Conserved s free) (hw : w < s.workers) {ret : Nat}
    (waits : s.calls w = [.filled ret]) (hpos : 0 < s.head.fillFreeSize)
    (hsize : s.head.fillFreeSize ≤ s.head.localCacheSize) :
    Conserved (s.allocLeave w ret []) free := by
  have inv := h.localInv w hw
  rw [waits] at inv
  obtain ⟨hempty, hret, seg⟩ := inv
  have hmax := h.stackMax w hw
  have hstack : s.localStack w = stackNodes (s.perWorkerPool w) ret := by
    rw [Pool.localStack, waits]
    rfl
  cases ret with
  | zero =>
      refine h.setCalls hw rfl rfl ?_ ⟨?_, seg⟩
      · change stackNodes _ (s.perWorkerPool w).currentStackLen = _
        rw [hstack, hempty]
      · rw [hempty, h.freeListMax w hw]
        omega
  | succ n =>
      refine h.handOut hw rfl rfl rfl ?_ ?_ (seg.of_nil ?_ ?_ rfl rfl rfl)
      · rw [hstack]
        rfl
      · change n < (s.perWorkerPool w).stackMaxLen + _
        omega
      · exact upper_eq_nil (by omega)
      · exact upper_eq_nil (Nat.le_trans hret (by rw [hmax]; exact hsize))

theorem freeEnter (h : Conserved s free) (hw : w < s.workers) (idle : s.calls w = [])
    {data : Node} (holds : data ∈ s.handed) (hpos : 0 < s.head.fillFreeSize) :
    Conserved (s.freeEnter w data) free := by
  have inv := h.localInv w hw
  have hlistMax := h.freeListMax w hw
  rw [idle] at inv
  obtain ⟨room, seg⟩ := inv
  have hstack : s.localStack w =
      stackNodes (s.perWorkerPool w) (s.perWorkerPool w).currentStackLen := by
    rw [Pool.localStack, idle]
    rfl
  have hdata : data ∉ stackNodes (s.perWorkerPool w) (s.perWorkerPool w).currentStackLen := by
    rw [← hstack]
    exact h.not_localStack_of_handed hw holds
  -- the phase after the push counts the whole stack, whether or not it is recycled
  have hstack' : (s.freeEnter w data).localStack w =
      stackNodes (s.perWorkerPool w) (s.perWorkerPool w).currentStackLen ++ [data] := by
    rw [← stackNodes_pushNode _ s.next]
    simp only [Pool.localStack, Pool.freeEnter, setLocal_perWorkerPool, setLocal_calls, idle]
    split <;> simp only [keptLen, pushNode_currentStackLen]
  have hseg := segmentInv_pushNode seg hdata
  refine h.exchange hw rfl (fun v hv => setLocal_others _ _ hv) rfl rfl ?_ ?_ ?_ ?_
    h.freeCnt h.totalCnt h.nodup ?_ ?_
  · simp [Pool.freeEnter]
  · simp [Pool.freeEnter]
  · intro v hv _ x hx
    refine pushNode_next ?_
    rintro rfl
    exact h.not_localStack_of_handed hv holds hx
  · refine h.freelist.congr fun x hx => pushNode_next ?_
    rintro rfl
    exact h.not_free_of_handed holds hx
  · intro x
    have hcount : s.handed.count x = (s.handed.erase data).count x + [data].count x := by
      have hperm := List.perm_iff_count.mp (List.perm_cons_erase holds) x
      rw [hperm, ← List.singleton_append, List.count_append, Nat.add_comm]
    rw [hstack, hstack']
    simp only [Pool.freeEnter, Pool.setLocal, List.count_append]
    omega
  · simp only [Pool.freeEnter, setLocal_perWorkerPool, setLocal_calls, idle]
    have hlistLen := hseg.length
    rw [upper_length, pushNode_currentStackLen, pushNode_stackMaxLen] at hlistLen
    split
    next hdue =>
      simp only [recycleDue, Bool.and_eq_true, decide_eq_true_eq, pushNode_currentStackLen,
        pushNode_stackMaxLen, pushNode_freeListMaxLen] at hdue
      refine ⟨?_, hseg⟩
      simp only [pushNode_currentStackLen, pushNode_stackMaxLen, pushNode_freeListMaxLen]
      omega
    next hdue =>
      simp only [recycleDue, Bool.and_eq_true, decide_eq_true_eq, pushNode_currentStackLen,
        pushNode_stackMaxLen, pushNode_freeListMaxLen] at hdue
      refine ⟨?_, hseg⟩
      simp only [pushNode_currentStackLen, pushNode_stackMaxLen, pushNode_freeListMaxLen]
      omega

/-- The locked section of a release moves the upper part of the stack, and nothing else,
to the front of the global free list. -/
theorem recycle (h : Conserved s free) (hw : w < s.workers) (waits : s.calls w = [.recycle])
    (hpos : 0 < s.head.fillFreeSize) :
    Conserved (s.recycle w []) ((upper (s.perWorkerPool w)).reverse ++ free) := by
  have inv := h.localInv w hw
  rw [waits] at inv
  obtain ⟨full, seg⟩ := inv
  have hlistMax := h.freeListMax w hw
  have hstack : s.localStack w =
      stackNodes (s.perWorkerPool w) (s.perWorkerPool w).currentStackLen := by
    rw [Pool.localStack, waits]
    rfl
  have hlen : (upper (s.perWorkerPool w)).length = s.head.fillFreeSize := by
    rw [upper_length, full, hlistMax, Nat.add_sub_cancel_left]
  obtain ⟨last, rest, hup⟩ : ∃ last rest, upper (s.perWorkerPool w) = last :: rest :=
    List.exists_cons_of_length_pos (by omega)
  have hmem : ∀ x ∈ upper (s.perWorkerPool w), x ∈ s.localStack w := fun x hx => by
    rw [hstack]
    exact List.mem_of_mem_drop hx
  have hlast : last ∈ s.localStack w := hmem last (by simp [hup])
  have hnodup : (upper (s.perWorkerPool w)).Nodup := by
    have hall := Ledger.place_nodup h.localStacks_nodup (List.mem_range.mpr hw)
    rw [hstack] at hall
    exact hall.sublist (List.drop_sublist _ _)
  rw [hup] at hnodup
  have hnext : (s.recycle w []).next = Function.update s.next last s.head.freelist := by
    simp only [Pool.recycle, sfPoolRecycleCache, seg.last, hup, List.head?_cons]
  refine h.exchange hw rfl (fun v hv => setLocal_others _ _ hv) rfl rfl ?_ ?_ ?_ ?_ ?_
    h.totalCnt h.nodup ?_ ?_
  · simp [Pool.recycle]
  · simp [Pool.recycle]
  · intro v hv hvw x hx
    rw [hnext]
    refine Function.update_of_ne ?_ _ _
    rintro rfl
    exact h.localStack_disjoint hv hw hvw hlast hx
  · have hlinked := seg.linked
    rw [hup, List.reverse_cons] at hlinked ⊢
    rw [hnext]
    refine hlinked.join h.freelist ?_ (h.not_free_of_localStack hw hlast)
    rw [List.mem_reverse]
    exact (List.nodup_cons.mp hnodup).1
  · simp only [Pool.recycle, sfPoolRecycleCache, List.length_append, List.length_reverse, hlen,
      h.freeCnt]
    omega
  · intro x
    have hsplit : (s.localStack w).count x =
        ((s.recycle w []).localStack w).count x + (upper (s.perWorkerPool w)).count x := by
      have hkept : (s.recycle w []).localStack w =
          (s.localStack w).take (s.perWorkerPool w).stackMaxLen := by
        simp only [Pool.localStack, Pool.recycle, setLocal_perWorkerPool, setLocal_calls, keptLen,
          waits, full, stackNodes]
        rw [← List.map_take, List.take_range, Nat.add_sub_cancel,
          Nat.min_eq_left (Nat.le_add_right _ _)]
      rw [hkept, upper, ← hstack, ← List.count_append, List.take_append_drop]
    simp only [List.count_append, List.count_reverse]
    change s.created.count x + _ + _ + s.handed.count x = s.created.count x + _ + _ + _
    rw [hsplit]
    change _ = _ + s.handed.count x
    omega
  · simp only [Pool.recycle, setLocal_perWorkerPool, setLocal_calls]
    exact full

theorem freeLeave (h : Conserved s free) (hw : w < s.workers) (waits : s.calls w = [.recycled])
    (hpos : 0 < s.head.fillFreeSize) : Conserved (s.freeLeave w []) free := by
  have inv : (s.perWorkerPool w).currentStackLen =
      (s.perWorkerPool w).stackMaxLen + (s.perWorkerPool w).freeListMaxLen := by
    have := h.localInv w hw
    rwa [waits] at this
  have hlistMax := h.freeListMax w hw
  have hlen : (dropSegment (s.perWorkerPool w)).currentStackLen =
      (s.perWorkerPool w).stackMaxLen := by
    simp only [dropSegment, inv, Nat.add_sub_cancel]
  refine h.setCalls hw rfl rfl ?_ ⟨?_, .of_upper (upper_eq_nil (Nat.le_of_eq hlen)) rfl rfl rfl⟩
  · rw [Pool.localStack, waits]
    rfl
  · rw [hlen]
    change _ < (s.perWorkerPool w).stackMaxLen + (s.perWorkerPool w).freeListMaxLen
    omega

/-- A caller may overwrite a node that it holds: no list goes through it. -/
theorem write (h : Conserved s free) {data : Node} {value : Option Node}
    (holds : data ∈ s.handed) :
    Conserved { s with next := Function.update s.next data value } free := by
  refine ⟨h.freelist.update (h.not_free_of_handed holds), h.freeCnt, h.totalCnt, h.nodup,
    h.places, h.stackMax, h.freeListMax, fun v hv => ?_⟩
  refine (h.localInv v hv).frame rfl fun x hx => Function.update_of_ne ?_ _ _
  rintro rfl
  exact h.not_localStack_of_handed hv holds hx

end Conserved

/-! ## Whole calls are runs -/

/-- `alloc_node_from_pool` run to its end is a run of steps. -/
theorem allocNodeFromPool_run {s : Pool} {w : Nat} {newMem : Option Node} (hw : w < s.workers)
    (idle : s.calls w = []) (fresh : FreshMem s s.head.fillFreeSize newMem) :
    ∃ es t, Run (Along Alone Step) s es t ∧ t.calls w = [] ∧ t.next = s.next ∧
      (t.head, t.perWorkerPool w) =
        (allocNodeFromPool s.head s.next (s.perWorkerPool w) newMem).2 ∧
      t.handed = (allocNodeFromPool s.head s.next (s.perWorkerPool w) newMem).1.toList ++
        s.handed := by
  have enter : Along Alone Step s (.allocEnter w) (s.allocEnter w) := ⟨idle, .allocEnter hw⟩
  by_cases hzero : (s.perWorkerPool w).currentStackLen = 0
  · rw [Pool.allocEnter, if_pos hzero, idle] at enter
    have filled : Along Alone Step (s.setLocal w (s.perWorkerPool w) [.fill]) (.fill w newMem)
        ((s.setLocal w (s.perWorkerPool w) [.fill]).fill w newMem []) :=
      ⟨trivial, .fill hw (.of_eq (Function.update_self ..)) fresh⟩
    have leave (ret : Nat)
      (hret : ((s.setLocal w (s.perWorkerPool w) [.fill]).fill w newMem []).calls w
        = [.filled ret]) : Along Alone Step
        ((s.setLocal w (s.perWorkerPool w) [.fill]).fill w newMem []) (.allocLeave w)
        (((s.setLocal w (s.perWorkerPool w) [.fill]).fill w newMem []).allocLeave w ret []) :=
      ⟨trivial, .allocLeave hw (.of_eq hret)⟩
    refine ⟨_, _,
      .cons enter (.cons filled (.cons (leave _ (Function.update_self ..)) (.refl _))), ?_⟩
    simp only [allocNodeFromPool, if_pos hzero, Pool.allocLeave, Pool.fill,
      setLocal_perWorkerPool, setLocal_head, setLocal_next]
    split
    · exact ⟨Function.update_self .., rfl, by simp [Pool.setLocal], rfl⟩
    · exact ⟨Function.update_self .., rfl, by simp [Pool.handOut, Pool.setLocal], rfl⟩
  · rw [Pool.allocEnter, if_neg hzero, idle] at enter
    refine ⟨_, _, .cons enter (.refl _), Function.update_self .., rfl, ?_, ?_⟩
    · simp [allocNodeFromPool, if_neg hzero, Pool.handOut, Pool.setLocal]
    · simp [allocNodeFromPool, if_neg hzero, Pool.handOut]

/-- `free_node_to_pool` run to its end is a run of steps. -/
theorem freeNodeToPool_run {s : Pool} {w : Nat} {data : Node} (hw : w < s.workers)
    (idle : s.calls w = []) (holds : data ∈ s.handed) :
    ∃ es t, Run (Along Alone Step) s es t ∧ t.calls w = [] ∧ t.handed = s.handed.erase data ∧
      (t.head, t.next, t.perWorkerPool w) =
        freeNodeToPool s.head s.next (s.perWorkerPool w) data := by
  have enter : Along Alone Step s (.freeEnter w data) (s.freeEnter w data) :=
    ⟨idle, .freeEnter hw holds⟩
  have hcalls : (s.freeEnter w data).calls w =
      if recycleDue (pushNode (s.perWorkerPool w) s.next data).1 then [.recycle] else [] := by
    rw [← idle]
    exact Function.update_self ..
  by_cases hdue : recycleDue (pushNode (s.perWorkerPool w) s.next data).1
  · rw [if_pos hdue] at hcalls
    have recycled : Along Alone Step (s.freeEnter w data) (.recycle w)
        ((s.freeEnter w data).recycle w []) := ⟨trivial, .recycle hw (.of_eq hcalls)⟩
    have leave : Along Alone Step ((s.freeEnter w data).recycle w []) (.freeLeave w)
        (((s.freeEnter w data).recycle w []).freeLeave w []) :=
      ⟨trivial, .freeLeave hw (.of_eq (Function.update_self ..))⟩
    refine ⟨_, _, .cons enter (.cons recycled (.cons leave (.refl _))),
      Function.update_self .., rfl, ?_⟩
    simp [freeNodeToPool, if_pos hdue, Pool.freeLeave, Pool.recycle, Pool.freeEnter,
      Pool.setLocal]
  · rw [if_neg hdue] at hcalls
    refine ⟨_, _, .cons enter (.refl _), hcalls, rfl, ?_⟩
    simp [freeNodeToPool, if_neg hdue, Pool.freeEnter, Pool.setLocal]

/-! ## Initialisation -/

/-- The sizes that `sf_pool_init` stores in the pool head, and how far the pool has grown. -/
structure HeadInv (cfg : Config) (h : PoolHead) : Prop where
  fillFreeSize : h.fillFreeSize = cfg.fillFreeSize
  localCacheSize : h.localCacheSize = cfg.localCacheSize
  dataAlignLen : h.dataAlignLen = alignDataLen cfg.dataLen
  incMax : h.poolMemIncMax = cfg.incrementMaxTimes
  incTime_le : h.poolMemIncTime ≤ cfg.incrementMaxTimes
  totalCnt_le : h.totalCnt ≤ cfg.initSizePerWorker * cfg.workerThreadCnt +
    h.poolMemIncTime * cfg.localCacheSize

theorem HeadInv.align_pos {cfg : Config} {h : PoolHead} (inv : HeadInv cfg h) :
    0 < h.dataAlignLen := by
  rw [inv.dataAlignLen]
  exact alignDataLen_pos _

/-- The memory of all nodes is counted in 32 bits. -/
theorem HeadInv.bytes_lt {cfg : Config} {h : PoolHead} (inv : HeadInv cfg h) :
    h.dataAlignLen * h.totalCnt < 2 ^ 32 := by
  have hgrown := Nat.mul_le_mul_right cfg.localCacheSize inv.incTime_le
  have htotal := inv.totalCnt_le
  rw [inv.dataAlignLen]
  exact Nat.lt_of_le_of_lt (Nat.mul_le_mul_left _ (by omega)) cfg.bytes_lt

theorem HeadInv.of_fill {cfg : Config} {h : PoolHead} (inv : HeadInv cfg h)
    (hsize : cfg.fillFreeSize ≤ cfg.localCacheSize) (next : Node → Option Node)
    (targetArray : Nat → Node) (isRuntime : Bool) (newMem : Option Node) :
    HeadInv cfg (sfPoolFillCache h next targetArray isRuntime newMem).1 := by
  obtain ⟨h₁, h₂, h₃, h₄, h₅, h₆⟩ := inv
  have hneeded : (if isRuntime then h.fillFreeSize else h.localCacheSize) ≤ cfg.localCacheSize := by
    rw [h₁, h₂]
    split
    · exact hsize
    · exact Nat.le_refl _
  simp only [sfPoolFillCache, sfPoolIncreaseNodes]
  split
  · split
    next hmore =>
      cases newMem with
      | none => exact ⟨h₁, h₂, h₃, h₄, h₅, h₆⟩
      | some mem =>
          refine ⟨h₁, h₂, h₃, h₄, by dsimp only; omega, ?_⟩
          dsimp only
          rw [Nat.add_one_mul]
          omega
    · exact ⟨h₁, h₂, h₃, h₄, h₅, h₆⟩
  · exact ⟨h₁, h₂, h₃, h₄, h₅, h₆⟩

/-- The first memory block becomes a free list with its last node in front. -/
theorem splitMemory_seg {memoryStart align : Nat} (halign : 0 < align)
    (next : Node → Option Node) (n : Nat) :
    Seg (splitMemory memoryStart align next n).1 (splitMemory memoryStart align next n).2
      ((List.range n).map fun i => memoryStart + align * i).reverse none := by
  induction n with
  | zero => rfl
  | succ n ih =>
      have hnew : memoryStart + align * n ∉
          ((List.range n).map fun i => memoryStart + align * i).reverse := by
        intro hmem
        have hall := block_nodup memoryStart (n + 1) halign
        rw [List.range_succ, List.map_append] at hall
        exact List.disjoint_of_nodup_append hall (List.mem_reverse.mp hmem) (by simp)
      rw [List.range_succ, List.map_append, List.reverse_append]
      simp only [splitMemory, Nat.mul_comm n align]
      exact ih.push hnew

/-- What holds while the local pools are set up, one after the other. -/
structure InitInv (cfg : Config) (w : Nat) (s : Pool) : Prop where
  workers : s.workers = w
  idle : ∀ v, s.calls v = []
  head : HeadInv cfg s.head
  conserved : ∃ free, Conserved s free

theorem splitPool_inv (cfg : Config) (memoryStart : Nat) (next : Node → Option Node) :
    InitInv cfg 0 (splitPool cfg memoryStart next) := by
  have hblock : (splitPool cfg memoryStart next).created =
      (List.range (cfg.initSizePerWorker * cfg.workerThreadCnt)).map
        fun i => memoryStart + alignDataLen cfg.dataLen * i := by
    simp only [splitPool, Nat.mul_comm]
  refine ⟨rfl, fun _ => rfl, ⟨rfl, rfl, rfl, rfl, Nat.zero_le _, Nat.le_add_right _ _⟩,
    ⟨_, splitMemory_seg (alignDataLen_pos _) next _, ?_, ?_, ?_, ?_, ?_, ?_, ?_⟩⟩
  · simp [splitPool]
  · simp [splitPool]
  · rw [hblock]
    exact block_nodup _ _ (alignDataLen_pos _)
  · rw [hblock]
    simp only [Pool.localStacks, splitPool, List.range_zero, List.flatMap_nil, List.append_nil]
    exact (List.reverse_perm _).symm
  all_goals
    intro v hv
    exact absurd hv (Nat.not_lt_zero v)

theorem initLocal_inv {cfg : Config} {w : Nat} {s : Pool} {newMem : Option Node}
    (hpos : 1 ≤ cfg.fillFreeSize) (hsize : cfg.fillFreeSize ≤ cfg.localCacheSize)
    (inv : InitInv cfg w s) (fresh : FreshMem s s.head.localCacheSize newMem) :
    InitInv cfg (w + 1) (s.initLocal newMem) := by
  obtain ⟨workers, idle, head, free, h⟩ := inv
  subst workers
  obtain ⟨free', filled, hnodup, hnew⟩ := sfPoolFillCache_spec
    (fun _ => 0) false newMem head.align_pos h.freelist h.freeCnt fresh
  have hothers : ∀ v, v ≠ s.workers → (s.initLocal newMem).perWorkerPool v = s.perWorkerPool v ∧
      (s.initLocal newMem).calls v = s.calls v := fun v hv => setLocal_others _ _ hv
  have hlt : ∀ v, v < s.workers + 1 → v ≠ s.workers → v < s.workers := fun v => by omega
  have hstacks : (s.initLocal newMem).localStacks = s.localStacks ++
      (List.range (sfPoolFillCache s.head s.next (fun _ => 0) false newMem).2.2).map
        (sfPoolFillCache s.head s.next (fun _ => 0) false newMem).2.1 := by
    change (List.range (s.workers + 1)).flatMap _ = _
    rw [List.range_succ, List.flatMap_append, List.flatMap_singleton]
    congr 1
    · refine Ledger.flatMap_congr_of fun v hv => ?_
      obtain ⟨hpool, hcalls⟩ := hothers v (Nat.ne_of_lt (List.mem_range.mp hv))
      rw [Pool.localStack, hpool, hcalls]
      rfl
    · simp only [Pool.localStack, Pool.initLocal, setLocal_perWorkerPool, setLocal_calls]
      rfl
  have hlen := filled.length
  simp only [List.length_map, List.length_range, Bool.false_eq_true, if_false] at hlen
  refine ⟨rfl, fun v => ?_, head.of_fill hsize ..,
    ⟨free', filled.freelist, filled.freeCnt, ?_, ?_, ?_, ?_, ?_, ?_⟩⟩
  · by_cases hv : v = s.workers
    · subst hv
      exact Function.update_self ..
    · rw [(hothers v hv).2, idle v]
  · have htotal := filled.totalCnt
    have hbefore := h.totalCnt
    simp only [Pool.initLocal, List.length_append, List.length_map, List.length_range] at htotal ⊢
    omega
  · exact List.nodup_append.mpr ⟨h.nodup, hnodup, fun a ha b hb hab => hnew b hb (hab ▸ ha)⟩
  · refine List.perm_iff_count.mpr fun x => ?_
    have hmoved := List.perm_iff_count.mp filled.moved x
    have hplaces := List.perm_iff_count.mp h.places x
    rw [hstacks]
    simp only [Pool.initLocal, Pool.setLocal, List.count_append] at hmoved hplaces ⊢
    omega
  · intro v hv
    by_cases hvw : v = s.workers
    · subst hvw
      simp only [Pool.initLocal, setLocal_perWorkerPool]
      exact filled.localCacheSize.symm
    · rw [(hothers v hvw).1, h.stackMax v (hlt v hv hvw)]
      exact filled.localCacheSize.symm
  · intro v hv
    by_cases hvw : v = s.workers
    · subst hvw
      simp only [Pool.initLocal, setLocal_perWorkerPool]
      exact filled.fillFreeSize.symm
    · rw [(hothers v hvw).1, h.freeListMax v (hlt v hv hvw)]
      exact filled.fillFreeSize.symm
  · intro v hv
    by_cases hvw : v = s.workers
    · subst hvw
      simp only [Pool.initLocal, setLocal_perWorkerPool, setLocal_calls]
      refine ⟨?_, .of_upper (upper_eq_nil hlen) rfl rfl rfl⟩
      change (sfPoolFillCache s.head s.next (fun _ => 0) false newMem).2.2 <
        s.head.localCacheSize + s.head.fillFreeSize
      rw [head.fillFreeSize]
      omega
    · rw [(hothers v hvw).1, (hothers v hvw).2]
      exact (h.localInv v (hlt v hv hvw)).frame filled.fillFreeSize fun _ _ => rfl

theorem sfPoolInit_inv {cfg : Config} {w : Nat} {s : Pool} (hpos : 1 ≤ cfg.fillFreeSize)
    (hsize : cfg.fillFreeSize ≤ cfg.localCacheSize) (init : SfPoolInit cfg w s) :
    InitInv cfg w s := by
  induction init with
  | split memoryStart next => exact splitPool_inv cfg memoryStart next
  | initLocal _ fresh ih => exact initLocal_inv hpos hsize ih fresh

/-! ## Runs -/

/-- What holds in every state of a pool. -/
structure PoolInv (cfg : Config) (s : Pool) : Prop where
  workers : s.workers = cfg.workerThreadCnt
  head : HeadInv cfg s.head
  conserved : ∃ free, Conserved s free

theorem PoolInv.step {cfg : Config} {s t : Pool} {e : Event} (hpos : 1 ≤ cfg.fillFreeSize)
    (hsize : cfg.fillFreeSize ≤ cfg.localCacheSize) (inv : PoolInv cfg s) (alone : Alone s e)
    (hs : Step s e t) : PoolInv cfg t := by
  obtain ⟨workers, head, free, h⟩ := inv
  have hfill : 0 < s.head.fillFreeSize := by
    rw [head.fillFreeSize]
    exact hpos
  cases hs with
  | @allocEnter w hw =>
      have hframe : (s.allocEnter w).workers = s.workers ∧ (s.allocEnter w).head = s.head := by
        simp only [Pool.allocEnter]
        split <;> exact ⟨rfl, rfl⟩
      exact ⟨hframe.1.trans workers, hframe.2 ▸ head, free, h.allocEnter hw alone⟩
  | @fill w newMem others hw waits fresh =>
      obtain ⟨only, rfl⟩ := (h.localInv w hw).only waits
      exact ⟨workers, head.of_fill hsize .., h.fill hw only head.align_pos fresh⟩
  | @allocLeave w ret others hw waits =>
      obtain ⟨only, rfl⟩ := (h.localInv w hw).only waits
      have hframe : (s.allocLeave w ret []).workers = s.workers ∧
          (s.allocLeave w ret []).head = s.head := by
        simp only [Pool.allocLeave]
        split <;> exact ⟨rfl, rfl⟩
      have hcache : s.head.fillFreeSize ≤ s.head.localCacheSize := by
        rw [head.fillFreeSize, head.localCacheSize]
        exact hsize
      exact ⟨hframe.1.trans workers, hframe.2 ▸ head, free, h.allocLeave hw only hfill hcache⟩
  | freeEnter hw holds => exact ⟨workers, head, free, h.freeEnter hw alone holds hfill⟩
  | @recycle w others hw waits =>
      obtain ⟨only, rfl⟩ := (h.localInv w hw).only waits
      obtain ⟨h₁, h₂, h₃, h₄, h₅, h₆⟩ := head
      exact ⟨workers, ⟨h₁, h₂, h₃, h₄, h₅, h₆⟩, _, h.recycle hw only hfill⟩
  | @freeLeave w others hw waits =>
      obtain ⟨only, rfl⟩ := (h.localInv w hw).only waits
      exact ⟨workers, head, free, h.freeLeave hw only hfill⟩
  | write holds => exact ⟨workers, head, free, h.write holds⟩

/-- Object pools conserve nodes, as long as the calls on one local pool do not overlap. In
every state of every such run, whatever the order of the workers' steps: the nodes that
exist are exactly those on the global free list, in the local stacks and handed out, each
in one place; `free_cnt` is the length of the free list; and each local stack stays inside
its array, with the part above `stack_max_len` linked as its segment. The segment is out of
date only while a call that has just given it back has not yet dropped it. -/
theorem pool_conserves_nodes {cfg : Config} {s₀ s : Pool} {es : List Event}
    (hpos : 1 ≤ cfg.fillFreeSize) (hsize : cfg.fillFreeSize ≤ cfg.localCacheSize)
    (init : SfPoolInit cfg cfg.workerThreadCnt s₀) (run : Run (Along Alone Step) s₀ es s) :
    (∃ free, Seg s.next s.head.freelist free none ∧ s.head.freeCnt = free.length ∧
      s.head.totalCnt = s.created.length ∧ s.head.dataAlignLen * s.head.totalCnt < 2 ^ 32 ∧
      s.created.Perm (free ++ s.localStacks ++ s.handed) ∧
      (free ++ s.localStacks ++ s.handed).Nodup) ∧
    ∀ w < cfg.workerThreadCnt,
      (s.perWorkerPool w).stackMaxLen = cfg.localCacheSize ∧
      (s.perWorkerPool w).currentStackLen ≤ cfg.localCacheSize + cfg.fillFreeSize ∧
      (s.calls w = [] →
        (s.perWorkerPool w).currentStackLen < cfg.localCacheSize + cfg.fillFreeSize) ∧
      (.recycled ∉ s.calls w → SegmentInv (s.perWorkerPool w) s.next) := by
  have start := sfPoolInit_inv hpos hsize init
  obtain ⟨workers, head, free, h⟩ : PoolInv cfg s :=
    run.invariant ⟨start.workers, start.head, start.conserved⟩ fun _ _ _ inv hs =>
      inv.step hpos hsize hs.1 hs.2
  refine ⟨⟨free, h.freelist, h.freeCnt, h.totalCnt, head.bytes_lt, h.places, h.places_nodup⟩,
    fun w hw => ?_⟩
  rw [← workers] at hw
  have inv := h.localInv w hw
  have hstackMax := h.stackMax w hw
  have hlistMax := h.freeListMax w hw
  rw [head.localCacheSize] at hstackMax
  rw [head.fillFreeSize] at hlistMax
  rw [← hstackMax, ← hlistMax]
  refine ⟨rfl, ?_, ?_, ?_⟩
  · match s.calls w, inv with
    | [], inv => exact Nat.le_of_lt inv.1
    | [.fill], inv => exact Nat.le_trans (Nat.le_of_eq inv.1) (Nat.zero_le _)
    | [.filled ret], inv => exact Nat.le_trans (Nat.le_of_eq inv.1) (Nat.zero_le _)
    | [.recycle], inv => exact Nat.le_of_eq inv.1
    | [.recycled], inv => exact Nat.le_of_eq inv
  · intro hcalls
    rw [hcalls] at inv
    exact inv.1
  · intro hcalls
    match s.calls w, inv, hcalls with
    | [], inv, _ => exact inv.2
    | [.fill], inv, _ => exact inv.2
    | [.filled ret], inv, _ => exact inv.2.2
    | [.recycle], inv, _ => exact inv.2
    | [.recycled], _, hcalls => exact absurd List.mem_cons_self hcalls

/-- Two workers with one node each. -/
def twoWorkers : Config := ⟨24, 1, 1, 1, 0, 2, by decide, by decide⟩

/-- A pool for `twoWorkers` in a block of memory at address 0. -/
def twoWorkersPool : Pool := ((splitPool twoWorkers 0 fun _ => none).initLocal none).initLocal none

theorem twoWorkersPool_init : SfPoolInit twoWorkers 2 twoWorkersPool :=
  .initLocal (.initLocal (.split 0 fun _ => none) trivial) trivial

/-- A node that the first worker has allocated is released by the second one, whose
local pool is full then and gives it back to the free list. -/
theorem pool_conserves_nodes_two_workers :
    ∃ s, Run (Along Alone Step) twoWorkersPool
        [.allocEnter 0, .freeEnter 1 64, .recycle 1, .freeLeave 1] s ∧
      s.head.freelist = some 64 ∧ s.created = [0, 64] ∧
      ∃ free, Seg s.next s.head.freelist free none ∧ s.head.freeCnt = free.length ∧
        s.created.Perm (free ++ s.localStacks ++ s.handed) := by
  have run : Run (Along Alone Step) twoWorkersPool
      [.allocEnter 0, .freeEnter 1 64, .recycle 1, .freeLeave 1]
      ((((twoWorkersPool.allocEnter 0).freeEnter 1 64).recycle 1 []).freeLeave 1 []) :=
    .cons ⟨rfl, .allocEnter (by decide)⟩ <| .cons ⟨rfl, .freeEnter (by decide) (by decide)⟩ <|
      .cons ⟨trivial, .recycle (by decide) (.of_eq rfl)⟩ <|
      .cons ⟨trivial, .freeLeave (by decide) (.of_eq rfl)⟩ (.refl _)
  obtain ⟨⟨free, hseg, hcnt, -, -, hplaces, -⟩, -⟩ :=
    @pool_conserves_nodes twoWorkers _ _ _ (by decide) (by decide) twoWorkersPool_init run
  exact ⟨_, run, by decide, by decide, free, hseg, hcnt, hplaces⟩

/-- Two workers with two nodes each, of which one is in the local pool. -/
def fourNodes : Config := ⟨24, 2, 1, 1, 0, 2, by decide, by decide⟩

def fourNodesPool : Pool := ((splitPool fourNodes 0 fun _ => none).initLocal none).initLocal none

theorem fourNodesPool_init : SfPoolInit fourNodes 2 fourNodesPool :=
  .initLocal (.initLocal (.split 0 fun _ => none) trivial) trivial

/-- What the second worker releases into the pool of the first one, while that waits for the
lock to refill its empty stack, is overwritten by the refill. -/
theorem released_node_overwritten :
    ¬∀ (cfg : Config) (s₀ s : Pool) (es : List Event), 1 ≤ cfg.fillFreeSize →
      cfg.fillFreeSize ≤ cfg.localCacheSize → SfPoolInit cfg cfg.workerThreadCnt s₀ →
      Run Step s₀ es s →
      ∃ free, Seg s.next s.head.freelist free none ∧ s.head.freeCnt = free.length ∧
        s.created.Perm (free ++ s.localStacks ++ s.handed) := by
  intro claim
  have run : Run Step fourNodesPool
      [.allocEnter 0, .allocEnter 0, .freeEnter 0 192, .fill 0 none, .allocLeave 0]
      (((((fourNodesPool.allocEnter 0).allocEnter 0).freeEnter 0 192).fill 0 none []).allocLeave
        0 1 []) :=
    .cons (.allocEnter (by decide)) <| .cons (.allocEnter (by decide)) <|
      .cons (.freeEnter (by decide) (by decide)) <|
      .cons (.fill (by decide) (.of_eq rfl) trivial) <|
      .cons (.allocLeave (by decide) (.of_eq rfl)) (.refl _)
  obtain ⟨free, -, hcnt, hplaces⟩ :=
    claim fourNodes _ _ _ (by decide) (by decide) fourNodesPool_init run
  have hlength := hplaces.length_eq
  rw [List.length_append, List.length_append, ← hcnt] at hlength
  exact absurd hlength (by decide)

end Tapplet.SfPool
