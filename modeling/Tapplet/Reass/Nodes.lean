import Mathlib.Data.List.Perm.Basic
import Tapplet.Reass.Split

/-!
# The reassembly nodes

The loop bodies of `sf_ip4_reass` and `sf_ip6_reass`, which are the same but for the
function they call, and those of `ip_reass_on_timer` and `ip_reass_forward`. Each node has
its own pair of arrays in which it collects what it hands on.

`enqueued` is not in the source. It is what `vlib_buffer_enqueue_to_next` was given so far.
-/

namespace Tapplet.Reass

/-- A worker with the arrays of its nodes. -/
structure Graph where
  worker : Worker
  arr : Version → EnqueueArrays
  preIndex : Version → Nat
  timerArr : EnqueueArrays
  forwardArr : EnqueueArrays
  enqueued : List (BufferId × Nat)

/-- The next nodes of the reassembly nodes. -/
def sfNextNodeSfAclEntry : Nat := 0

def sfNextNodeUdpInput : Nat := 1

def sfNextNodeTcpInput : Nat := 2

def sfNextNodeSfPktDrop : Nat := 3

def ipProTcp : Nat := 6

def ipProUdp : Nat := 17

/-- `sf_ip_reass_get_next_index`. -/
def sfIpReassGetNextIndex (ipProtocol : Nat) : Nat :=
  if ipProtocol = ipProTcp then sfNextNodeTcpInput
  else if ipProtocol = ipProUdp then sfNextNodeUdpInput
  else sfNextNodeSfAclEntry

/-- `SF_NEXT_NODE_SF_PKT_DROP` of `ip_reass_on_timer`. -/
def onTimerNextPktDrop : Nat := 1

namespace Graph

variable (g : Graph) (v : Version)

/-- The entries that a reassembly node has collected and not yet enqueued. -/
def posted : List (BufferId × Nat) := (g.arr v).slice 0 (g.preIndex v)

/-- `vlib_buffer_enqueue_to_next` with the entries before `pre_index`. -/
def enqueueToNext : Graph :=
  { g with
    enqueued := g.enqueued ++ g.posted v
    preIndex := Function.update g.preIndex v 0 }

/-- One more entry at `pre_index`. -/
def put (b : BufferId) (next : Nat) : Graph :=
  { g with
    arr := Function.update g.arr v
      (((g.arr v).setBuffer (g.preIndex v) b).setNext (g.preIndex v) next)
    preIndex := Function.update g.preIndex v (g.preIndex v + 1) }

/-- `split_frag_buffer_on_fail` on the arrays from `pre_index` on. -/
def handBack (b : BufferId) : Graph :=
  let x := splitFragBufferOnFail g.worker (g.arr v) b (g.preIndex v) sfNextNodeSfAclEntry
    sfNextNodeSfPktDrop
  { g with
    worker := { g.worker with wdata := x.wdata }
    arr := Function.update g.arr v x.arr
    preIndex := Function.update g.preIndex v (g.preIndex v + x.count) }

/-- What a reassembly node does with the buffer `ret` and the status that processing a fragment
returned. -/
def dispatch (ret : Option BufferId) (status : Int) : Graph :=
  let g :=
    match ret with
    | none => g
    | some b =>
        if status = 0 then
          g.put v b (sfIpReassGetNextIndex (g.worker.wdata b).ipWdata.protocol)
        else if 0 < status then
          let full := (vlibFrameSize : Int) ≤ g.preIndex v + status * ipReassMaxCachePkts
          (if full then g.enqueueToNext v else g).handBack v b
        else if status = -1 then g.put v b sfNextNodeSfAclEntry
        else g
  if vlibFrameSize ≤ g.preIndex v then g.enqueueToNext v else g

/-- `ip_reass_on_timer` for one timer. -/
def onTimer (info : Nat) : Graph :=
  let timerData := g.worker.timerData info
  match timerData.pnode with
  | none => { g with worker := g.worker.freeInfo info }
  | some pnode =>
      let s := g.worker.hashFree pnode timerData.hashIndex
      match (s.node pnode).head with
      | none => { g with worker := s.freeNode pnode } -- a node in the table has fragments
      | some b0 =>
          let x := splitFragBufferOnFail s g.timerArr b0 0 sfNextNodeSfAclEntry onTimerNextPktDrop
          { g with
            worker := { s with wdata := x.wdata }.freeNode pnode
            timerArr := x.arr
            enqueued := g.enqueued ++ x.arr.slice 0 x.count }

/-- `ip_reass_forward` for one buffer. -/
def forward (b0 : BufferId) : Graph :=
  let r := splitFragBuffer g.worker g.forwardArr b0
  { g with
    worker := { g.worker with wdata := r.2.wdata }
    forwardArr := r.2.arr
    enqueued := g.enqueued ++ r.2.arr.slice 0 r.1 }

/-- The buffers that were handed on: an entry of each was enqueued, or is about to be. -/
def handed : List BufferId :=
  (g.enqueued ++ g.posted .ip4 ++ g.posted .ip6).map Prod.fst

end Graph

/-! ## Rows of packets -/

/-- Packets that came in as they are, linked in this order. -/
structure Row (s : Worker) (bs : List BufferId) : Prop where
  linked : Linked.Seg s.nextFrag bs.head? bs none
  leaf : ∀ b ∈ bs, ¬(s.wdata b).isReass
  followed : ∀ b ∈ bs, (s.record b).followedNodesCnt = 0

section Row

variable {s s' : Worker} {bs : List BufferId}

theorem Row.congr (h : Row s bs) (record : ∀ b ∈ bs, s'.record b = s.record b)
    (unused8 : ∀ b ∈ bs, (s'.wdata b).unused8 = (s.wdata b).unused8) : Row s' bs where
  linked := h.linked.congr fun b hb => by
    rw [Worker.nextFrag, Worker.nextFrag, record b hb]
  leaf := fun b hb => by
    rw [isReass_congr (unused8 b hb)]
    exact h.leaf b hb
  followed := fun b hb => by
    rw [record b hb]
    exact h.followed b hb

/-- The split loops see a row as a forest of leaves. -/
theorem Row.rep (h : Row s bs) : Rep s.record s.wdata bs.head? (Forest.leaves bs) := by
  obtain ⟨linked, leaf, followed⟩ := h
  generalize bs.head? = p at linked
  induction bs generalizing p with
  | nil => exact linked
  | cons b bs ih =>
      obtain ⟨rfl, hrest⟩ := linked
      refine ⟨rfl, followed b (by simp), ?_, fun hkids => absurd hkids (by simp [Forest.isNil]), ?_⟩
      · simp [leaf b (by simp), Forest.isNil]
      · apply ih
        · exact fun c hc => leaf c (by simp [hc])
        · exact fun c hc => followed c (by simp [hc])
        · exact hrest

end Row

/-! ## What the nodes hand on -/

/-- No array was written beyond its end. -/
structure Graph.Fits (g : Graph) : Prop where
  arr : ∀ v, (g.arr v).top ≤ arrayLength
  timerArr : g.timerArr.top ≤ arrayLength
  forwardArr : g.forwardArr.top ≤ arrayLength

/-- The buffers `bs` were handed on. Of the worker only their metadata has changed, and never
the flags. -/
structure HandedOn (g g' : Graph) (bs : List BufferId) : Prop where
  handed : g'.handed.Perm (g.handed ++ bs)
  enqueued : g.enqueued <+: g'.enqueued
  worker : ∃ wdata, g'.worker = { g.worker with wdata := wdata }
  unused8 : ∀ b, (g'.worker.wdata b).unused8 = (g.worker.wdata b).unused8
  kept : ∀ b, b ∉ bs → g'.worker.wdata b = g.worker.wdata b
  fits : g'.Fits

namespace Graph

variable {g g' : Graph} {v : Version} {b : BufferId} {bs : List BufferId} {status : Int}

theorem posted_of_ne {u : Version} (arr : g'.arr u = g.arr u)
    (preIndex : g'.preIndex u = g.preIndex u) : g'.posted u = g.posted u := by
  rw [posted, posted, arr, preIndex]

theorem enqueueToNext_posted_self : (g.enqueueToNext v).posted v = [] := by
  simp [posted, enqueueToNext]

theorem enqueueToNext_posted_of_ne {u : Version} (h : u ≠ v) :
    (g.enqueueToNext v).posted u = g.posted u :=
  posted_of_ne rfl (Function.update_of_ne h _ _)

theorem enqueueToNext_handed : (g.enqueueToNext v).handed.Perm g.handed := by
  have henq : (g.enqueueToNext v).enqueued = g.enqueued ++ g.posted v := rfl
  cases v with
  | ip4 =>
      rw [handed, henq, enqueueToNext_posted_self, enqueueToNext_posted_of_ne (by simp),
        List.append_nil, handed]
  | ip6 =>
      rw [handed, henq, enqueueToNext_posted_self, enqueueToNext_posted_of_ne (by simp),
        List.append_nil, handed]
      refine List.Perm.map _ ?_
      rw [List.append_assoc, List.append_assoc]
      exact List.perm_append_comm.append_left _

/-- Entries were added to the array of the node `v`. -/
theorem handed_of_more {entries : List (BufferId × Nat)} (enqueued : g'.enqueued = g.enqueued)
    (same : ∀ u, u ≠ v → g'.posted u = g.posted u) (more : g'.posted v = g.posted v ++ entries) :
    g'.handed.Perm (g.handed ++ entries.map Prod.fst) := by
  cases v with
  | ip4 =>
      rw [handed, handed, enqueued, more, same .ip6 (by simp), ← List.map_append]
      refine List.Perm.map _ ?_
      simp only [List.append_assoc]
      exact (List.perm_append_comm.append_left _).append_left _
  | ip6 =>
      rw [handed, handed, enqueued, more, same .ip4 (by simp), ← List.map_append]
      simp only [List.append_assoc]
      exact List.Perm.refl _

end Graph

section HandedOn

variable {g g' g'' : Graph} {v : Version} {b : BufferId} {bs bs' : List BufferId} {status : Int}

theorem HandedOn.refl (fits : g.Fits) : HandedOn g g [] :=
  ⟨by simp, List.prefix_refl _, ⟨_, rfl⟩, fun _ => rfl, fun _ _ => rfl, fits⟩

theorem HandedOn.trans (h : HandedOn g g' bs) (h' : HandedOn g' g'' bs') :
    HandedOn g g'' (bs ++ bs') where
  handed := by
    refine h'.handed.trans ((h.handed.append_right bs').trans (.of_eq ?_))
    exact List.append_assoc ..
  enqueued := h.enqueued.trans h'.enqueued
  worker := by
    obtain ⟨w, hw⟩ := h.worker
    obtain ⟨w', hw'⟩ := h'.worker
    exact ⟨w', by rw [hw', hw]⟩
  unused8 := fun c => (h'.unused8 c).trans (h.unused8 c)
  kept := by
    intro c hc
    rw [List.mem_append, not_or] at hc
    exact (h'.kept c hc.2).trans (h.kept c hc.1)
  fits := h'.fits

theorem enqueueToNext_handedOn (fits : g.Fits) : HandedOn g (g.enqueueToNext v) [] where
  handed := by simpa using Graph.enqueueToNext_handed
  enqueued := List.prefix_append ..
  worker := ⟨g.worker.wdata, rfl⟩
  unused8 := fun _ => rfl
  kept := fun _ _ => rfl
  fits := ⟨fits.arr, fits.timerArr, fits.forwardArr⟩

/-- Entries were added to the array of the node `v`, from `pre_index` on. -/
theorem Graph.posted_extend {n : Nat}
    (below : ∀ i < g.preIndex v, (g'.arr v).buffers i = (g.arr v).buffers i ∧
      (g'.arr v).nexts i = (g.arr v).nexts i)
    (preIndex : g'.preIndex v = g.preIndex v + n) :
    g'.posted v = g.posted v ++ (g'.arr v).slice (g.preIndex v) n := by
  rw [posted, preIndex, EnqueueArrays.slice_add, posted]
  congr 1
  apply EnqueueArrays.slice_congr
  simpa using below

theorem put_handedOn (fits : g.Fits) (room : g.preIndex v < vlibFrameSize) (b : BufferId)
    (next : Nat) : HandedOn g (g.put v b next) [b] where
  handed := by
    have hmore : (g.put v b next).posted v =
        g.posted v ++ ((g.put v b next).arr v).slice (g.preIndex v) 1 := by
      apply Graph.posted_extend
      · intro i hi
        have hne : i ≠ g.preIndex v := Nat.ne_of_lt hi
        simp [Graph.put, EnqueueArrays.setBuffer, EnqueueArrays.setNext, hne]
      · simp [Graph.put]
    have hentries : ((g.put v b next).arr v).slice (g.preIndex v) 1 = [(b, next)] := by
      simp [Graph.put, EnqueueArrays.slice, EnqueueArrays.setBuffer, EnqueueArrays.setNext]
    rw [hentries] at hmore
    have hperm : (g.put v b next).handed.Perm (g.handed ++ [(b, next)].map Prod.fst) := by
      refine Graph.handed_of_more rfl (fun u hu => ?_) hmore
      exact Graph.posted_of_ne (Function.update_of_ne hu _ _) (Function.update_of_ne hu _ _)
    exact hperm
  enqueued := List.prefix_refl _
  worker := ⟨g.worker.wdata, rfl⟩
  unused8 := fun _ => rfl
  kept := fun _ _ => rfl
  fits := by
    refine ⟨fun u => ?_, fits.timerArr, fits.forwardArr⟩
    by_cases hu : u = v
    · subst hu
      have htop := fits.arr u
      simp only [Graph.put, Function.update_self, EnqueueArrays.setNext_top,
        EnqueueArrays.setBuffer_top, arrayLength]
      rw [arrayLength] at htop
      omega
    · simp only [Graph.put, Function.update_of_ne hu]
      exact fits.arr u

/-- A row of packets is handed back. -/
theorem handBack_handedOn (fits : g.Fits) (row : Row g.worker bs) (head : bs.head? = some b)
    (room : g.preIndex v + bs.length ≤ arrayLength) :
    HandedOn g (g.handBack v b) bs ∧
      (g.handBack v b).preIndex = Function.update g.preIndex v (g.preIndex v + bs.length) := by
  have hrep := row.rep
  rw [head] at hrep
  obtain ⟨x, hx⟩ : ∃ x, x = splitFragBufferOnFail g.worker (g.arr v) b (g.preIndex v)
    sfNextNodeSfAclEntry sfNextNodeSfPktDrop := ⟨_, rfl⟩
  obtain ⟨hdone, hcount⟩ := splitFragBufferOnFail_done hrep (by simp; omega) (by simpa using room)
    (fits.arr v) hx.symm
  have hbuffers : ((Forest.leaves bs).preorder sfNextNodeSfAclEntry sfNextNodeSfPktDrop).map
      Prod.fst = bs := by simp
  rw [Forest.leaves_size] at hcount
  have hslice := hdone.slice
  rw [Forest.preorder_length, Forest.leaves_size] at hslice
  obtain ⟨g', hg'⟩ : ∃ g' : Graph, g' = { g with
      worker := { g.worker with wdata := x.wdata }
      arr := Function.update g.arr v x.arr
      preIndex := Function.update g.preIndex v (g.preIndex v + bs.length) } := ⟨_, rfl⟩
  have hgraph : g.handBack v b = g' := by
    rw [hg', ← hcount, hx]
    rfl
  have harr : g'.arr v = x.arr := by simp [hg']
  have hmore : g'.posted v = g.posted v ++ (g'.arr v).slice (g.preIndex v) bs.length := by
    apply Graph.posted_extend
    · rw [harr]
      exact hdone.below
    · simp [hg']
  rw [harr, hslice] at hmore
  have hperm : g'.handed.Perm (g.handed ++
      ((Forest.leaves bs).preorder sfNextNodeSfAclEntry sfNextNodeSfPktDrop).map Prod.fst) := by
    refine Graph.handed_of_more (by rw [hg']) (fun u hu => Graph.posted_of_ne ?_ ?_) hmore
    · rw [hg']
      exact Function.update_of_ne hu _ _
    · rw [hg']
      exact Function.update_of_ne hu _ _
  rw [hbuffers] at hperm
  rw [hgraph]
  refine ⟨⟨hperm, ?_, ⟨x.wdata, by rw [hg']⟩, ?_, ?_, ?_⟩, by rw [hg']⟩
  · exact ⟨[], by rw [hg', List.append_nil]⟩
  · rw [hg']
    exact hdone.unused8
  · intro c hc
    rw [hg']
    exact hdone.kept c (by rwa [hbuffers])
  · have hother : g'.timerArr = g.timerArr ∧ g'.forwardArr = g.forwardArr := by rw [hg']; simp
    refine ⟨fun u => ?_, by rw [hother.1]; exact fits.timerArr,
      by rw [hother.2]; exact fits.forwardArr⟩
    by_cases hu : u = v
    · rw [hu, harr]
      exact hdone.top
    · rw [hg']
      simp only [Function.update_of_ne hu]
      exact fits.arr u

/-- What the processing of a fragment may return to its node: nothing, one packet that goes on,
or a row of packets that is handed back. `bs` are the buffers meant. -/
inductive Returned (s : Worker) : Option BufferId → Int → List BufferId → Prop where
  | nothing : Returned s none 0 []
  | packet (b : BufferId) : Returned s (some b) 0 [b]
  | layer (b : BufferId) : Returned s (some b) (-1) [b]
  | row {bs : List BufferId} {b : BufferId} {n : Nat} (row : Row s bs) (head : bs.head? = some b)
      (pos : 0 < n) (length : bs.length ≤ n + 1) (short : n ≤ ipReassMaxCachePkts) :
      Returned s (some b) n bs

/-- The last lines of the loop: a full array is enqueued. -/
theorem HandedOn.flush (h : HandedOn g g' bs) (room : ∀ u, u ≠ v → g'.preIndex u < vlibFrameSize) :
    HandedOn g (if vlibFrameSize ≤ g'.preIndex v then g'.enqueueToNext v else g') bs ∧
      ∀ u, (if vlibFrameSize ≤ g'.preIndex v then g'.enqueueToNext v else g').preIndex u <
        vlibFrameSize := by
  split
  next hfull =>
    refine ⟨by simpa using h.trans (enqueueToNext_handedOn h.fits), fun u => ?_⟩
    by_cases hu : u = v
    · subst hu
      simp [Graph.enqueueToNext, vlibFrameSize]
    · simp only [Graph.enqueueToNext, Function.update_of_ne hu]
      exact room u hu
  next hfull =>
    refine ⟨h, fun u => ?_⟩
    by_cases hu : u = v
    · subst hu
      exact Nat.lt_of_not_le hfull
    · exact room u hu

/-- A reassembly node hands on what it is given, and its arrays have room for it: before a row is
handed back the array is emptied unless ten entries for each counted packet are left. -/
theorem dispatch_handedOn (fits : g.Fits) (room : ∀ u, g.preIndex u < vlibFrameSize) (v : Version)
    {ret : Option BufferId} (h : Returned g.worker ret status bs) :
    HandedOn g (g.dispatch v ret status) bs ∧
      ∀ u, (g.dispatch v ret status).preIndex u < vlibFrameSize := by
  have hput (b : BufferId) (next : Nat) := (put_handedOn fits (room v) b next).flush (v := v)
    fun u hu => by
      simp only [Graph.put, Function.update_of_ne hu]
      exact room u
  cases h with
  | nothing => exact (HandedOn.refl fits).flush fun u _ => room u
  | packet b => exact hput b _
  | layer b => exact hput b _
  | @row bs b n row head pos length short =>
      have hzero : ¬(n : Int) = 0 := by omega
      have hpos : (0 : Int) < n := by omega
      simp only [Graph.dispatch, if_neg hzero, if_pos hpos]
      rw [ipReassMaxCachePkts] at short
      have hlen : bs.length ≤ 11 := by omega
      have hback : ∀ g₁ : Graph, HandedOn g g₁ [] → g₁.preIndex v + bs.length ≤ vlibFrameSize →
          (∀ u, u ≠ v → g₁.preIndex u < vlibFrameSize) →
          HandedOn g (g₁.handBack v b) bs ∧
            ∀ u, u ≠ v → (g₁.handBack v b).preIndex u < vlibFrameSize := by
        intro g₁ h₁ hroom hother
        have hrow : Row g₁.worker bs := row.congr (fun c _ => by
          obtain ⟨w, hw⟩ := h₁.worker
          rw [hw]) fun c _ => h₁.unused8 c
        obtain ⟨hon, hpre⟩ := handBack_handedOn (v := v) h₁.fits hrow head
          (by rw [arrayLength]; omega)
        refine ⟨by simpa using h₁.trans hon, fun u hu => ?_⟩
        rw [hpre, Function.update_of_ne hu]
        exact hother u hu
      split
      next hfull =>
        obtain ⟨hon, hother⟩ := hback (g.enqueueToNext v) (enqueueToNext_handedOn fits)
          (by simp only [Graph.enqueueToNext, Function.update_self, vlibFrameSize]; omega)
          fun u hu => by
            simp only [Graph.enqueueToNext, Function.update_of_ne hu]
            exact room u
        exact hon.flush hother
      next hfull =>
        obtain ⟨hon, hother⟩ := hback g (.refl fits)
          (by rw [vlibFrameSize, ipReassMaxCachePkts] at hfull; rw [vlibFrameSize]; omega)
          fun u _ => room u
        exact hon.flush hother

/-- Entries were enqueued past the arrays of the reassembly nodes. -/
theorem Graph.handed_of_enqueued {entries : List (BufferId × Nat)}
    (enqueued : g'.enqueued = g.enqueued ++ entries) (arr : g'.arr = g.arr)
    (preIndex : g'.preIndex = g.preIndex) : g'.handed.Perm (g.handed ++ entries.map Prod.fst) := by
  rw [handed, handed, enqueued, posted, posted, posted, posted, arr, preIndex]
  refine List.perm_iff_count.mpr fun c => ?_
  simp only [List.map_append, List.count_append]
  omega

/-- The timer of a waiting datagram: its row is handed back, and its node is released. -/
theorem onTimer_handedOn {info i : Nat} {n : NodeId} (fits : g.Fits)
    (data : g.worker.timerData info = ⟨i, some n⟩) (row : Row g.worker bs)
    (head : (g.worker.node n).head = some b) (first : bs.head? = some b)
    (short : bs.length ≤ arrayLength) :
    HandedOn { g with worker := (g.worker.hashFree n i).freeNode n } (g.onTimer info) bs ∧
      (g.onTimer info).preIndex = g.preIndex := by
  have hrep := row.rep
  rw [first] at hrep
  obtain ⟨x, hx⟩ : ∃ x, x = splitFragBufferOnFail (g.worker.hashFree n i) g.timerArr b 0
    sfNextNodeSfAclEntry onTimerNextPktDrop := ⟨_, rfl⟩
  obtain ⟨hdone, hcount⟩ := splitFragBufferOnFail_done hrep (by simpa using short)
    (by simpa using short) fits.timerArr hx.symm
  have hbuffers : ((Forest.leaves bs).preorder sfNextNodeSfAclEntry onTimerNextPktDrop).map
      Prod.fst = bs := by simp
  have hslice := hdone.slice
  rw [Forest.preorder_length, ← hcount] at hslice
  obtain ⟨g', hg'⟩ : ∃ g' : Graph, g' = { g with
      worker := { g.worker.hashFree n i with wdata := x.wdata }.freeNode n
      timerArr := x.arr
      enqueued := g.enqueued ++ x.arr.slice 0 x.count } := ⟨_, rfl⟩
  have hgraph : g.onTimer info = g' := by
    have hhead : ((g.worker.hashFree n i).node n).head = some b := head
    simp only [Graph.onTimer, data, hhead]
    rw [← hx, hg']
  have hperm : g'.handed.Perm (g.handed ++
      ((Forest.leaves bs).preorder sfNextNodeSfAclEntry onTimerNextPktDrop).map Prod.fst) := by
    apply Graph.handed_of_enqueued
    · rw [hg', ← hslice]
    · rw [hg']
    · rw [hg']
  rw [hbuffers] at hperm
  rw [hgraph]
  refine ⟨⟨hperm, ?_, ⟨x.wdata, by rw [hg']; rfl⟩, ?_, ?_, ?_⟩, by rw [hg']⟩
  · rw [hg']
    exact List.prefix_append ..
  · rw [hg']
    exact hdone.unused8
  · intro c hc
    rw [hg']
    exact hdone.kept c (by rwa [hbuffers])
  · rw [hg']
    exact ⟨fits.arr, hdone.top, fits.forwardArr⟩

/-- A built packet is taken apart: it is handed on together with its row of fragments. -/
theorem forward_handedOn {kids : List BufferId} (fits : g.Fits)
    (built : (g.worker.wdata b).isReass) (alone : (g.worker.record b).nextFrag = none)
    (child : (g.worker.record b).childFrag = kids.head?) (row : Row g.worker kids)
    (followed : (g.worker.record b).followedNodesCnt = kids.length) (some_kids : kids ≠ [])
    (short : 1 + kids.length ≤ arrayLength) :
    HandedOn g (g.forward b) (b :: kids) ∧ (g.forward b).preIndex = g.preIndex := by
  have hinner : (Forest.leaves kids).isNil = false := by
    cases kids with
    | nil => exact absurd rfl some_kids
    | cons k ks => rfl
  have hrep : Rep g.worker.record g.worker.wdata (some b) (.tree b (Forest.leaves kids)) := by
    refine ⟨rfl, by simpa using followed, by simp [built, hinner], fun _ => ?_, alone⟩
    rw [child]
    exact row.rep
  have hne : Forest.leaves kids ≠ .nil := by
    intro hnil
    simp [hnil, Forest.isNil] at hinner
  obtain ⟨r, hr⟩ : ∃ r, r = splitFragBuffer g.worker g.forwardArr b := ⟨_, rfl⟩
  obtain ⟨next, hdone, hcount⟩ := splitFragBuffer_done hrep hne (by simpa using short)
    (by simpa using short) fits.forwardArr hr.symm
  obtain ⟨entries, hentries⟩ : ∃ entries, entries =
      (b, if (g.worker.record b).ipReassOutput ≠ 0 then next else forwardNextPktDrop) ::
        (Forest.leaves kids).preorder next forwardNextPktDrop := ⟨_, rfl⟩
  rw [← hentries] at hdone
  have hbuffers : entries.map Prod.fst = b :: kids := by simp [hentries]
  have hlength : entries.length = r.1 := by
    rw [hcount, hentries]
    simp only [List.length_cons, Forest.preorder_length]
    omega
  have hslice := hdone.slice
  rw [hlength] at hslice
  have hgraph : g.forward b = { g with
      worker := { g.worker with wdata := r.2.wdata }
      forwardArr := r.2.arr
      enqueued := g.enqueued ++ r.2.arr.slice 0 r.1 } := by
    rw [hr]
    rfl
  have hperm : (g.forward b).handed.Perm (g.handed ++ entries.map Prod.fst) := by
    apply Graph.handed_of_enqueued
    · rw [hgraph, hslice]
    · rw [hgraph]
    · rw [hgraph]
  rw [hbuffers] at hperm
  rw [hgraph] at hperm ⊢
  refine ⟨⟨hperm, List.prefix_append .., ⟨_, rfl⟩, hdone.unused8, ?_, ?_⟩, rfl⟩
  · intro c hc
    exact hdone.kept c (by rwa [hbuffers])
  · exact ⟨fits.arr, fits.timerArr, hdone.top⟩

end HandedOn

end Tapplet.Reass
