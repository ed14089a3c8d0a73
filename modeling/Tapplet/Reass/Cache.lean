import Tapplet.Reass.Datagram

/-!
# The reassembly table

`Cache` says that the hash table of a worker holds exactly the datagrams `live`: each has
a node in the bucket of its key, the node describes the fragments, and the fragments are
linked in order of arrival. The lemmas below are the ways in which the table changes.
-/

namespace Tapplet.Reass

open Linked GenericHash

/-- The buffer of `f` still holds what came with it, and its record was filled in. -/
structure FragOk (s : Worker) (f : Fragment) : Prop where
  wdata : s.wdata f.buffer = f.wdata
  data : load s.mem f.wdata.dataPtr = f.data
  mapped : f.wdata.dataPtr.block ≠ none
  leaf : ¬f.wdata.isReass
  fragOffset : (s.record f.buffer).fragOffset = f.offset
  fragSize : (s.record f.buffer).fragSize = f.size
  ipHdrLen : (s.record f.buffer).ipHdrLen = f.hdrLen
  output : (s.record f.buffer).ipReassOutput = f.output
  followed : (s.record f.buffer).followedNodesCnt = 0

/-- The fragments `fs` are linked in this order. -/
structure Chain (s : Worker) (fs : List Fragment) : Prop where
  linked : Seg s.nextFrag (buffers fs).head? (buffers fs) none
  ok : ∀ f ∈ fs, FragOk s f
  nodup : (buffers fs).Nodup

/-- The list fields of a node. -/
structure NodeList (D : NodeIpReass) (key : KeyIpReass) (fs : List Fragment) : Prop where
  key : D.key = key
  head : D.head = (buffers fs).head?
  tail : D.tail = (buffers fs).getLast?
  count : D.cachePktNum + 1 = fs.length

/-- The length fields of a node. -/
structure NodeSums (D : NodeIpReass) (fs : List Fragment) : Prop where
  meet : D.meetLen = meetLen fs
  total : D.totalLen = totalLen fs
  last : D.recvLastFrag = recvLastFrag fs

structure DatagramOk (s : Worker) (d : Datagram) : Prop where
  list : NodeList (s.node d.node) d.key d.frags
  sums : NodeSums (s.node d.node) d.frags
  chain : Chain s d.frags
  keys : ∀ f ∈ d.frags, f.key = d.key
  short : d.frags.length ≤ ipReassMaxCachePkts
  offsets : (d.frags.map Fragment.offset).Nodup

structure Cache (env : Env) (s : Worker) (live : List Datagram) : Prop where
  table : ∃ cells, HashInv s.table cells ∧ ∀ i n, n ∈ cells i ↔
    ∃ d ∈ live, d.node = n ∧ s.table.bucketIndex (d.hashIndex env) = i
  nodes : (live.map (·.node)).Nodup
  keys : (live.map (·.key)).Nodup
  ok : ∀ d ∈ live, DatagramOk s d
  buffers : (cachedBuffers live).Nodup

variable {env : Env} {s s' : Worker} {live l₁ l₂ : List Datagram} {d : Datagram}
  {f : Fragment} {fs : List Fragment}

/-! ## Frame rules -/

/-- The buffer `b` has the same record, metadata and bytes. -/
structure SameBuffer (s s' : Worker) (b : BufferId) : Prop where
  record : s'.record b = s.record b
  wdata : s'.wdata b = s.wdata b
  data : load s'.mem (s.wdata b).dataPtr = load s.mem (s.wdata b).dataPtr

theorem SameBuffer.of_eq {b : BufferId} (record : s'.record = s.record)
    (wdata : s'.wdata = s.wdata) (mem : s'.mem = s.mem) : SameBuffer s s' b :=
  ⟨by rw [record], by rw [wdata], by rw [mem]⟩

theorem SameBuffer.trans {s'' : Worker} {b : BufferId} (h : SameBuffer s s' b)
    (h' : SameBuffer s' s'' b) : SameBuffer s s'' b where
  record := h'.record.trans h.record
  wdata := h'.wdata.trans h.wdata
  data := by
    have hdata := h'.data
    rw [h.wdata] at hdata
    exact hdata.trans h.data

theorem FragOk.congr (h : FragOk s f) (same : SameBuffer s s' f.buffer) : FragOk s' f where
  wdata := same.wdata.trans h.wdata
  data := by
    have hdata := same.data
    rw [h.wdata] at hdata
    exact hdata.trans h.data
  mapped := h.mapped
  leaf := h.leaf
  fragOffset := by rw [same.record, h.fragOffset]
  fragSize := by rw [same.record, h.fragSize]
  ipHdrLen := by rw [same.record, h.ipHdrLen]
  output := by rw [same.record, h.output]
  followed := by rw [same.record, h.followed]

theorem Chain.congr (h : Chain s fs) (same : ∀ f ∈ fs, SameBuffer s s' f.buffer) :
    Chain s' fs where
  linked := h.linked.congr fun b hb => by
    obtain ⟨f, hf, rfl⟩ := List.mem_map.mp hb
    rw [Worker.nextFrag, Worker.nextFrag, (same f hf).record]
  ok := fun f hf => (h.ok f hf).congr (same f hf)
  nodup := h.nodup

theorem DatagramOk.congr (h : DatagramOk s d) (node : s'.node d.node = s.node d.node)
    (same : ∀ f ∈ d.frags, SameBuffer s s' f.buffer) : DatagramOk s' d where
  list := node ▸ h.list
  sums := node ▸ h.sums
  chain := h.chain.congr same
  keys := h.keys
  short := h.short
  offsets := h.offsets

theorem Chain.fuel_chain (h : Chain s fs) {fuel : Nat} (hfuel : fs.length ≤ fuel) :
    s.chain fuel (buffers fs).head? = buffers fs := by
  rw [Worker.chain, collect_of_seg h.linked (by simpa using hfuel), Option.getD_some]

/-- Link a fragment behind the last one. -/
theorem Chain.append (h : Chain s fs) {tail : BufferId} (htail : (buffers fs).getLast? = some tail)
    (hf : FragOk s f) (hnext : s.nextFrag f.buffer = none) (fresh : f.buffer ∉ buffers fs) :
    Chain (s.setRecord tail { s.record tail with nextFrag := some f.buffer }) (fs ++ [f]) := by
  obtain ⟨init, hinit⟩ := List.getLast?_eq_some_iff.mp htail
  have hnodup : (init ++ [tail]).Nodup := hinit ▸ h.nodup
  have htailNot : tail ∉ init := fun hmem =>
    (List.nodup_append.mp hnodup).2.2 tail hmem tail (by simp) rfl
  have hne : tail ≠ f.buffer := by
    rintro rfl
    exact fresh (List.mem_of_getLast? htail)
  have hnextFrag : (s.setRecord tail { s.record tail with nextFrag := some f.buffer }).nextFrag =
      Function.update s.nextFrag tail (some f.buffer) := by
    funext b
    by_cases hb : b = tail
    · subst hb
      simp [Worker.nextFrag, Worker.setRecord]
    · simp [Worker.nextFrag, Worker.setRecord, hb]
  have hok : ∀ g, FragOk s g →
      FragOk (s.setRecord tail { s.record tail with nextFrag := some f.buffer }) g := by
    intro g hg
    by_cases hb : g.buffer = tail
    · obtain ⟨hw, hd, hm, hl, ho, hs, hi, hout, hfo⟩ := hg
      rw [hb] at hw ho hs hi hout hfo
      exact ⟨hb ▸ hw, hd, hm, hl, by simpa [Worker.setRecord, hb] using ho,
        by simpa [Worker.setRecord, hb] using hs, by simpa [Worker.setRecord, hb] using hi,
        by simpa [Worker.setRecord, hb] using hout, by simpa [Worker.setRecord, hb] using hfo⟩
    · exact hg.congr ⟨by simp [Worker.setRecord, hb], rfl, rfl⟩
  refine ⟨?_, ?_, ?_⟩
  · rw [hnextFrag]
    have hlast : Seg s.nextFrag (some f.buffer) [f.buffer] none := by simp [hnext]
    have hlinked := h.linked
    rw [hinit] at hlinked
    have hjoin := hlinked.join hlast htailNot (by simpa using hne)
    rw [buffers_append, hinit]
    simpa using hjoin
  · intro g hg
    rcases List.mem_append.mp hg with hg | hg
    · exact hok g (h.ok g hg)
    · obtain rfl := List.mem_singleton.mp hg
      exact hok g hf
  · rw [buffers_append]
    refine List.nodup_append.mpr ⟨h.nodup, by simp, ?_⟩
    rintro b hb _ hc rfl
    obtain rfl : b = f.buffer := by simpa using hc
    exact fresh hb

/-! ## Changes of the table -/

namespace Cache

theorem mem_of_split (h : Cache env s (l₁ ++ d :: l₂)) {e : Datagram} (he : e ∈ l₁ ++ l₂) :
    e ∈ l₁ ++ d :: l₂ ∧ e.node ≠ d.node ∧ e.key ≠ d.key := by
  have hmem : e ∈ l₁ ++ d :: l₂ := by
    rcases List.mem_append.mp he with he | he
    · exact List.mem_append_left _ he
    · exact List.mem_append_right _ (List.mem_cons_of_mem _ he)
  have hnodes := (List.perm_middle.map _).nodup_iff.mp h.nodes
  have hkeys := (List.perm_middle.map _).nodup_iff.mp h.keys
  rw [List.map_cons, List.nodup_cons] at hnodes hkeys
  refine ⟨hmem, fun heq => hnodes.1 ?_, fun heq => hkeys.1 ?_⟩
  · rw [← heq]
    exact List.mem_map_of_mem he
  · rw [← heq]
    exact List.mem_map_of_mem he

theorem key_inj (h : Cache env s live) {e : Datagram} (hd : d ∈ live) (he : e ∈ live)
    (hkey : d.key = e.key) : d = e :=
  List.inj_on_of_nodup_map h.keys hd he hkey

/-- The lookup finds the node of the datagram with the key. -/
theorem hashFind_eq (h : Cache env s live) (hd : d ∈ live) :
    s.hashFind (d.hashIndex env) d.key = some d.node := by
  obtain ⟨cells, hinv, hcells⟩ := h.table
  rw [Worker.hashFind, hinv.find]
  obtain ⟨i, hi⟩ : ∃ i, i = s.table.bucketIndex (d.hashIndex env) := ⟨_, rfl⟩
  have hbytes : ∀ e ∈ live, ((s.node e.node).key.bytes).take d.key.bytes.length = d.key.bytes ↔
      e = d := by
    intro e he
    have hlen : d.key.bytes.length = (s.node e.node).key.bytes.length := by simp
    rw [hlen, List.take_length, (h.ok e he).list.key]
    constructor
    · intro heq
      exact h.key_inj he hd (KeyIpReass.bytes_inj heq)
    · rintro rfl
      rfl
  rw [← hi]
  have hmem : d.node ∈ cells i := (hcells i _).mpr ⟨d, hd, rfl, hi.symm⟩
  have hfound : ∃ n, (cells i).find? (fun node =>
      ((s.node node).key.bytes).take d.key.bytes.length = d.key.bytes) = some n := by
    rw [← Option.isSome_iff_exists, List.find?_isSome]
    exact ⟨d.node, hmem, by simpa using (hbytes d hd).mpr rfl⟩
  obtain ⟨n, hn⟩ := hfound
  obtain ⟨e, he, rfl, -⟩ := (hcells i n).mp (List.mem_of_find?_eq_some hn)
  have hkey := List.find?_some hn
  rw [decide_eq_true_eq, hbytes e he] at hkey
  rw [hn, hkey]

/-- The lookup finds nothing for a key without a datagram. -/
theorem hashFind_none (h : Cache env s live) {key : KeyIpReass}
    (unknown : ∀ d ∈ live, d.key ≠ key) (hashIndex : Nat) : s.hashFind hashIndex key = none := by
  obtain ⟨cells, hinv, hcells⟩ := h.table
  rw [Worker.hashFind, hinv.find, List.find?_eq_none]
  intro n hn
  obtain ⟨e, he, rfl, -⟩ := (hcells _ n).mp hn
  have hlen : key.bytes.length = (s.node e.node).key.bytes.length := by simp
  rw [decide_eq_true_eq, hlen, List.take_length, (h.ok e he).list.key]
  exact fun heq => unknown e he (KeyIpReass.bytes_inj heq)

/-- Frame rule: nothing that belongs to the table has changed. -/
theorem frame (h : Cache env s live) (table : s'.table = s.table)
    (node : ∀ d ∈ live, s'.node d.node = s.node d.node)
    (same : ∀ b ∈ cachedBuffers live, SameBuffer s s' b) : Cache env s' live where
  table := by
    rw [table]
    exact h.table
  nodes := h.nodes
  keys := h.keys
  ok := fun d hd => (h.ok d hd).congr (node d hd) fun f hf => same _ (mem_cachedBuffers hd hf)
  buffers := h.buffers

/-- One datagram changes in place. -/
theorem replace (h : Cache env s (l₁ ++ d :: l₂)) {fs : List Fragment}
    (table : s'.table = s.table) (node : ∀ n, n ≠ d.node → s'.node n = s.node n)
    (same : ∀ b ∈ cachedBuffers (l₁ ++ l₂), SameBuffer s s' b)
    (ok : DatagramOk s' { d with frags := fs })
    (apart : ∀ b ∈ Reass.buffers fs, b ∉ cachedBuffers (l₁ ++ l₂)) :
    Cache env s' (l₁ ++ { d with frags := fs } :: l₂) where
  table := by
    obtain ⟨cells, hinv, hcells⟩ := h.table
    refine ⟨cells, table ▸ hinv, fun i n => ?_⟩
    rw [hcells, table]
    simp only [List.mem_append, List.mem_cons]
    constructor
    · rintro ⟨e, he | rfl | he, hrest⟩
      · exact ⟨e, .inl he, hrest⟩
      · exact ⟨_, .inr (.inl rfl), hrest⟩
      · exact ⟨e, .inr (.inr he), hrest⟩
    · rintro ⟨e, he | rfl | he, hrest⟩
      · exact ⟨e, .inl he, hrest⟩
      · exact ⟨d, .inr (.inl rfl), hrest⟩
      · exact ⟨e, .inr (.inr he), hrest⟩
  nodes := by simpa using h.nodes
  keys := by simpa using h.keys
  ok := by
    intro e he
    by_cases hmem : e ∈ l₁ ++ l₂
    · obtain ⟨hold, hnode, -⟩ := h.mem_of_split hmem
      exact (h.ok e hold).congr (node _ hnode) fun f hf => same _ (mem_cachedBuffers hmem hf)
    · obtain rfl : e = { d with frags := fs } := by
        simp only [List.mem_append, List.mem_cons, not_or] at he hmem
        tauto
      exact ok
  buffers := by
    have hold := h.buffers
    have hperm : ∀ g : Datagram, (cachedBuffers (l₁ ++ g :: l₂)).Perm
        (Reass.buffers g.frags ++ cachedBuffers (l₁ ++ l₂)) := fun g =>
      List.perm_middle.flatMap_right _
    rw [(hperm _).nodup_iff, List.nodup_append] at hold ⊢
    refine ⟨ok.chain.nodup, hold.2.1, ?_⟩
    rintro b hb _ hc rfl
    exact apart b hb hc

/-- One datagram leaves the table. -/
theorem remove (h : Cache env s (l₁ ++ d :: l₂))
    (table : s'.table = hashFreeNode s.table d.node (d.hashIndex env))
    (node : ∀ n, n ≠ d.node → s'.node n = s.node n)
    (same : ∀ b ∈ cachedBuffers (l₁ ++ l₂), SameBuffer s s' b) : Cache env s' (l₁ ++ l₂) where
  table := by
    obtain ⟨cells, hinv, hcells⟩ := h.table
    have hd : d ∈ l₁ ++ d :: l₂ := by simp
    obtain ⟨i, hi⟩ : ∃ i, i = s.table.bucketIndex (d.hashIndex env) := ⟨_, rfl⟩
    have hfree := hinv.free (d.hashIndex env) ((hcells _ _).mpr ⟨d, hd, rfl, rfl⟩)
    rw [← hi] at hfree
    refine ⟨_, table ▸ hfree, fun j n => ?_⟩
    simp only [table, hashFreeNode_bucketIndex]
    have hdrop : n ∈ Function.update cells i ((cells i).erase d.node) j ↔
        n ∈ cells j ∧ n ≠ d.node := by
      by_cases hj : j = i
      · subst hj
        rw [Function.update_self, (hinv.nodup j).mem_erase_iff, and_comm]
      · rw [Function.update_of_ne hj]
        refine ⟨fun hn => ⟨hn, ?_⟩, And.left⟩
        rintro rfl
        exact hj (hinv.unique j i _ hn ((hcells i _).mpr ⟨d, hd, rfl, hi.symm⟩))
    rw [hdrop, hcells]
    constructor
    · rintro ⟨⟨e, he, rfl, hrest⟩, hne⟩
      refine ⟨e, ?_, rfl, hrest⟩
      simp only [List.mem_append, List.mem_cons] at he ⊢
      rcases he with he | rfl | he
      · exact .inl he
      · exact absurd rfl hne
      · exact .inr he
    · rintro ⟨e, he, rfl, hrest⟩
      obtain ⟨hmem, hne, -⟩ := h.mem_of_split he
      exact ⟨⟨e, hmem, rfl, hrest⟩, hne⟩
  nodes := ((List.perm_middle.map _).nodup_iff.mp h.nodes).of_cons
  keys := ((List.perm_middle.map _).nodup_iff.mp h.keys).of_cons
  ok := by
    intro e he
    obtain ⟨hmem, hne, -⟩ := h.mem_of_split he
    exact (h.ok e hmem).congr (node _ hne) fun f hf => same _ (mem_cachedBuffers he hf)
  buffers := by
    have hperm : (cachedBuffers (l₁ ++ d :: l₂)).Perm
        (Reass.buffers d.frags ++ cachedBuffers (l₁ ++ l₂)) := List.perm_middle.flatMap_right _
    exact (List.nodup_append.mp (hperm.nodup_iff.mp h.buffers)).2.1

/-- A datagram enters the table. -/
theorem add (h : Cache env s live)
    (table : s'.table = hashInsertNode s.table (d.hashIndex env) d.node)
    (node : ∀ e ∈ live, s'.node e.node = s.node e.node)
    (same : ∀ b ∈ cachedBuffers live, SameBuffer s s' b) (ok : DatagramOk s' d)
    (freshNode : ∀ e ∈ live, e.node ≠ d.node) (freshKey : ∀ e ∈ live, e.key ≠ d.key)
    (apart : ∀ b ∈ Reass.buffers d.frags, b ∉ cachedBuffers live) :
    Cache env s' (d :: live) where
  table := by
    obtain ⟨cells, hinv, hcells⟩ := h.table
    have hfresh : ∀ i, d.node ∉ cells i := by
      intro i hmem
      obtain ⟨e, he, hnode, -⟩ := (hcells i _).mp hmem
      exact freshNode e he hnode
    have hins := hinv.insert (d.hashIndex env) hfresh
    refine ⟨_, table ▸ hins, fun j n => ?_⟩
    simp only [table, hashInsertNode_bucketIndex]
    obtain ⟨i, hi⟩ : ∃ i, i = s.table.bucketIndex (d.hashIndex env) := ⟨_, rfl⟩
    simp only [List.mem_cons, exists_eq_or_imp, ← hi]
    by_cases hj : j = i
    · subst hj
      rw [Function.update_self, List.mem_cons, hcells]
      simp only [and_true, eq_comm]
    · rw [Function.update_of_ne hj, hcells]
      simp only [Ne.symm hj, and_false, false_or]
  nodes := by
    rw [List.map_cons, List.nodup_cons]
    refine ⟨?_, h.nodes⟩
    rintro hmem
    obtain ⟨e, he, hnode⟩ := List.mem_map.mp hmem
    exact freshNode e he hnode
  keys := by
    rw [List.map_cons, List.nodup_cons]
    refine ⟨?_, h.keys⟩
    rintro hmem
    obtain ⟨e, he, hkey⟩ := List.mem_map.mp hmem
    exact freshKey e he hkey
  ok := by
    intro e he
    rcases List.mem_cons.mp he with rfl | he
    · exact ok
    · exact (h.ok e he).congr (node e he) fun f hf => same _ (mem_cachedBuffers he hf)
  buffers := by
    rw [cachedBuffers_cons, List.nodup_append]
    refine ⟨ok.chain.nodup, h.buffers, ?_⟩
    rintro b hb _ hc rfl
    exact apart b hb hc

end Cache

end Tapplet.Reass
