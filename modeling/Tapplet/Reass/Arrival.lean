import Tapplet.Reass.Build
import Tapplet.Reass.Books

/-!
# The arrival of a fragment

`ip4_frag_proc` and `ip6_frag_proc` do what `Handles` says, and keep the table and the
books. `Effect` adds what each outcome leaves in memory: the chain of buffers that is
handed back, or the packet that was built.
-/

namespace Tapplet.Reass

open Linked GenericHash SfTimer

/-- What is logged when the fragments `fs` are found to be complete. -/
def completionOf (fs : List Fragment) : Completion :=
  ⟨totalLen fs, recvLastFrag fs, fs.map fun f => (f.offset, f.size)⟩

/-- The buffer of a fragment right before the call. -/
structure Arrived (s : Worker) (o : Outside) (f : Fragment) : Prop where
  wdata : s.wdata f.buffer = f.wdata
  data : load s.mem f.wdata.dataPtr = f.data
  mapped : f.wdata.dataPtr.block ≠ none
  leaf : ¬f.wdata.isReass
  output : f.output = o.ipReassOutputEnable (f.wdata.interfaceId - 1)

/-- What a call may rely on: the buffer that arrives is not cached, and the pools hand out what
nobody holds. -/
structure Ready (s : Worker) (o : Outside) (f : Fragment) (live : List Datagram) : Prop where
  arrived : Arrived s o f
  fresh : f.buffer ∉ cachedBuffers live
  newBuffer : ∀ b, o.newBuffer = some b → b ≠ f.buffer ∧ b ∉ cachedBuffers live
  newHuge : f.wdata.dataPtr.block ≠ o.newHuge ∧
    ∀ d ∈ live, ∀ g ∈ d.frags, g.wdata.dataPtr.block ≠ o.newHuge
  newNode : ∀ n, o.newNode = some n → s.nodePool.Has n
  newInfo : ∀ i, o.newInfo = some i → s.infoPool.Has i ∧ Fits s.tw i
  newChunk : ∀ c, o.newChunk = some c → c ∉ s.chunkHeld

/-- What an arrival leaves behind, by what is returned: a buffer of its own, nothing, the chain of
the fragments of a datagram that is given up, or a built packet. -/
inductive Effect (s s' : Worker) (o : Outside) (f : Fragment) :
    List Datagram → List Datagram → Option BufferId → Int → Prop where
  | alone {live} {status : Int} (handles : Handles o f live live (some f.buffer) status)
      (sign : status = 1 ∨ status = -1) (chain : Chain s' [f]) (copies : s'.copies = s.copies)
      (completed : s'.completed = s.completed) :
      Effect s s' o f live live (some f.buffer) status
  | kept {live live'} (handles : Handles o f live live' none 0)
      (place : ∃ l₁ gs l₂ n info, live' = l₁ ++ ⟨n, info, f.key, gs ++ [f]⟩ :: l₂ ∧
        (live = l₁ ++ ⟨n, info, f.key, gs⟩ :: l₂ ∨ gs = [] ∧ live = l₁ ++ l₂))
      (copies : s'.copies = s.copies) (completed : s'.completed = s.completed) :
      Effect s s' o f live live' none 0
  | returned {l₁ l₂} {d : Datagram}
      (handles : Handles o f (l₁ ++ d :: l₂) (l₁ ++ l₂) (buffers (d.frags ++ [f])).head?
        d.frags.length)
      (chain : Chain s' (d.frags ++ [f])) (pos : 0 < d.frags.length)
      (short : d.frags.length ≤ ipReassMaxCachePkts) (copies : s'.copies = s.copies)
      (completed : s'.completed = s.completed ∧ ¬(¬TooMany d.frags ∧ ¬TooLarge f ∧
          Completes d.frags f) ∨
        s'.completed = s.completed ++ [completionOf (d.frags ++ [f])] ∧ ¬TooMany d.frags ∧
          ¬TooLarge f ∧ Completes d.frags f ∧ o.newBuffer = none) :
      Effect s s' o f (l₁ ++ d :: l₂) (l₁ ++ l₂) (buffers (d.frags ++ [f])).head? d.frags.length
  | built {l₁ l₂} {d : Datagram} {b : BufferId} {first : Fragment}
      (handles : Handles o f (l₁ ++ d :: l₂) (l₁ ++ l₂) (some b) 0)
      (within : ¬LayerOver o f) (key : d.key = f.key) (new : ¬Duplicate d.frags f)
      (few : ¬TooMany d.frags) (small : ¬TooLarge f) (done : Completes d.frags f)
      (buffer : o.newBuffer = some b) (chain : Chain s' (d.frags ++ [f]))
      (head : d.frags.head? = some first) (packet : Packet s' b o.newHuge first (d.frags ++ [f]))
      (copies : s'.copies = s.copies ++ buildCopies o.newHuge first (d.frags ++ [f]))
      (completed : s'.completed = s.completed ++ [completionOf (d.frags ++ [f])]) :
      Effect s s' o f (l₁ ++ d :: l₂) (l₁ ++ l₂) (some b) 0

/-- The memory that an arrival leaves alone. -/
structure Untouched (s s' : Worker) (o : Outside) (f : Fragment) (live : List Datagram) : Prop where
  record : ∀ c, c ≠ f.buffer → c ∉ cachedBuffers live → o.newBuffer ≠ some c →
    s'.record c = s.record c
  wdata : ∀ c, o.newBuffer ≠ some c → s'.wdata c = s.wdata c
  mem : ∀ q : DataPtr, q.block ≠ o.newHuge → load s'.mem q = load s.mem q

variable {env : Env} {s s' : Worker} {o : Outside} {f : Fragment} {d : Datagram}
  {live l₁ l₂ : List Datagram} {fs : List Fragment} {pendingTimers timedOut zombies : List Nat}
  {count : Nat} {waiting late : List Entry}

/-! ## Closing a datagram -/

/-- The worker after the datagram of the node `n` was closed. -/
def closeDatagram (s : Worker) (n : NodeId) (hashIndex : Nat) : Worker :=
  { s with
    toBookkeeping := closedBooks s.toBookkeeping n
    table := hashFreeNode s.table n hashIndex }

theorem dropDatagram_eq (s : Worker) (n : NodeId) (hashIndex : Nat) :
    dropDatagram s n hashIndex =
      (closeDatagram s n hashIndex, (s.node n).head, ((s.node n).cachePktNum : Int)) := by
  rw [dropDatagram, ipReassDeleteTimer_eq]
  rfl

theorem map_interval (h : ∀ f ∈ fs, FragOk s f) :
    (buffers fs).map s.interval = fs.map fun f => (f.offset, f.size) := by
  rw [buffers, List.map_map]
  refine List.map_congr_left fun f hf => ?_
  simp only [Function.comp_apply, Worker.interval, (h f hf).fragOffset, (h f hf).fragSize]

/-- Completing a datagram without a buffer for the packet. -/
theorem completeDatagram_unbuilt (env : Env) (F : FragFields) {n : NodeId} {key : KeyIpReass}
    (hashIndex : Nat)
    (hlist : NodeList (s.node n) key fs) (hsums : NodeSums (s.node n) fs) (hchain : Chain s fs)
    (hne : fs ≠ []) (hshort : o.newBuffer = none) :
    ∃ huge, completeDatagram F env s o n hashIndex =
      ({ closeDatagram s n hashIndex with
          completed := s.completed ++ [completionOf fs]
          hugePool := huge }, (buffers fs).head?, ((s.node n).cachePktNum : Int)) := by
  obtain ⟨f, gs, rfl⟩ := List.exists_cons_of_ne_nil hne
  have hhead : (s.node n).head = some f.buffer := hlist.head
  have hwalk := hchain.fuel_chain (Nat.le_of_eq hlist.count.symm)
  rw [← hlist.head] at hwalk
  refine ⟨(s.hugePool.alloc o.newHuge).free o.newHuge, ?_⟩
  simp only [completeDatagram, hwalk, ipReassDeleteTimer_eq, map_interval hchain.ok,
    hsums.total, hsums.last]
  simp only [hhead, fragBuildPkt, if_neg (allocHugePkt16k_ne_null _), hshort]
  rfl

/-- Completing a datagram with a new buffer `b` for the packet. -/
theorem completeDatagram_built (env : Env) (v : Version) {n : NodeId} {key : KeyIpReass}
    (hashIndex : Nat)
    (hlist : NodeList (s.node n) key (f :: fs)) (hsums : NodeSums (s.node n) (f :: fs))
    (hchain : Chain s (f :: fs)) (hsmall : (f :: fs).length < 2 ^ 8) {b : BufferId}
    (hbuffer : o.newBuffer = some b) :
    ∃ s', completeDatagram v.fields env s o n hashIndex = (s', some b, 0) ∧
      Packet s' b o.newHuge f (f :: fs) ∧
      (∀ c, c ≠ b → s'.record c = s.record c) ∧ (∀ c, c ≠ b → s'.wdata c = s.wdata c) ∧
      (∀ q : DataPtr, q.block ≠ o.newHuge → load s'.mem q = load s.mem q) ∧
      s'.copies = s.copies ++ buildCopies o.newHuge f (f :: fs) ∧
      s'.completed = s.completed ++ [completionOf (f :: fs)] ∧
      s'.table = hashFreeNode s.table n hashIndex ∧ s'.node = s.node ∧
      s'.toBookkeeping = closedBooks s.toBookkeeping n := by
  have hhead : (s.node n).head = some f.buffer := hlist.head
  have hwalk := hchain.fuel_chain (Nat.le_of_eq hlist.count.symm)
  rw [← hlist.head] at hwalk
  obtain ⟨t, ht⟩ : ∃ t : Worker, t =
      { s with
        toBookkeeping := deletedBooks s.toBookkeeping n
        completed := s.completed ++ [completionOf (f :: fs)]
        table := hashFreeNode s.table n hashIndex
        hugePool := s.hugePool.alloc o.newHuge } := ⟨_, rfl⟩
  have hchain' : Chain t (f :: fs) := hchain.congr fun g _ => by
    rw [ht]
    exact .of_eq rfl rfl rfl
  obtain ⟨hpacket, hframe⟩ := buildInto_spec env o.newHuge v hchain'
    (Nat.le_of_eq hlist.count.symm) hsmall b
  obtain ⟨u, hu⟩ : ∃ u, u = buildInto v.fields env t f.buffer b o.newHuge
      ((s.node n).cachePktNum + 1) := ⟨_, rfl⟩
  rw [← hu] at hpacket hframe
  refine ⟨u.freeNode n, ?_, ⟨hpacket.1, hpacket.2, hpacket.3, hpacket.4, hpacket.5, hpacket.6,
    hpacket.7⟩, ?_, ?_, ?_, ?_, ?_, ?_, ?_, ?_⟩
  · simp only [completeDatagram, hwalk, ipReassDeleteTimer_eq, map_interval hchain.ok,
      hsums.total, hsums.last]
    simp only [hhead, fragBuildPkt, if_neg (allocHugePkt16k_ne_null _), hbuffer]
    rw [hu, ht]
    rfl
  · intro c hc
    exact (hframe.record c hc).trans (by rw [ht])
  · intro c hc
    exact (hframe.wdata c hc).trans (by rw [ht])
  · intro q hq
    exact (hframe.mem q hq).trans (by rw [ht])
  · exact hframe.copies.trans (by rw [ht])
  · exact hframe.completed.trans (by rw [ht])
  · exact hframe.table.trans (by rw [ht])
  · exact hframe.node.trans (by rw [ht])
  · rw [closedBooks]
    have hbooks : u.toBookkeeping = deletedBooks s.toBookkeeping n :=
      hframe.books.trans (by rw [ht])
    rw [← hbooks]
    rfl

/-! ## The record and the table -/

theorem fillRecord_ok (h : Arrived s o f) :
    FragOk (fillRecord f.version.fields s o f.buffer) f ∧
      (fillRecord f.version.fields s o f.buffer).nextFrag f.buffer = none := by
  have hview : s.view f.buffer = f.view := by
    funext i
    rw [Worker.view, Wdata.current, h.wdata, load_add, h.data, Fragment.view]
  refine ⟨⟨h.wdata, h.data, h.mapped, h.leaf, ?_, ?_, ?_, ?_, ?_⟩, ?_⟩
  · simp only [fillRecord, setRecord_record_self, hview, h.wdata]
    rfl
  · simp only [fillRecord, setRecord_record_self, h.wdata]
    rfl
  · simp only [fillRecord, setRecord_record_self, h.wdata]
    rfl
  · simp only [fillRecord, setRecord_record_self, h.wdata, h.output]
  · simp only [fillRecord, setRecord_record_self, h.wdata, if_neg h.leaf]
  · simp only [Worker.nextFrag, fillRecord, setRecord_record_self]

/-- A fragment that stands alone. -/
theorem Chain.single (h : FragOk s f) (hnext : s.nextFrag f.buffer = none) : Chain s [f] where
  linked := by simpa using hnext
  ok := by simpa using h
  nodup := by simp

/-- The fragment is appended and its datagram stays in the table. -/
theorem Cache.append (h : Cache env s (l₁ ++ d :: l₂)) (hf : FragOk s f)
    (hnext : s.nextFrag f.buffer = none) (fresh : f.buffer ∉ cachedBuffers (l₁ ++ d :: l₂))
    {tail : BufferId} {D : NodeIpReass} (htail : (Reass.buffers d.frags).getLast? = some tail)
    (hlist : NodeList D d.key (d.frags ++ [f])) (hsums : NodeSums D (d.frags ++ [f]))
    (hkey : f.key = d.key) (new : ¬Duplicate d.frags f) (few : ¬TooMany d.frags) :
    Cache env (linkFrag s tail f d.node D) (l₁ ++ { d with frags := d.frags ++ [f] } :: l₂) := by
  have hd : d ∈ l₁ ++ d :: l₂ := by simp
  have hok := h.ok d hd
  have hfresh : f.buffer ∉ Reass.buffers d.frags := by
    intro hmem
    obtain ⟨g, hg, hb⟩ := List.mem_map.mp hmem
    exact fresh (hb ▸ mem_cachedBuffers hd hg)
  have hsplit : ∀ b ∈ cachedBuffers (l₁ ++ l₂), b ∈ cachedBuffers (l₁ ++ d :: l₂) ∧
      b ∉ Reass.buffers d.frags := by
    have hperm : (cachedBuffers (l₁ ++ d :: l₂)).Perm
        (Reass.buffers d.frags ++ cachedBuffers (l₁ ++ l₂)) := List.perm_middle.flatMap_right _
    intro b hb
    refine ⟨hperm.mem_iff.mpr (List.mem_append_right _ hb), fun hmem => ?_⟩
    exact (List.nodup_append.mp (hperm.nodup_iff.mp h.buffers)).2.2 b hmem b hb rfl
  refine h.replace rfl (fun n hn => setNode_node_of_ne _ _ _ hn) ?_ ?_ ?_
  · intro b hb
    have hne : b ≠ tail := by
      rintro rfl
      exact (hsplit b hb).2 (List.mem_of_getLast? htail)
    exact ⟨setRecord_record_of_ne _ hne _, rfl, rfl⟩
  · have hchain := hok.chain.append htail hf hnext hfresh
    refine ⟨?_, ?_, hchain.congr fun g _ => .of_eq rfl rfl rfl, ?_, ?_, ?_⟩
    · simpa [linkFrag] using hlist
    · simpa [linkFrag] using hsums
    · intro g hg
      rcases List.mem_append.mp hg with hg | hg
      · exact hok.keys g hg
      · obtain rfl := List.mem_singleton.mp hg
        exact hkey
    · rw [TooMany] at few
      rw [List.length_append, List.length_singleton]
      omega
    · rw [List.map_append, List.nodup_append]
      refine ⟨hok.offsets, by simp, ?_⟩
      rintro x hx y hy rfl
      obtain ⟨g, hg, rfl⟩ := List.mem_map.mp hx
      exact new ⟨g, hg, by simpa using hy⟩
  · intro b hb hmem
    rw [buffers_append] at hb
    rcases List.mem_append.mp hb with hb | hb
    · exact (hsplit b hmem).2 hb
    · obtain rfl : b = f.buffer := by simpa using hb
      exact fresh (hsplit _ hmem).1

/-- The chain of a datagram with one more fragment. -/
theorem Chain.link (hok : DatagramOk s d) (hf : FragOk s f) (hnext : s.nextFrag f.buffer = none)
    (fresh : f.buffer ∉ buffers d.frags) {tail : BufferId} {D : NodeIpReass}
    (htail : (buffers d.frags).getLast? = some tail) :
    Chain (linkFrag s tail f d.node D) (d.frags ++ [f]) :=
  (hok.chain.append htail hf hnext fresh).congr fun _ _ => .of_eq rfl rfl rfl

/-- A node that could not get a timer is taken out of the table again. -/
theorem Cache.refuse (h : Cache env s live) {n : NodeId} {hashIndex : Nat}
    (freshNode : ∀ e ∈ live, e.node ≠ n)
    (table : s'.table = hashFreeNode (hashInsertNode s.table hashIndex n) n hashIndex)
    (node : ∀ e ∈ live, s'.node e.node = s.node e.node)
    (same : ∀ b ∈ cachedBuffers live, SameBuffer s s' b) : Cache env s' live where
  table := by
    obtain ⟨cells, hinv, hcells⟩ := h.table
    refine ⟨cells, ?_, fun i m => ?_⟩
    · rw [table]
      refine hinv.insert_free fun i hmem => ?_
      obtain ⟨e, he, hnode, -⟩ := (hcells i n).mp hmem
      exact freshNode e he hnode
    · simp only [table, hashFreeNode_bucketIndex, hashInsertNode_bucketIndex]
      exact hcells i m
  nodes := h.nodes
  keys := h.keys
  ok := fun d hd => (h.ok d hd).congr (node d hd) fun g hg => same _ (mem_cachedBuffers hd hg)
  buffers := h.buffers

/-! ## The outcome of a call -/

/-- The outcome of a call that keeps the table and the books. -/
def Outcome (env : Env) (s : Worker) (o : Outside) (f : Fragment) (live : List Datagram)
    (pendingTimers timedOut : List Nat) (count : Nat) (r : Worker × Option BufferId × Int) : Prop :=
  ∃ live', Effect s r.1 o f live live' r.2.1 r.2.2 ∧ Cache env r.1 live' ∧
    (∃ zombies waiting late, Books env r.1.toBookkeeping pendingTimers timedOut live' zombies count
      waiting late) ∧
    Untouched s r.1 o f live

/-- The worker once the record of the fragment is filled in. -/
structure Filled (s t : Worker) (f : Fragment) : Prop where
  ok : FragOk t f
  next : t.nextFrag f.buffer = none
  record : ∀ c, c ≠ f.buffer → t.record c = s.record c
  wdata : t.wdata = s.wdata
  mem : t.mem = s.mem
  books : t.toBookkeeping = s.toBookkeeping
  copies : t.copies = s.copies
  completed : t.completed = s.completed

theorem filled_fillRecord (h : Arrived s o f) :
    Filled s (fillRecord f.version.fields s o f.buffer) f where
  ok := (fillRecord_ok h).1
  next := (fillRecord_ok h).2
  record := fun _ hc => setRecord_record_of_ne _ hc _
  wdata := rfl
  mem := rfl
  books := rfl
  copies := rfl
  completed := rfl

section Outcome

variable {t : Worker}

theorem Filled.untouched (h : Filled s t f) : Untouched s t o f live where
  record := fun c hc _ _ => h.record c hc
  wdata := fun _ _ => by rw [h.wdata]
  mem := fun q _ => by rw [h.mem]

theorem Untouched.link (h : Filled s t f) {tail : BufferId} {D : NodeIpReass}
    (htail : (buffers d.frags).getLast? = some tail) (hd : d ∈ live) :
    Untouched s (linkFrag t tail f d.node D) o f live where
  record := by
    intro c hc hmem _
    refine (setRecord_record_of_ne _ ?_ _).trans (h.record c hc)
    rintro rfl
    obtain ⟨g, hg, hb⟩ := List.mem_map.mp (List.mem_of_getLast? htail)
    exact hmem (hb ▸ mem_cachedBuffers hd hg)
  wdata := fun _ _ => congrFun h.wdata _
  mem := fun q _ => congrArg (load · q) h.mem

theorem Untouched.of_eq (h : Untouched s t o f live) (record : s'.record = t.record)
    (wdata : s'.wdata = t.wdata) (mem : s'.mem = t.mem) : Untouched s s' o f live where
  record := by
    rw [record]
    exact h.record
  wdata := by
    rw [wdata]
    exact h.wdata
  mem := by
    rw [mem]
    exact h.mem

/-- A fragment of a known datagram. -/
theorem found_outcome (hfill : Filled s t f) (hcache : Cache env t (l₁ ++ d :: l₂))
    (hbooks : Books env t.toBookkeeping pendingTimers timedOut (l₁ ++ d :: l₂) zombies count waiting
      late)
    (hready : Ready s o f (l₁ ++ d :: l₂)) (within : ¬LayerOver o f) (hkey : d.key = f.key) :
    Outcome env s o f (l₁ ++ d :: l₂) pendingTimers timedOut count
      (foundNode f.version.fields env t o f.buffer d.node (d.hashIndex env)) := by
  have hd : d ∈ l₁ ++ d :: l₂ := by simp
  have hok := hcache.ok d hd
  have hf := hfill.ok
  have hperm : (cachedBuffers (l₁ ++ d :: l₂)).Perm
      (buffers d.frags ++ cachedBuffers (l₁ ++ l₂)) := List.perm_middle.flatMap_right _
  have hfresh : f.buffer ∉ buffers d.frags := fun hmem =>
    hready.fresh (hperm.mem_iff.mpr (List.mem_append_left _ hmem))
  have hpos : 0 < d.frags.length := by
    have hcount := hok.list.count
    omega
  rcases foundNode_cases env o hok hf (d.hashIndex env) with
    ⟨hdup, hret⟩ | ⟨tail, D, htail, hlist, hnew, hcase⟩
  · rw [hret]
    exact ⟨_, .alone (.duplicate within hd hkey hdup) (.inl rfl) (.single hf hfill.next)
      hfill.copies hfill.completed, hcache, ⟨_, _, _, hbooks⟩, hfill.untouched⟩
  obtain ⟨u, hu⟩ : ∃ u, u = linkFrag t tail f d.node D := ⟨_, rfl⟩
  have hchain : Chain u (d.frags ++ [f]) := hu ▸ .link hok hf hfill.next hfresh htail
  have huntouched : Untouched s u o f (l₁ ++ d :: l₂) := hu ▸ .link hfill htail hd
  have hnode : u.node d.node = D := hu ▸ setNode_node_self ..
  have hsame : ∀ b ∈ cachedBuffers (l₁ ++ l₂), SameBuffer t u b := by
    intro b hb
    have hne : b ≠ tail := by
      rintro rfl
      exact (List.nodup_append.mp (hperm.nodup_iff.mp hcache.buffers)).2.2 b
        (List.mem_of_getLast? htail) b hb rfl
    rw [hu]
    exact ⟨setRecord_record_of_ne _ hne _, rfl, rfl⟩
  have hnodeNe : ∀ n, n ≠ d.node → u.node n = t.node n := fun n hn =>
    hu ▸ setNode_node_of_ne _ _ _ hn
  have htable : u.table = t.table := by rw [hu]; rfl
  have hub : u.toBookkeeping = t.toBookkeeping := by rw [hu]; rfl
  have huc : u.copies = s.copies := by
    rw [hu]
    exact hfill.copies
  have hud : u.completed = s.completed := by
    rw [hu]
    exact hfill.completed
  obtain ⟨zombies', waiting', late', hclosed⟩ := hbooks.remove
  rw [← hub] at hclosed
  rw [← hu] at hcase
  rcases hcase with ⟨hbad, hret⟩ | ⟨hfew, hsmall, hsums, ⟨hdone, hret⟩ | ⟨hmore, hret⟩⟩
  · rw [hret, dropDatagram_eq, hnode, hlist.head]
    have hcount : (D.cachePktNum : Int) = d.frags.length := by
      have hc := hlist.count
      rw [List.length_append, List.length_singleton] at hc
      omega
    rw [hcount]
    refine ⟨l₁ ++ l₂, .returned (.givenUp within hkey hnew hbad)
      (hchain.congr fun _ _ => .of_eq rfl rfl rfl) hpos hok.short huc (.inl ⟨hud, ?_⟩), ?_,
      ⟨zombies', waiting', late', hclosed⟩, huntouched.of_eq rfl rfl rfl⟩
    · rintro ⟨hfew, hsmall, -⟩
      exact hbad.elim hfew hsmall
    · refine hcache.remove ?_ (fun n hn => hnodeNe n hn) fun b hb => ?_
      · exact congrArg (hashFreeNode · d.node (d.hashIndex env)) htable
      · exact (hsame b hb).trans (.of_eq rfl rfl rfl)
  · have hlist' : NodeList (u.node d.node) d.key (d.frags ++ [f]) := hnode ▸ hlist
    have hsums' : NodeSums (u.node d.node) (d.frags ++ [f]) := hnode ▸ hsums
    have hcount : ((u.node d.node).cachePktNum : Int) = d.frags.length := by
      have hc := hlist'.count
      rw [List.length_append, List.length_singleton] at hc
      omega
    cases hbuffer : o.newBuffer with
    | none =>
        obtain ⟨huge, hbuild⟩ := completeDatagram_unbuilt env f.version.fields
          (d.hashIndex env) hlist' hsums' hchain (by simp) hbuffer
        rw [hret, hbuild, hcount]
        refine ⟨l₁ ++ l₂, .returned (.unbuilt within hkey hnew hfew hsmall hdone hbuffer)
          (hchain.congr fun _ _ => .of_eq rfl rfl rfl) hpos hok.short huc
          (.inr ⟨congrArg (· ++ _) hud, hfew, hsmall, hdone, hbuffer⟩), ?_,
          ⟨zombies', waiting', late', hclosed⟩, huntouched.of_eq rfl rfl rfl⟩
        refine hcache.remove ?_ (fun n hn => hnodeNe n hn) fun b hb => ?_
        · exact congrArg (hashFreeNode · d.node (d.hashIndex env)) htable
        · exact (hsame b hb).trans (.of_eq rfl rfl rfl)
    | some b =>
        obtain ⟨hbf, hbc⟩ := hready.newBuffer b hbuffer
        obtain ⟨hhugeF, hhuge⟩ := hready.newHuge
        obtain ⟨first, gs, hgs⟩ := List.exists_cons_of_length_pos hpos
        have happend : d.frags ++ [f] = first :: (gs ++ [f]) := by rw [hgs, List.cons_append]
        have hsize : (first :: (gs ++ [f])).length < 2 ^ 8 := by
          have hten : d.frags.length ≤ 10 := hok.short
          rw [← happend, List.length_append, List.length_singleton]
          omega
        rw [happend] at hlist' hsums' hchain
        obtain ⟨v, hbuild, hpacket, hrecord, hwdata, hmem, hcopies, hcompleted, hvtable, hvnode,
          hvbooks⟩ := completeDatagram_built env f.version
          (d.hashIndex env) hlist' hsums' hchain hsize hbuffer
        rw [← happend] at hchain hpacket hcopies hcompleted
        have hblock : ∀ g ∈ d.frags ++ [f], g.wdata.dataPtr.block ≠ o.newHuge := by
          intro g hg
          rcases List.mem_append.mp hg with hg | hg
          · exact hhuge d hd g hg
          · obtain rfl := List.mem_singleton.mp hg
            exact hhugeF
        have hbne : ∀ c, c ∈ cachedBuffers (l₁ ++ l₂) ∨ c ∈ buffers (d.frags ++ [f]) → c ≠ b := by
          rintro c hc rfl
          rcases hc with hc | hc
          · exact hbc (hperm.mem_iff.mpr (List.mem_append_right _ hc))
          · rw [buffers_append] at hc
            rcases List.mem_append.mp hc with hc | hc
            · exact hbc (hperm.mem_iff.mpr (List.mem_append_left _ hc))
            · exact hbf (by simpa using hc)
        rw [hret, hbuild]
        refine ⟨l₁ ++ l₂,
          .built (.built within hkey hnew hfew hsmall hdone hbuffer) within hkey hnew
          hfew hsmall hdone hbuffer ?_ (by rw [hgs]; rfl) hpacket (by rw [hcopies, huc])
          (by rw [hcompleted, hud]), ?_, ⟨zombies', waiting', late', hvbooks ▸ hclosed⟩, ?_⟩
        · refine hchain.congr fun g hg => ⟨hrecord _ ?_, hwdata _ ?_, hmem _ ?_⟩
          · exact hbne _ (.inr (List.mem_map_of_mem hg))
          · exact hbne _ (.inr (List.mem_map_of_mem hg))
          · rw [(hchain.ok g hg).wdata]
            exact hblock g hg
        · refine hcache.remove ?_ (fun n hn => ?_) fun c hc => ?_
          · rw [hvtable, htable]
          · rw [hvnode]
            exact hnodeNe n hn
          · refine (hsame c hc).trans ⟨hrecord c (hbne c (.inl hc)), hwdata c (hbne c (.inl hc)),
              hmem _ ?_⟩
            obtain ⟨e, he, hce⟩ := List.mem_flatMap.mp hc
            obtain ⟨g, hg, rfl⟩ := List.mem_map.mp hce
            obtain ⟨hemem, -, -⟩ := hcache.mem_of_split he
            have hgw := ((hcache.ok e hemem).chain.ok g hg).congr (hsame _ hc)
            rw [hgw.wdata]
            exact hhuge e hemem g hg
        · refine ⟨fun c hc hcm hcb => ?_, fun c hcb => ?_, fun q hq => ?_⟩
          · have hcne : c ≠ b := fun h => hcb (h ▸ hbuffer)
            exact (hrecord c hcne).trans (huntouched.record c hc hcm hcb)
          · have hcne : c ≠ b := fun h => hcb (h ▸ hbuffer)
            exact (hwdata c hcne).trans (huntouched.wdata c hcb)
          · exact (hmem q hq).trans (huntouched.mem q hq)
  · rw [hret]
    have hcache' := hcache.append hf hfill.next hready.fresh htail hlist hsums hkey.symm hnew hfew
    rw [← hu] at hcache'
    have hshape : ∀ gs, ({ d with frags := gs } : Datagram) = ⟨d.node, d.info, f.key, gs⟩ :=
      fun gs => by rw [← hkey]
    refine ⟨l₁ ++ { d with frags := d.frags ++ [f] } :: l₂,
      .kept (.waits within hkey hnew hfew hsmall hmore) ?_ huc hud, hcache', ?_, huntouched⟩
    · refine ⟨l₁, d.frags, l₂, d.node, d.info, by rw [hshape], .inl ?_⟩
      rw [← hshape d.frags]
    · refine ⟨zombies, waiting, late, hub ▸ hbooks.congr_live (by simp) (by simp) ?_⟩
      intro e he
      simp only [List.mem_append, List.mem_cons] at he
      rcases he with he | rfl | he
      · exact ⟨e, by simp [he], rfl, rfl, rfl⟩
      · exact ⟨d, hd, rfl, rfl, rfl⟩
      · exact ⟨e, by simp [he], rfl, rfl, rfl⟩

/-- The first fragment of a datagram sets up its node. -/
theorem newNode_stored {n : NodeId} {k : Bookkeeping} (hf : FragOk t f) (hn : o.newNode = some n)
    (hsubmit : ipReassSubmitTimer (((t.allocNode n).setNode n (.zero f.key)).hashInsert
      (env.getHashIndex f.key.bytes) n) n (env.getHashIndex f.key.bytes) o =
      (0, { ((t.allocNode n).setNode n (.zero f.key)).hashInsert
        (env.getHashIndex f.key.bytes) n with toBookkeeping := k })) :
    ∃ D, newNode f.version.fields t o f.buffer f.key (env.getHashIndex f.key.bytes) =
        ({ t with
            toBookkeeping := k
            table := hashInsertNode t.table (env.getHashIndex f.key.bytes) n
            record := Function.update t.record f.buffer
              { t.record f.buffer with nextFrag := none }
            node := Function.update t.node n D }, none, 0) ∧
      NodeList D f.key [f] ∧ NodeSums D [f] := by
  have hlast : f.version.fields.isLast (t.wdata f.buffer) (t.view f.buffer) = f.isLast := by
    rw [hf.view, hf.wdata]
    rfl
  obtain ⟨u, hu⟩ : ∃ u : Worker, u =
      { ((t.allocNode n).setNode n (.zero f.key)).hashInsert
        (env.getHashIndex f.key.bytes) n with toBookkeeping := k } := ⟨_, rfl⟩
  have hur : u.record = t.record := by rw [hu]; rfl
  have hun : u.node n = .zero f.key := by
    rw [hu]
    exact Function.update_self ..
  have huw : u.wdata = t.wdata := by rw [hu]; rfl
  have huv : u.view = t.view := by rw [hu]; rfl
  have hstate : ∀ (r : IpReassRecord) (E : NodeIpReass), (u.setRecord f.buffer r).setNode n E =
      { t with
        toBookkeeping := k
        table := hashInsertNode t.table (env.getHashIndex f.key.bytes) n
        record := Function.update t.record f.buffer r
        node := Function.update t.node n E } := by
    intro r E
    rw [hu]
    simp only [Worker.setRecord, Worker.setNode, Worker.hashInsert, Worker.allocNode,
      Function.update_idem]
  rw [← hu] at hsubmit
  simp only [newNode, hn, hsubmit, ne_eq, not_true_eq_false, if_false]
  have hnode : ∀ (r : IpReassRecord), (u.setRecord f.buffer r).node n = .zero f.key := fun _ => hun
  have hviews : ∀ (r : IpReassRecord) (E : NodeIpReass),
      f.version.fields.isLast (((u.setRecord f.buffer r).setNode n E).wdata f.buffer)
        (((u.setRecord f.buffer r).setNode n E).view f.buffer) = f.isLast := fun r E => by
    rw [setNode_wdata, setNode_view, setRecord_view, huv, ← hlast]
    exact congrArg (fun w => f.version.fields.isLast (w f.buffer) (t.view f.buffer)) huw
  simp only [hviews, hnode, setTotalLen]
  by_cases hl : f.isLast
  · rw [if_pos hl]
    simp only [setNode_setNode, setNode_node_self]
    refine ⟨_, by rw [hstate, hur], ⟨rfl, rfl, rfl, rfl⟩, ⟨?_, ?_, ?_⟩⟩
    · simp [NodeIpReass.zero, meetLen, hf.fragSize]
    · simp [totalLen, hl, Fragment.stop, hf.fragOffset, hf.fragSize]
    · simp [recvLastFrag, hl]
  · rw [if_neg hl]
    simp only [setNode_setNode, setNode_node_self]
    refine ⟨_, by rw [hstate, hur], ⟨rfl, rfl, rfl, rfl⟩, ⟨?_, ?_, ?_⟩⟩
    · simp [NodeIpReass.zero, meetLen, hf.fragSize]
    · simp [totalLen, hl, NodeIpReass.zero]
    · simp [recvLastFrag, hl, NodeIpReass.zero]

/-- A fragment of a datagram that is not known yet. -/
theorem new_outcome (hfill : Filled s t f) (hcache : Cache env t live)
    (hbooks : Books env t.toBookkeeping pendingTimers timedOut live zombies count waiting late)
    (hready : Ready s o f live) (within : ¬LayerOver o f) (unknown : ∀ d ∈ live, d.key ≠ f.key) :
    Outcome env s o f live pendingTimers timedOut count
      (newNode f.version.fields t o f.buffer f.key (env.getHashIndex f.key.bytes)) := by
  have hf := hfill.ok
  have hrefused : ∀ {u : Worker}, u.copies = t.copies → u.completed = t.completed →
      (o.newNode = none ∨ o.newInfo = none ∨ o.newChunk = none) → u.record = t.record →
      u.wdata = t.wdata → u.mem = t.mem → Cache env u live →
      (∃ zombies waiting late, Books env u.toBookkeeping pendingTimers timedOut live zombies count
        waiting late) →
      Outcome env s o f live pendingTimers timedOut count (u, some f.buffer, 1) := by
    intro u hcopies hcompleted hshort hrecord hwdata hmem hc hb
    refine ⟨live, .alone (.refused within unknown hshort) (.inl rfl) ?_
      (hcopies.trans hfill.copies) (hcompleted.trans hfill.completed), hc, hb,
      hfill.untouched.of_eq hrecord hwdata hmem⟩
    exact (Chain.single hf hfill.next).congr fun _ _ => .of_eq hrecord hwdata hmem
  cases hn : o.newNode with
  | none =>
      simp only [newNode, hn]
      exact hrefused rfl rfl (.inl hn) rfl rfl rfl hcache ⟨_, _, _, hbooks⟩
  | some n =>
      have hbk := hfill.books
      have hasNode : t.nodePool.Has n := by
        rw [congrArg (·.nodePool) hbk]
        exact hready.newNode n hn
      have hnodeMem : n ∉ live.map (·.node) := hasNode.not_mem hbooks.nodes
      have hnodeNe : ∀ e ∈ live, e.node ≠ n := fun e he heq =>
        hnodeMem (heq ▸ List.mem_map_of_mem he)
      obtain ⟨u, hu⟩ : ∃ u, u = ((t.allocNode n).setNode n (.zero f.key)).hashInsert
          (env.getHashIndex f.key.bytes) n := ⟨_, rfl⟩
      have hub : u.toBookkeeping = { t.toBookkeeping with nodePool := t.nodePool.alloc n } := by
        rw [hu]
        rfl
      -- the node is taken out of the table again when there is no timer for it
      have hfail : ∀ (r : Int) (k : Bookkeeping), r ≠ 0 →
          ipReassSubmitTimer u n (env.getHashIndex f.key.bytes) o =
            (r, { u with toBookkeeping := k }) →
          (o.newNode = none ∨ o.newInfo = none ∨ o.newChunk = none) →
          (∃ zombies waiting late, Books env { k with nodePool := k.nodePool.free n } pendingTimers
            timedOut live zombies count waiting late) →
          Outcome env s o f live pendingTimers timedOut count
            (newNode f.version.fields t o f.buffer f.key (env.getHashIndex f.key.bytes)) := by
        intro r k hr hsubmit hshort hb
        rw [hu] at hsubmit
        simp only [newNode, hn, hsubmit, hr, ne_eq, not_false_eq_true, if_true]
        refine hrefused (u := (({ ((t.allocNode n).setNode n (.zero f.key)).hashInsert
          (env.getHashIndex f.key.bytes) n with toBookkeeping := k } : Worker).hashFree n
          (env.getHashIndex f.key.bytes)).freeNode n) rfl rfl hshort rfl rfl rfl ?_ hb
        refine hcache.refuse hnodeNe rfl (fun e he => ?_) fun _ _ => .of_eq rfl rfl rfl
        exact Function.update_of_ne (hnodeNe e he) _ _
      cases hi : o.newInfo with
      | none =>
          refine hfail (-1) u.toBookkeeping (by decide) ?_ (.inr (.inl hi))
            ⟨zombies, waiting, late, ?_⟩
          · simp only [ipReassSubmitTimer, hi]
          · rw [hub]
            exact hbooks.alloc_free n
      | some info =>
          obtain ⟨hasInfo, fits⟩ := hready.newInfo info hi
          rw [← congrArg (·.infoPool) hbk] at hasInfo
          rw [← congrArg (·.tw) hbk] at fits
          have hchunk : ∀ c, o.newChunk = some c → c ∉ t.chunkHeld := by
            rw [congrArg (·.chunkHeld) hbk]
            exact hready.newChunk
          obtain ⟨d, hd⟩ : ∃ d : Datagram, d = ⟨n, info, f.key, [f]⟩ := ⟨_, rfl⟩
          have hdn : d.node = n := by rw [hd]
          have hdh : d.hashIndex env = env.getHashIndex f.key.bytes := by rw [hd]; rfl
          rcases hbooks.submit (s := u) (d := d) (o := o) (by rw [hub, hdn]) (by rw [hi, hd])
            (by rw [hdn]; exact hasNode) (by rw [hd]; exact hasInfo) (by rw [hd]; exact fits)
            hchunk with ⟨hnone, k, hsubmit, hb⟩ | ⟨k, waiting', hsubmit, hb⟩
          · rw [hdn, hdh] at hsubmit
            rw [hdn] at hb
            exact hfail (-1) k (by decide) hsubmit (.inr (.inr hnone)) ⟨_, _, _, hb⟩
          · rw [hdn, hdh, hu] at hsubmit
            obtain ⟨D, hret, hlist, hsums⟩ := newNode_stored hf hn hsubmit
            rw [hret]
            obtain ⟨w, hw⟩ : ∃ w : Worker, w =
                { t with
                  toBookkeeping := k
                  table := hashInsertNode t.table (env.getHashIndex f.key.bytes) n
                  record := Function.update t.record f.buffer
                    { t.record f.buffer with nextFrag := none }
                  node := Function.update t.node n D } := ⟨_, rfl⟩
            have hrecord : w.record = t.record := by
              rw [hw]
              refine Function.update_eq_self_iff.mpr ?_
              have hnext : (t.record f.buffer).nextFrag = none := hfill.next
              rw [← hnext]
            have hsame : ∀ b, SameBuffer t w b := fun b =>
              .of_eq hrecord (by rw [hw]) (by rw [hw])
            rw [← hw]
            refine ⟨d :: live, ?_, ?_, ⟨zombies, waiting', late, by rw [hw]; exact hb⟩, ?_⟩
            · rw [hd]
              refine .kept (.first within unknown hn hi)
                ⟨[], [], live, n, info, rfl, .inr ⟨rfl, rfl⟩⟩
                (by rw [hw]; exact hfill.copies) (by rw [hw]; exact hfill.completed)
            · refine hcache.add (by rw [hw, hd]; rfl) (fun e he => ?_) (fun b _ => hsame b) ?_
                (by rw [hdn]; exact hnodeNe) (by rw [hd]; exact unknown) ?_
              · rw [hw]
                exact Function.update_of_ne (hnodeNe e he) _ _
              · rw [hd]
                refine ⟨?_, ?_, (Chain.single hf hfill.next).congr fun g _ => hsame _, by simp,
                  Nat.succ_le_of_lt (by decide), by simp⟩
                · rw [hw]
                  simpa using hlist
                · rw [hw]
                  simpa using hsums
              · intro b hb hmem
                obtain rfl : b = f.buffer := by simpa [hd] using hb
                exact hready.fresh hmem
            · exact hfill.untouched.of_eq hrecord (by rw [hw]) (by rw [hw])

end Outcome

/-- `ip4_frag_proc` and `ip6_frag_proc` do what `Handles` says, and keep the table and the
books. -/
theorem fragProc_outcome (hcache : Cache env s live)
    (hbooks : Books env s.toBookkeeping pendingTimers timedOut live zombies count waiting late)
    (hready : Ready s o f live) :
    Outcome env s o f live pendingTimers timedOut count
      (fragProc f.version.fields env s o f.buffer) := by
  have hfill := filled_fillRecord hready.arrived
  obtain ⟨t, ht⟩ : ∃ t, t = fillRecord f.version.fields s o f.buffer := ⟨_, rfl⟩
  rw [← ht] at hfill
  have hcache' : Cache env t live := by
    refine hcache.frame (by rw [ht]; rfl) (fun d _ => by rw [ht]; rfl) fun b hb => ?_
    have hne : b ≠ f.buffer := by
      rintro rfl
      exact hready.fresh hb
    exact ⟨hfill.record b hne, congrFun hfill.wdata b, congrArg (load · _) hfill.mem⟩
  have hbooks' : Books env t.toBookkeeping pendingTimers timedOut live zombies count waiting late :=
    hfill.books ▸ hbooks
  have hf := hfill.ok
  simp only [fragProc, ← ht, hf.wdata, hf.view]
  by_cases hover : LayerOver o f
  · have hlt : o.ipReassLayers (f.wdata.interfaceId - 1) < f.wdata.ipWdataCnt := hover
    rw [if_pos hlt]
    exact ⟨live, .alone (.layer hover) (.inr rfl) (.single hf hfill.next)
      hfill.copies hfill.completed,
      hcache', ⟨_, _, _, hbooks'⟩, hfill.untouched⟩
  have hle : ¬o.ipReassLayers (f.wdata.interfaceId - 1) < f.wdata.ipWdataCnt := hover
  rw [if_neg hle]
  have hkeyEq : f.version.fields.key f.wdata f.view = f.key := rfl
  rw [hkeyEq]
  by_cases hknown : ∃ d ∈ live, d.key = f.key
  · obtain ⟨d, hd, hkey⟩ := hknown
    have hfind := hcache'.hashFind_eq hd
    rw [Datagram.hashIndex, hkey] at hfind
    rw [hfind]
    obtain ⟨l₁, l₂, rfl⟩ := List.append_of_mem hd
    have houtcome := found_outcome hfill hcache' hbooks' hready hover hkey
    rw [Datagram.hashIndex, hkey] at houtcome
    exact houtcome
  · have hunknown : ∀ d ∈ live, d.key ≠ f.key := fun d hd hkey => hknown ⟨d, hd, hkey⟩
    rw [hcache'.hashFind_none hunknown]
    exact new_outcome hfill hcache' hbooks' hready hover hunknown

end Tapplet.Reass
