import Tapplet.Reass.Bytes
import Tapplet.Reass.Complete

/-!
# What is built

The packet that an arrival returns is the one of the cached fragments of its key and of the
fragment that arrived, in this order.
-/

namespace Tapplet.Reass

open Linked GenericHash SfTimer Transition Patch

variable {env : Env} {nenv : NodeEnv} {s : Worker} {S T : System} {live : List Datagram}
  {kids : BufferId → List BufferId} {f : Fragment} {o : Outside} {b : BufferId}
  {e : Event} {es : List Event}

/-- The worker `s'` is the one after the packet of the fragments `fs` was built in `b`. -/
structure Builds (env : Env) (v : Version) (o : Outside) (fs : List Fragment) (b : BufferId)
    (s' : Worker) : Prop where
  newBuffer : o.newBuffer = some b
  result : ∃ t first rest fuel n, Chain t fs ∧ fs = first :: rest ∧ fs.length ≤ fuel ∧
    s' = (buildInto v.fields env t first.buffer b o.newHuge fuel).freeNode n

theorem completeDatagram_builds {v : Version} {n : NodeId} {key : KeyIpReass} {hashIndex : Nat}
    {fs : List Fragment} (hlist : NodeList (s.node n) key fs) (hchain : Chain s fs) (hne : fs ≠ [])
    (hlong : 1 < fs.length)
    (hret : (completeDatagram v.fields env s o n hashIndex).2.1 = some b)
    (hstatus : (completeDatagram v.fields env s o n hashIndex).2.2 = 0) :
    Builds env v o fs b (completeDatagram v.fields env s o n hashIndex).1 := by
  obtain ⟨first, rest, rfl⟩ := List.exists_cons_of_ne_nil hne
  have hhead : (s.node n).head = some first.buffer := hlist.head
  have hcount := hlist.count
  simp only [completeDatagram, hhead, ipReassDeleteTimer_eq, fragBuildPkt,
    if_neg (allocHugePkt16k_ne_null _)] at hret hstatus ⊢
  cases hbuffer : o.newBuffer with
  | none =>
      simp only [hbuffer] at hstatus
      omega
  | some c =>
      simp only [hbuffer] at hret ⊢
      obtain rfl : c = b := Option.some.inj hret
      refine ⟨hbuffer, _, first, rest, _, n, ?_, rfl, ?_, rfl⟩
      · exact hchain.congr fun g _ => .of_eq rfl rfl rfl
      · exact Nat.le_of_eq hcount.symm

/-- A fragment of a known datagram that returns a packet. -/
theorem foundNode_builds {d : Datagram} {t : Worker} {l₁ l₂ : List Datagram} (hfill : Filled s t f)
    (hcache : Cache env t (l₁ ++ d :: l₂)) (hready : Ready s o f (l₁ ++ d :: l₂))
    (hret : (foundNode f.version.fields env t o f.buffer d.node (d.hashIndex env)).2.1 = some b)
    (hstatus : (foundNode f.version.fields env t o f.buffer d.node (d.hashIndex env)).2.2 = 0) :
    Builds env f.version o (d.frags ++ [f]) b
      (foundNode f.version.fields env t o f.buffer d.node (d.hashIndex env)).1 := by
  have hd : d ∈ l₁ ++ d :: l₂ := by simp
  have hok := hcache.ok d hd
  have hpos : 0 < d.frags.length := by
    have hcount := hok.list.count
    omega
  obtain ⟨-, heq⟩ | ⟨tail, D, htail, hlist, -, hcase⟩ :=
    foundNode_cases env o hok hfill.ok (d.hashIndex env)
  · rw [heq] at hstatus
    cases hstatus
  have hfresh : f.buffer ∉ buffers d.frags := by
    intro hmem
    obtain ⟨g, hg, hb⟩ := List.mem_map.mp hmem
    exact hready.fresh (hb ▸ mem_cachedBuffers hd hg)
  have hchain : Chain (linkFrag t tail f d.node D) (d.frags ++ [f]) :=
    .link hok hfill.ok hfill.next hfresh htail
  have hnode : (linkFrag t tail f d.node D).node d.node = D := setNode_node_self ..
  have hlist' : NodeList ((linkFrag t tail f d.node D).node d.node) d.key (d.frags ++ [f]) :=
    hnode.symm ▸ hlist
  obtain ⟨-, heq⟩ | ⟨-, -, -, ⟨-, heq⟩ | ⟨-, heq⟩⟩ := hcase
  · rw [heq, dropDatagram_eq] at hstatus
    have hcount := hlist'.count
    rw [List.length_append, List.length_singleton] at hcount
    simp only at hstatus
    omega
  · rw [heq] at hret hstatus ⊢
    exact completeDatagram_builds hlist' hchain (by simp) (by simpa using hpos) hret hstatus
  · rw [heq] at hret
    cases hret

/-- A fragment whose datagram is not known returns no packet. -/
theorem newNode_not_built {F : FragFields} {key : KeyIpReass} {hashIndex : Nat} {b0 : BufferId}
    (hstatus : (newNode F s o b0 key hashIndex).2.2 = 0) :
    (newNode F s o b0 key hashIndex).2.1 = none := by
  revert hstatus
  unfold newNode
  split
  · intro hstatus
    cases hstatus
  · dsimp only
    split
    · intro hstatus
      cases hstatus
    · exact fun _ => rfl

/-- A fragment that returns a packet returns the one of its datagram. -/
theorem fragProc_builds (hcache : Cache env s live) (hready : Ready s o f live)
    (hret : (fragProc f.version.fields env s o f.buffer).2.1 = some b)
    (hstatus : (fragProc f.version.fields env s o f.buffer).2.2 = 0) :
    ∃ d ∈ live, d.key = f.key ∧ Builds env f.version o (d.frags ++ [f]) b
      (fragProc f.version.fields env s o f.buffer).1 := by
  have hfill := filled_fillRecord hready.arrived
  obtain ⟨t, ht⟩ : ∃ t, t = fillRecord f.version.fields s o f.buffer := ⟨_, rfl⟩
  rw [← ht] at hfill
  have hcache' : Cache env t live := by
    refine hcache.frame (by rw [ht]; rfl) (fun d _ => by rw [ht]; rfl) fun c hc => ?_
    have hne : c ≠ f.buffer := by
      rintro rfl
      exact hready.fresh hc
    exact ⟨hfill.record c hne, congrFun hfill.wdata c, congrArg (load · _) hfill.mem⟩
  have hkeyEq : f.version.fields.key f.wdata f.view = f.key := rfl
  simp only [fragProc, ← ht, hfill.ok.wdata, hfill.ok.view, hkeyEq] at hret hstatus ⊢
  by_cases hover : o.ipReassLayers (f.wdata.interfaceId - 1) < f.wdata.ipWdataCnt
  · rw [if_pos hover] at hstatus
    cases hstatus
  rw [if_neg hover] at hret hstatus ⊢
  by_cases hknown : ∃ d ∈ live, d.key = f.key
  · obtain ⟨d, hd, hkey⟩ := hknown
    have hfind := hcache'.hashFind_eq hd
    rw [Datagram.hashIndex, hkey] at hfind
    rw [hfind] at hret hstatus ⊢
    obtain ⟨l₁, l₂, rfl⟩ := List.append_of_mem hd
    refine ⟨d, hd, hkey, ?_⟩
    have hbuilds := foundNode_builds (b := b) hfill hcache' hready
    rw [Datagram.hashIndex, hkey] at hbuilds
    exact hbuilds hret hstatus
  · have hunknown : ∀ d ∈ live, d.key ≠ f.key := fun d hd hkey => hknown ⟨d, hd, hkey⟩
    rw [hcache'.hashFind_none hunknown] at hret hstatus
    rw [newNode_not_built hstatus] at hret
    cases hret

/-! ## The packet that is returned -/

/-- The packet `p` was built from the fragments `fs`, in the huge packet that the pool gave. -/
structure Assembled (env : Env) (v : Version) (huge : Option Block) (fs : List Fragment)
    (p : Reassembled) : Prop where
  children : p.children = fs
  built : ∃ first, fs.head? = some first ∧ p.wdata = builtWdata huge first fs ∧
    p.ipReassOutput = first.output ∧
    (huge ≠ none → ∃ old,
      p.header = (List.range (first.before + first.hdrLen)).map (builtBytes env v first fs old) ∧
      p.payload = (List.range (meetLen fs)).map fun i =>
        builtBytes env v first fs old (first.before + first.hdrLen + i))

/-- The packet in the new buffer, when `fragment` is what the buffers came in with. -/
theorem Builds.assembled {v : Version} {fs : List Fragment} {s' : Worker}
    {fragment : BufferId → Fragment} (h : Builds env v o fs b s')
    (apart : ∀ g ∈ fs, g.wdata.dataPtr.block ≠ o.newHuge)
    (known : ∀ g ∈ fs, fragment g.buffer = g)
    (children : s'.children b = buffers fs) :
    Assembled env v o.newHuge fs (s'.reassembled fragment b) := by
  obtain ⟨t, first, rest, fuel, n, hchain, rfl, hfuel, rfl⟩ := h.result
  obtain ⟨hwdata, houtput, hbytes⟩ := buildInto_bytes env o.newHuge v hchain hfuel b
  obtain ⟨u, hu⟩ : ∃ u, u = buildInto v.fields env t first.buffer b o.newHuge fuel := ⟨_, rfl⟩
  rw [← hu] at hwdata houtput hbytes children ⊢
  constructor
  · show ((u.freeNode n).children b).map fragment = _
    rw [children, buffers, List.map_map]
    refine (List.map_congr_left fun g hg => ?_).trans (List.map_id _)
    exact known g hg
  · refine ⟨first, rfl, hwdata, houtput, fun hhuge => ?_⟩
    obtain ⟨blk, hblk⟩ := Option.ne_none_iff_exists'.mp hhuge
    have hload := hbytes blk hblk fun g hg => by
      have hne := apart g hg
      rwa [hblk] at hne
    refine ⟨load t.mem (allocHugePkt16k o.newHuge), ?_, ?_⟩
    · show loadBytes u.mem (u.wdata b).dataPtr (u.wdata b).currentData = _
      rw [hwdata, loadBytes]
      exact congrArg (fun g => List.map g _) hload
    · show loadBytes u.mem (u.wdata b).current (u.wdata b).currentLength = _
      rw [hwdata, loadBytes, Wdata.current, load_add_eq]
      exact congrArg (fun g => List.map (fun i => g (first.before + first.hdrLen + i)) _) hload

/-- The buffers behind a packet that is returned are those of the datagram. -/
theorem Effect.children {s' : Worker} {live' : List Datagram} {ret : Option BufferId} {status : Int}
    (h : Effect s s' o f live live' ret status) (hret : ret = some b) (hstatus : status = 0) :
    ∃ d ∈ live, d.key = f.key ∧ s'.children b = buffers (d.frags ++ [f]) := by
  cases h with
  | alone handles sign => omega
  | kept => cases hret
  | returned handles chain pos => omega
  | @built l₁ l₂ d c first handles within key new few small done buffer chain head packet =>
      obtain rfl : c = b := Option.some.inj hret
      refine ⟨d, by simp, key, ?_⟩
      have hhead : some first.buffer = (buffers (d.frags ++ [f])).head? := by
        rw [buffers_append, List.head?_append, buffers, List.head?_map, head]
        rfl
      have hshort : (buffers (d.frags ++ [f])).length ≤ ipReassMaxCachePkts := by
        rw [TooMany] at few
        rw [buffers_length, List.length_append, List.length_singleton]
        omega
      rw [Worker.children, packet.childFrag, hhead, Worker.chain,
        collect_of_seg chain.linked hshort, Option.getD_some]

/-- The buffer that the processing of the fragment returned, if it is a built packet. -/
def System.builtBuffer (env : Env) (S : System) (v : Version) (b : BufferId) (w : Wdata)
    (bytes : Nat → UInt8) (o : Outside) : Option BufferId :=
  if (S.proc env v b w bytes o).2.2 = 0 then (S.proc env v b w bytes o).2.1 else none

/-- A packet that is returned was built from the cached fragments and the one that arrived. -/
theorem Inv.assembled {v : Version} {w : Wdata} {bytes : Nat → UInt8} {c : BufferId}
    (h : Inv env S live kids) (en : Enabled S (.packet v b w bytes o))
    (hbuilt : S.builtBuffer env v b w bytes o = some c) :
    o.newBuffer = some c ∧ S.cached env (arriving v b w bytes o).key ≠ [] ∧
      Assembled env v o.newHuge
        (S.cached env (arriving v b w bytes o).key ++ [arriving v b w bytes o])
      ((S.proc env v b w bytes o).1.reassembled
        (Function.update S.fragment b (arriving v b w bytes o)) c) := by
  obtain ⟨hcache, hready⟩ := h.arrive en
  obtain ⟨live', heffect, -⟩ := h.proc en
  obtain ⟨hstatus, hret⟩ : (S.proc env v b w bytes o).2.2 = 0 ∧
      (S.proc env v b w bytes o).2.1 = some c := by
    rw [System.builtBuffer] at hbuilt
    split at hbuilt
    next hzero => exact ⟨hzero, hbuilt⟩
    next => cases hbuilt
  obtain ⟨d, hd, hkey, hbuilds⟩ := fragProc_builds hcache hready hret hstatus
  have hcached : S.cached env (arriving v b w bytes o).key = d.frags := by
    rw [← hkey]
    exact h.cached_eq hd
  have hne : d.frags ≠ [] := by
    have hcount := (hcache.ok d hd).list.count
    exact List.ne_nil_of_length_pos (by omega)
  rw [hcached]
  refine ⟨hbuilds.newBuffer, hne, hbuilds.assembled ?_ ?_ ?_⟩
  · intro g hg
    rw [List.mem_append, List.mem_singleton] at hg
    obtain hg | rfl := hg
    · exact hready.newHuge.2 d hd g hg
    · exact hready.newHuge.1
  · intro g hg
    rw [List.mem_append, List.mem_singleton] at hg
    obtain hg | rfl := hg
    · have hfresh : g.buffer ≠ b := by
        intro hgb
        have hmem := mem_cachedBuffers hd hg
        rw [hgb] at hmem
        exact hready.fresh hmem
      rw [Function.update_of_ne hfresh]
      exact (h.known d hd g hg).1
    · exact Function.update_self ..
  · obtain ⟨d', hd', hkey', hchildren⟩ := heffect.children hret hstatus
    have hcached' := h.cached_eq hd'
    rw [hkey', hcached] at hcached'
    rw [← hcached'] at hchildren
    exact hchildren

/-- The result of the processing of a fragment. -/
def System.result (env : Env) (S : System) (v : Version) (b : BufferId) (w : Wdata)
    (bytes : Nat → UInt8) (o : Outside) : Result :=
  let r := S.proc env v b w bytes o
  let f := arriving v b w bytes o
  ⟨f, r.2.1, r.2.2,
    (S.builtBuffer env v b w bytes o).map (r.1.reassembled (Function.update S.fragment b f))⟩

@[simp] theorem System.packet_results (v : Version) (b : BufferId) (w : Wdata)
    (bytes : Nat → UInt8) (o : Outside) :
    (S.packet env v b w bytes o).results = S.results ++ [S.result env v b w bytes o] := rfl

/-- Every packet of a result was built from its children. -/
def Built (env : Env) (r : Result) : Prop :=
  ∀ p, r.packet = some p → ∃ huge, Assembled env r.fragment.version huge p.children p

theorem Inv.step_built (h : Inv env S live kids) (hs : Step env nenv S e T)
    (built : ∀ r ∈ S.results, Built env r) : ∀ r ∈ T.results, Built env r := by
  obtain ⟨en, rfl⟩ := hs
  cases e with
  | packet v b w bytes o =>
      show ∀ r ∈ (S.packet env v b w bytes o).results, Built env r
      rw [System.packet_results, List.forall_mem_append, List.forall_mem_singleton]
      refine ⟨built, fun p hp => ?_⟩
      obtain ⟨c, hc, rfl⟩ := Option.map_eq_some_iff.mp hp
      obtain ⟨-, -, hassembled⟩ := h.assembled en hc
      refine ⟨o.newHuge, ?_⟩
      rw [hassembled.children]
      exact hassembled
  | onTimer =>
      show ∀ r ∈ S.onTimer.results, Built env r
      unfold System.onTimer
      split
      · exact built
      · exact built
  | endFrame | clock | poll | forward => exact built

/-- Every packet that a run returns was built from its children. -/
theorem built_of_run (room_pos : ∀ k, 0 < nenv.room k)
    (registered : nenv.nextIndexVec sfTwTimerGroupIpReass ≠ 0) {w : Worker} {arr : EnqueueArrays}
    {start interval : Nat} (hstart : start < 2 ^ 64) (hpos : 0 < interval)
    (run : Run (Step env nenv) (.init w arr start interval) es S) :
    ∀ r ∈ S.results, Built env r := by
  have hkept := run.invariant
    (I := fun S => (∃ live kids, Inv env S live kids) ∧ ∀ r ∈ S.results, Built env r)
    ⟨⟨[], _, inv_init env w arr hstart hpos⟩, by simp [System.init]⟩ ?_
  · exact hkept.2
  · rintro s e t ⟨⟨live, kids, h⟩, built⟩ hs
    exact ⟨h.step room_pos registered hs, h.step_built hs built⟩

end Tapplet.Reass
