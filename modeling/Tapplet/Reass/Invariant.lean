import Tapplet.Reass.System

/-!
# What every run of reassembly keeps

`Inv` says where the buffers are: the waiting datagrams `live` hold the cached ones, each
built packet that is on its way holds the row `kids` of its fragments, and every other buffer
that came in was handed on. The table, the timers and the pools are those of `Cache` and
`Books`.
-/

namespace Tapplet.Reass

open Linked GenericHash SfTimer Transition

/-- The built buffer `b` holds the row `kids`. -/
structure Parcel (s : Worker) (b : BufferId) (kids : List BufferId) : Prop where
  row : Row s kids
  child : (s.record b).childFrag = kids.head?
  alone : (s.record b).nextFrag = none
  followed : (s.record b).followedNodesCnt = kids.length
  some_kids : kids ≠ []
  short : kids.length ≤ ipReassMaxCachePkts

structure Inv (env : Env) (S : System) (live : List Datagram) (kids : BufferId → List BufferId) :
    Prop where
  cache : Cache env S.worker live
  books : ∃ zombies count waiting late, Books env S.worker.toBookkeeping S.pendingTimers
    S.timedOut live zombies count waiting late
  known : ∀ d ∈ live, ∀ f ∈ d.frags, S.fragment f.buffer = f ∧ f.wdata.ipWdataCnt < 2 ^ 8
  parcels : ∀ b ∈ S.flying, Parcel S.worker b (kids b)
  flyingNodup : S.flying.Nodup
  balance : (S.entered ++ S.created).Perm
    (S.handed ++ (cachedBuffers live ++ S.flying.flatMap kids))
  once : ∀ b, (S.entered ++ S.created).count b ≤ (S.enqueued.map Prod.fst).count b + 1
  roots : ∀ b ∈ S.flying, b ∉ cachedBuffers live ++ S.flying.flatMap kids
  room : ∀ v, S.preIndex v < vlibFrameSize
  fits : S.Fits

variable {env : Env} {nenv : NodeEnv} {S T : System} {live : List Datagram}
  {kids : BufferId → List BufferId} {e : Event} {b : BufferId}

theorem inv_init (env : Env) (w : Worker) (arr : EnqueueArrays) {start interval : Nat}
    (hstart : start < 2 ^ 64) (hpos : 0 < interval) :
    Inv env (.init w arr start interval) [] fun _ => [] where
  cache :=
    { table := ⟨fun _ => [], ⟨fun _ => rfl, fun _ => rfl, fun _ => .nil, by simp⟩, by simp⟩
      nodes := .nil
      keys := .nil
      ok := by simp
      buffers := .nil }
  books := ⟨[], 0, [], [],
    { wheel := ⟨fun _ => [], [],
        { index := rfl
          bucket := fun i hi => .zero
          due := by simp
          expiredLinked := rfl
          expiredSlots := rfl
          expiredOk := by simp
          overdue := by simp
          stored := by simp
          places := by simp [System.init]
          nodup := .nil }⟩
      words := by simp [armed]
      tokens := .refl _
      timers := by simp
      zombie := by simp
      infos := .refl _
      nodes := .refl _
      apart := .nil
      nodesApart := .nil
      fits := by simp
      lastRun := by simp [System.init, sfTwTimerInit]
      lastRunNow := Nat.le_refl 0
      started := hstart
      interval := hpos }⟩
  known := by simp
  parcels := by simp [System.init]
  flyingNodup := .nil
  balance := .refl _
  once := by simp [System.init]
  roots := by simp [System.init]
  room := fun _ => by simp [System.init, vlibFrameSize]
  fits := ⟨fun _ => Nat.zero_le _, Nat.zero_le _, Nat.zero_le _⟩

/-! ## Places -/

namespace Inv

theorem count_eq (h : Inv env S live kids) (b : BufferId) :
    (S.entered ++ S.created).count b = (S.enqueued.map Prod.fst).count b +
      ((S.posted .ip4 ++ S.posted .ip6).map Prod.fst).count b +
      (cachedBuffers live ++ S.flying.flatMap kids).count b := by
  rw [h.balance.count_eq b, List.count_append, Graph.handed]
  simp only [List.map_append, List.count_append]
  omega

theorem inside (h : Inv env S live kids)
    (hb : b ∈ cachedBuffers live ++ S.flying.flatMap kids) : S.Inside b := by
  have hpos := List.count_pos_iff.mpr hb
  have hcount := h.count_eq b
  rw [System.Inside]
  omega

theorem entered_of_inside (h : S.Inside b) : b ∈ S.entered ++ S.created :=
  List.count_pos_iff.mp (Nat.zero_lt_of_lt h)

/-- No buffer is in two places. -/
theorem nodup (h : Inv env S live kids) : (cachedBuffers live ++ S.flying.flatMap kids).Nodup := by
  refine List.nodup_iff_count_le_one.mpr fun b => ?_
  have honce := h.once b
  have hcount := h.count_eq b
  omega

theorem notMem_of_outside (h : Inv env S live kids) (hb : ¬S.Inside b) :
    b ∉ cachedBuffers live ∧ b ∉ S.flying.flatMap kids := by
  rw [← not_or, ← List.mem_append]
  exact fun hmem => hb (h.inside hmem)

/-- Buffers that come in, `entering`, or are made, `news`, are moved, and `bs` are handed on: the
books of the buffers stay balanced. -/
theorem accounts (h : Inv env S live kids) (entering news : List BufferId)
    {bs places : List BufferId} (entered : T.entered = S.entered ++ entering)
    (created : T.created = S.created ++ news)
    (handed : T.handed.Perm (S.handed ++ bs)) (enqueued : S.enqueued <+: T.enqueued)
    (new : ∀ c ∈ entering ++ news, ¬S.Inside c) (newNodup : (entering ++ news).Nodup)
    (moved : (entering ++ news ++ (cachedBuffers live ++ S.flying.flatMap kids)).Perm
      (bs ++ places)) :
    (T.entered ++ T.created).Perm (T.handed ++ places) ∧
      ∀ c, (T.entered ++ T.created).count c ≤ (T.enqueued.map Prod.fst).count c + 1 := by
  rw [entered, created]
  constructor
  · refine List.perm_iff_count.mpr fun c => ?_
    have hold := h.balance.count_eq c
    have hnow := moved.count_eq c
    have hhand := handed.count_eq c
    simp only [List.count_append] at hold hnow hhand ⊢
    omega
  · intro c
    have hle : (S.enqueued.map Prod.fst).count c ≤ (T.enqueued.map Prod.fst).count c :=
      (enqueued.sublist.map _).count_le _
    have honce := h.once c
    have hcount := List.nodup_iff_count_le_one.mp newNodup c
    simp only [List.count_append] at honce hcount ⊢
    by_cases hc : c ∈ entering ++ news
    · have hout := new c hc
      rw [System.Inside, List.count_append] at hout
      omega
    · have hzero := List.count_eq_zero.mpr hc
      rw [List.count_append] at hzero
      omega

end Inv

/-! ## The arrival of a packet -/

theorem Chain.row {s : Worker} {fs : List Fragment} (h : Chain s fs) : Row s (buffers fs) where
  linked := h.linked
  leaf := fun b hb => by
    obtain ⟨f, hf, rfl⟩ := List.mem_map.mp hb
    rw [(h.ok f hf).wdata]
    exact (h.ok f hf).leaf
  followed := fun b hb => by
    obtain ⟨f, hf, rfl⟩ := List.mem_map.mp hb
    exact (h.ok f hf).followed

/-- What an arrival returns, and which buffers it moves where: `bs` are handed on, and a built
packet takes the row `kids`. -/
theorem Effect.moves {s s' : Worker} {o : Outside} {f : Fragment} {live live' : List Datagram}
    {ret : Option BufferId} {status : Int} (h : Effect s s' o f live live' ret status) :
    ∃ bs kids, Returned s' ret status bs ∧
      ((if status = 0 then ret else none).toList ++ f.buffer :: cachedBuffers live).Perm
        (bs ++ (cachedBuffers live' ++ kids)) ∧
      ((if status = 0 then ret else none) = none → kids = []) ∧
      ∀ b ∈ (if status = 0 then ret else none), o.newBuffer = some b ∧ bs = [b] ∧
        Parcel s' b kids := by
  cases h with
  | alone handles sign chain copies completed =>
      have hne : status ≠ 0 := by omega
      rw [if_neg hne]
      refine ⟨[f.buffer], [], ?_, by simp, fun _ => rfl, by simp⟩
      obtain rfl | rfl := sign
      · exact Returned.row (n := 1) chain.row rfl (by omega) (by simp) (by decide)
      · exact .layer _
  | kept handles place copies completed =>
      obtain ⟨l₁, gs, l₂, n, info, rfl, hlive⟩ := place
      refine ⟨[], [], .nothing, ?_, fun _ => rfl, by simp⟩
      refine List.perm_iff_count.mpr fun c => ?_
      obtain rfl | ⟨rfl, rfl⟩ := hlive
      · simp only [cachedBuffers_append, cachedBuffers_cons, buffers_append, buffers_cons,
          buffers_nil, if_true, Option.toList_none, List.nil_append, List.append_nil,
          List.count_append, List.count_cons, List.count_nil]
        omega
      · simp only [cachedBuffers_append, cachedBuffers_cons, buffers_cons, buffers_nil, if_true,
          Option.toList_none, List.nil_append, List.append_nil, List.count_append,
          List.count_cons, List.count_nil]
        omega
  | @returned l₁ l₂ d handles chain pos short copies completed =>
      have hne : (d.frags.length : Int) ≠ 0 := by omega
      rw [if_neg hne]
      refine ⟨buffers (d.frags ++ [f]), [], ?_, ?_, fun _ => rfl, by simp⟩
      · obtain ⟨b, hb⟩ : ∃ b, (buffers (d.frags ++ [f])).head? = some b := by
          cases hfrags : d.frags with
          | nil => exact ⟨_, rfl⟩
          | cons g gs => exact ⟨_, rfl⟩
        rw [hb]
        exact .row chain.row hb pos (by simp) short
      · refine List.perm_iff_count.mpr fun c => ?_
        simp only [cachedBuffers_append, cachedBuffers_cons, buffers_append, buffers_cons,
          buffers_nil, Option.toList_none, List.nil_append, List.append_nil, List.count_append,
          List.count_cons, List.count_nil]
        omega
  | @built l₁ l₂ d b first handles within key new few small done buffer chain head packet copies
      completed =>
      rw [if_pos rfl]
      refine ⟨[b], buffers (d.frags ++ [f]), .packet b, ?_, by simp, ?_⟩
      · refine List.perm_iff_count.mpr fun c => ?_
        simp only [cachedBuffers_append, cachedBuffers_cons, buffers_append, buffers_cons,
          buffers_nil, Option.toList_some, List.cons_append, List.nil_append,
          List.count_append, List.count_cons, List.count_nil]
        omega
      · intro c hc
        obtain rfl : b = c := Option.some.inj hc
        refine ⟨buffer, rfl, chain.row, ?_, packet.nextFrag, ?_, by simp, ?_⟩
        · rw [packet.childFrag]
          cases hfrags : d.frags with
          | nil => simp [hfrags] at head
          | cons g gs =>
              rw [hfrags] at head
              obtain rfl : g = first := by simpa using head
              rfl
        · rw [packet.followed, buffers_length]
        · rw [TooMany] at few
          simp only [buffers_length, List.length_append, List.length_singleton]
          omega

/-- The fragments that wait afterwards waited before, or are the one that arrived. -/
theorem Effect.frags {s s' : Worker} {o : Outside} {f g : Fragment} {live live' : List Datagram}
    {ret : Option BufferId} {status : Int} (h : Effect s s' o f live live' ret status)
    {d : Datagram} (hd : d ∈ live') (hg : g ∈ d.frags) :
    g = f ∨ ∃ d' ∈ live, g ∈ d'.frags := by
  cases h with
  | alone => exact .inr ⟨d, hd, hg⟩
  | kept handles place copies completed =>
      obtain ⟨l₁, gs, l₂, n, info, rfl, hlive⟩ := place
      rw [List.mem_append, List.mem_cons] at hd
      obtain hd | rfl | hd := hd
      · obtain rfl | ⟨-, rfl⟩ := hlive
        · exact .inr ⟨d, by simp [hd], hg⟩
        · exact .inr ⟨d, by simp [hd], hg⟩
      · rw [List.mem_append, List.mem_singleton] at hg
        obtain hg | rfl := hg
        · obtain rfl | ⟨rfl, -⟩ := hlive
          · exact .inr ⟨⟨n, info, f.key, gs⟩, by simp, hg⟩
          · simp at hg
        · exact .inl rfl
      · obtain rfl | ⟨-, rfl⟩ := hlive
        · exact .inr ⟨d, by simp [hd], hg⟩
        · exact .inr ⟨d, by simp [hd], hg⟩
  | returned =>
      exact .inr ⟨d, ((List.sublist_cons_self _ _).append_left _).subset hd, hg⟩
  | built =>
      exact .inr ⟨d, ((List.sublist_cons_self _ _).append_left _).subset hd, hg⟩

theorem Cache.handedOn {g g' : Graph} {bs : List BufferId} (h : Cache env g.worker live)
    (on : HandedOn g g' bs) (apart : ∀ b ∈ cachedBuffers live, b ∉ bs) :
    Cache env g'.worker live := by
  obtain ⟨w, hw⟩ := on.worker
  refine h.frame (by rw [hw]) (fun d _ => by rw [hw]) fun b hb => ⟨by rw [hw], ?_, by rw [hw]⟩
  exact on.kept b (apart b hb)

/-- A parcel stays when its records do, and the flags of its row. -/
theorem Parcel.congr {s s' : Worker} {row : List BufferId} (h : Parcel s b row)
    (root : s'.record b = s.record b) (record : ∀ c ∈ row, s'.record c = s.record c)
    (unused8 : ∀ c ∈ row, (s'.wdata c).unused8 = (s.wdata c).unused8) : Parcel s' b row where
  row := h.row.congr record unused8
  child := root ▸ h.child
  alone := root ▸ h.alone
  followed := root ▸ h.followed
  some_kids := h.some_kids
  short := h.short

theorem Parcel.handedOn {g g' : Graph} {row bs : List BufferId} (h : Parcel g.worker b row)
    (on : HandedOn g g' bs) : Parcel g'.worker b row := by
  obtain ⟨w, hw⟩ := on.worker
  exact h.congr (by rw [hw]) (fun c _ => by rw [hw]) fun c _ => on.unused8 c

section Packet

variable {v : Version} {w : Wdata} {bytes : Nat → UInt8} {o : Outside}

theorem load_receive_of_ne {s : Worker} {p : DataPtr} (h : w.dataPtr.block ≠ p.block) :
    load (s.receive b w bytes).mem p = load s.mem p := by
  obtain ⟨blk, off⟩ := p
  funext i
  cases blk with
  | none => rfl
  | some c =>
      cases hw : w.dataPtr.block with
      | none => simp [Worker.receive, hw]
      | some blk =>
          have hne : c ≠ blk := by
            rintro rfl
            exact h hw
          simp [Worker.receive, hw, load, hne]

theorem arrived_receive (s : Worker) (leaf : ¬w.isReass) (mapped : w.dataPtr.block ≠ none) :
    Arrived (s.receive b w bytes) o (arriving v b w bytes o) where
  wdata := Function.update_self ..
  data := by
    obtain ⟨blk, hblk⟩ := Option.ne_none_iff_exists'.mp mapped
    funext i
    simp [arriving, Worker.receive, load, hblk]
  mapped := mapped
  leaf := leaf
  output := rfl

/-- The state in which the fragment is processed. -/
theorem Inv.arrive (h : Inv env S live kids) (en : Enabled S (.packet v b w bytes o)) :
    Cache env (S.worker.receive b w bytes) live ∧
      Ready (S.worker.receive b w bytes) o (arriving v b w bytes o) live := by
  obtain ⟨⟨outside, -, leaf, -⟩, ⟨mapped, unshared⟩, newHuge, newBuffer, newNode, newInfo,
    newChunk⟩ := en
  have hcached := (h.notMem_of_outside outside).1
  have hinside : ∀ c ∈ cachedBuffers live, c ∈ S.entered ++ S.created ∧ S.Inside c := by
    intro c hc
    have hin := h.inside (List.mem_append_left _ hc)
    exact ⟨entered_of_inside hin, hin⟩
  have hapart : ∀ d ∈ live, ∀ g ∈ d.frags, ∀ p, S.Unshared p → g.wdata.dataPtr.block ≠ p := by
    intro d hd g hg p hp
    obtain ⟨hent, hin⟩ := hinside g.buffer (mem_cachedBuffers hd hg)
    have hne := hp g.buffer hent hin
    rwa [((h.cache.ok d hd).chain.ok g hg).wdata] at hne
  refine ⟨?_, ?_⟩
  · refine h.cache.frame rfl (fun _ _ => rfl) fun c hc => ⟨rfl, ?_, ?_⟩
    · refine Function.update_of_ne ?_ _ _
      rintro rfl
      exact hcached hc
    · apply load_receive_of_ne
      obtain ⟨hent, hin⟩ := hinside c hc
      exact Ne.symm (unshared c hent hin)
  · refine ⟨arrived_receive _ leaf mapped, hcached, ?_, ?_, newNode, newInfo, newChunk⟩
    · intro c hc
      obtain ⟨hne, houtside, -⟩ := newBuffer c hc
      exact ⟨hne, (h.notMem_of_outside houtside).1⟩
    · cases hhuge : o.newHuge with
      | none =>
          exact ⟨mapped, fun d hd g hg => ((h.cache.ok d hd).chain.ok g hg).mapped⟩
      | some blk =>
          obtain ⟨hne, hother⟩ := newHuge blk hhuge
          exact ⟨hne, fun d hd g hg => hapart d hd g hg _ hother⟩

/-- The processing of a fragment. -/
theorem Inv.proc (h : Inv env S live kids) (en : Enabled S (.packet v b w bytes o)) :
    ∃ live', Effect (S.worker.receive b w bytes) (S.proc env v b w bytes o).1 o
        (arriving v b w bytes o) live live' (S.proc env v b w bytes o).2.1
        (S.proc env v b w bytes o).2.2 ∧
      Cache env (S.proc env v b w bytes o).1 live' ∧
      (∃ zombies count waiting late, Books env (S.proc env v b w bytes o).1.toBookkeeping
        S.pendingTimers S.timedOut live' zombies count waiting late) ∧
      Untouched (S.worker.receive b w bytes) (S.proc env v b w bytes o).1 o
        (arriving v b w bytes o) live := by
  obtain ⟨hcache, hready⟩ := h.arrive en
  obtain ⟨zombies, count, waiting, late, hbooks⟩ := h.books
  obtain ⟨live', heffect, hcache', hbooks', huntouched⟩ :=
    fragProc_outcome hcache hbooks hready
  obtain ⟨zombies', waiting', late', hbooks'⟩ := hbooks'
  exact ⟨live', heffect, hcache', ⟨zombies', count, waiting', late', hbooks'⟩, huntouched⟩

/-- The arrival of a packet keeps the invariant. -/
theorem Inv.packet (h : Inv env S live kids) (en : Enabled S (.packet v b w bytes o)) :
    ∃ live' kids', Effect (S.worker.receive b w bytes) (S.proc env v b w bytes o).1 o
        (arriving v b w bytes o) live live' (S.proc env v b w bytes o).2.1
        (S.proc env v b w bytes o).2.2 ∧
      Inv env (S.packet env v b w bytes o) live' kids' := by
  obtain ⟨live', heffect, hcache', hbooks', huntouched⟩ := h.proc en
  obtain ⟨bs, row, hreturned, hperm, hnone, hbuilt⟩ := heffect.moves
  obtain ⟨r, hr⟩ : ∃ r, r = S.proc env v b w bytes o := ⟨_, rfl⟩
  obtain ⟨built, hbuiltEq⟩ : ∃ built, built = if r.2.2 = 0 then r.2.1 else none := ⟨_, rfl⟩
  obtain ⟨g, hg⟩ : ∃ g : Graph, g = { S.toGraph with worker := r.1 } := ⟨_, rfl⟩
  rw [← hr] at heffect hreturned hperm hnone hbuilt hcache' hbooks' huntouched
  rw [← hbuiltEq] at hperm hnone hbuilt
  have hgWorker : g.worker = r.1 := by rw [hg]
  have hgFits : g.Fits := by
    rw [hg]
    exact ⟨h.fits.arr, h.fits.timerArr, h.fits.forwardArr⟩
  rw [← hgWorker] at hreturned
  obtain ⟨hon, hroom⟩ := dispatch_handedOn hgFits (by rw [hg]; exact h.room) v hreturned
  have hhanded : g.handed = S.handed := by rw [hg]; rfl
  have henqueued : g.enqueued = S.enqueued := by rw [hg]
  obtain ⟨T, hT⟩ : ∃ T, T = S.packet env v b w bytes o := ⟨_, rfl⟩
  have hgraph : T.toGraph = g.dispatch v r.2.1 r.2.2 := by rw [hT, hg, hr]; rfl
  have hflying : T.flying = built.toList ++ S.flying := by rw [hT, hbuiltEq, hr]; rfl
  have hentered : T.entered = S.entered ++ [b] := by rw [hT]; rfl
  have hcreated : T.created = S.created ++ built.toList := by rw [hT, hbuiltEq, hr]; rfl
  have hfragment : T.fragment = Function.update S.fragment b (arriving v b w bytes o) := by
    rw [hT]
    rfl
  have hpending : T.pendingTimers = S.pendingTimers := by rw [hT]; rfl
  have htimedOut : T.timedOut = S.timedOut := by rw [hT]; rfl
  rw [← hT]
  rw [← hgraph] at hon hroom
  -- the buffer that arrives and the new one are nowhere before
  obtain ⟨⟨outside, hland, -, hlayers⟩, -, -, newBuffer, -⟩ := en
  obtain ⟨hbCached, hbKids⟩ := h.notMem_of_outside outside
  have hnew : ∀ c ∈ built, c ≠ b ∧ ¬S.Inside c ∧ c ∉ S.flying := fun c hc =>
    newBuffer c (hbuilt c hc).1
  have hbuffer : (arriving v b w bytes o).buffer = b := rfl
  rw [hbuffer] at hperm
  obtain ⟨kids', hkids⟩ : ∃ kids' : BufferId → List BufferId, kids' = fun c =>
      if c ∈ built then row else kids c := ⟨_, rfl⟩
  have hkidsOld : ∀ c ∈ S.flying, kids' c = kids c := by
    intro c hc
    rw [hkids]
    exact if_neg fun hmem => (hnew c hmem).2.2 hc
  have hrows : T.flying.flatMap kids' = row ++ S.flying.flatMap kids := by
    rw [hflying, List.flatMap_append, List.flatMap_congr hkidsOld]
    congr 1
    cases hb : built with
    | none => rw [hnone hb]; rfl
    | some c => simp [hkids, hb]
  have hmoved : ([b] ++ built.toList ++ (cachedBuffers live ++ S.flying.flatMap kids)).Perm
      (bs ++ (cachedBuffers live' ++ T.flying.flatMap kids')) := by
    rw [hrows]
    refine List.perm_iff_count.mpr fun c => ?_
    have hcount := hperm.count_eq c
    simp only [List.count_append, List.count_cons, List.count_nil] at hcount ⊢
    omega
  have hnewOut : ∀ c ∈ [b] ++ built.toList, ¬S.Inside c := by
    intro c hc
    rw [List.mem_append, List.mem_singleton, Option.mem_toList] at hc
    obtain rfl | hc := hc
    · exact outside
    · exact (hnew c hc).2.1
  have hnewNodup : ([b] ++ built.toList).Nodup := by
    refine List.nodup_append.mpr ⟨by simp, by cases built <;> simp, ?_⟩
    rintro x hx c hc rfl
    obtain rfl : x = b := by simpa using hx
    exact (hnew x (by simpa using hc)).1 rfl
  have hnodup : (bs ++ (cachedBuffers live' ++ T.flying.flatMap kids')).Nodup := by
    refine hmoved.nodup_iff.mp (List.nodup_append.mpr ⟨hnewNodup, h.nodup, ?_⟩)
    rintro c hc _ hc' rfl
    exact hnewOut c hc (h.inside hc')
  have haccounts :=
    h.accounts [b] built.toList hentered hcreated (hhanded ▸ hon.handed) (henqueued ▸ hon.enqueued)
    hnewOut hnewNodup hmoved
  refine ⟨live', kids', by rw [← hr]; exact heffect, ?_⟩
  exact
    { cache := by
        refine Cache.handedOn (hgWorker ▸ hcache') hon fun c hc hbs => ?_
        exact (List.nodup_append.mp hnodup).2.2 c hbs c (List.mem_append_left _ hc) rfl
      books := by
        obtain ⟨wdata, hw⟩ := hon.worker
        rw [hw, hpending, htimedOut, hgWorker]
        exact hbooks'
      known := by
        intro d hd f hf
        rw [hfragment]
        obtain rfl | ⟨d', hd', hf'⟩ := heffect.frags hd hf
        · exact ⟨Function.update_self .., hlayers⟩
        · obtain ⟨hknown, hlt⟩ := h.known d' hd' f hf'
          refine ⟨(Function.update_of_ne ?_ _ _).trans hknown, hlt⟩
          rintro rfl
          exact hbCached (mem_cachedBuffers hd' hf')
      parcels := by
        intro c hc
        rw [hflying, List.mem_append] at hc
        refine Parcel.handedOn ?_ hon
        rw [hgWorker]
        obtain hc | hc := hc
        · have hmem : c ∈ built := by simpa using hc
          have hrow : kids' c = row := by rw [hkids]; exact if_pos hmem
          rw [hrow]
          exact (hbuilt c hmem).2.2
        · rw [hkidsOld c hc]
          have hroot := h.roots c hc
          have houtside : ∀ x, x ∉ cachedBuffers live → x ≠ b → (∀ y ∈ o.newBuffer, y ≠ x) →
              r.1.record x = S.worker.record x := fun x hx hne hnewB =>
            huntouched.record x hne hx fun heq => hnewB x heq rfl
          have hkid : ∀ x ∈ kids c, x ∈ S.flying.flatMap kids := fun x hx =>
            List.mem_flatMap.mpr ⟨c, hc, hx⟩
          have hkidNe : ∀ x ∈ kids c, x ≠ b := by
            rintro x hx rfl
            exact hbKids (hkid x hx)
          have hkidNew : ∀ x ∈ kids c, ∀ y ∈ o.newBuffer, y ≠ x := by
            rintro x hx y hy rfl
            exact (newBuffer y hy).2.1 (h.inside (List.mem_append_right _ (hkid y hx)))
          refine (h.parcels c hc).congr ?_ ?_ ?_
          · refine houtside c (fun hmem => hroot (List.mem_append_left _ hmem)) ?_ ?_
            · rintro rfl
              exact hland hc
            · rintro y hy rfl
              exact (newBuffer y hy).2.2 hc
          · intro x hx
            refine houtside x (fun hmem => ?_) (hkidNe x hx) (hkidNew x hx)
            exact (List.nodup_append.mp h.nodup).2.2 x hmem x (hkid x hx) rfl
          · intro x hx
            have hsame : r.1.wdata x = S.worker.wdata x := by
              rw [huntouched.wdata x fun heq => hkidNew x hx x heq rfl]
              exact Function.update_of_ne (hkidNe x hx) _ _
            rw [hsame]
      flyingNodup := by
        rw [hflying, List.nodup_append]
        refine ⟨by cases built <;> simp, h.flyingNodup, ?_⟩
        rintro c hc _ hc' rfl
        exact (hnew c (by simpa using hc)).2.2 hc'
      balance := haccounts.1
      once := haccounts.2
      roots := by
        intro c hc hmem
        rw [hflying, List.mem_append] at hc
        obtain hc | hc := hc
        · have hcb : c ∈ built := by simpa using hc
          have hbs : c ∈ bs := by rw [(hbuilt c hcb).2.1]; simp
          exact (List.nodup_append.mp hnodup).2.2 c hbs c hmem rfl
        · have hmem' := hmoved.mem_iff.mpr (List.mem_append_right _ hmem)
          rw [List.mem_append, List.mem_append, List.mem_singleton, Option.mem_toList] at hmem'
          obtain (rfl | hin) | hin := hmem'
          · exact hland hc
          · exact (hnew c hin).2.2 hc
          · exact h.roots c hc hin
      room := hroom
      fits := hon.fits }

end Packet

/-! ## The other steps -/

/-- Steps that change the timers and the pools only. -/
theorem Inv.rebook (h : Inv env S live kids) {k : Bookkeeping} {pendingTimers : List Nat}
    {gets : Nat} (books : ∃ zombies count waiting late, Books env k pendingTimers S.timedOut live
      zombies count waiting late) :
    Inv env { S with
      worker := { S.worker with toBookkeeping := k }
      pendingTimers := pendingTimers
      gets := gets } live kids where
  cache := h.cache.frame rfl (fun _ _ => rfl) fun _ _ => .of_eq rfl rfl rfl
  books := books
  known := h.known
  parcels := fun c hc => (h.parcels c hc).congr rfl (fun _ _ => rfl) fun _ _ => rfl
  flyingNodup := h.flyingNodup
  balance := h.balance
  once := h.once
  roots := h.roots
  room := h.room
  fits := ⟨h.fits.arr, h.fits.timerArr, h.fits.forwardArr⟩

theorem Inv.endFrame (h : Inv env S live kids) (v : Version) :
    Inv env { S with toGraph := S.toGraph.enqueueToNext v } live kids := by
  have hon := enqueueToNext_handedOn (v := v) h.fits
  obtain ⟨hbalance, honce⟩ := h.accounts (T := { S with toGraph := S.toGraph.enqueueToNext v })
    [] [] (by simp) (by simp) hon.handed hon.enqueued (by simp) .nil (.refl _)
  exact
    { cache := h.cache
      books := h.books
      known := h.known
      parcels := h.parcels
      flyingNodup := h.flyingNodup
      balance := hbalance
      once := honce
      roots := h.roots
      room := by
        intro u
        by_cases hu : u = v
        · subst hu
          simp [Graph.enqueueToNext, vlibFrameSize]
        · simp only [Graph.enqueueToNext, Function.update_of_ne hu]
          exact h.room u
      fits := hon.fits }

theorem Inv.poll (h : Inv env S live kids) (room_pos : ∀ k, 0 < nenv.room k)
    (registered : nenv.nextIndexVec sfTwTimerGroupIpReass ≠ 0) :
    Inv env (S.poll nenv) live kids := by
  obtain ⟨zombies, count, waiting, late, hbooks⟩ := h.books
  obtain ⟨count', waiting', late', hbooks'⟩ := hbooks.poll room_pos registered rfl
  exact h.rebook ⟨zombies, count', waiting', late', hbooks'⟩

/-- What a timer that is handled finds: the datagram it belongs to, which is then closed, or one
that was stopped. -/
theorem Inv.onTimer (h : Inv env S live kids) :
    (∃ l₁ d l₂ info rest, S.pendingTimers = info :: rest ∧ live = l₁ ++ d :: l₂ ∧
      S.worker.timerData info = ⟨d.hashIndex env, some d.node⟩ ∧
      Inv env S.onTimer (l₁ ++ l₂) kids) ∨
    (∀ info ∈ S.pendingTimers.head?, (S.worker.timerData info).pnode = none) ∧
      Inv env S.onTimer live kids := by
  obtain ⟨zombies, count, waiting, late, hbooks⟩ := h.books
  cases hpending : S.pendingTimers with
  | nil =>
      right
      rw [System.onTimer, hpending]
      exact ⟨by simp, h⟩
  | cons info rest =>
      rw [hpending] at hbooks
      obtain ⟨l₁, d, l₂, rfl, rfl, hdata, hclosed⟩ | ⟨hdata, -, zombies', hfreed⟩ := hbooks.handle
      · left
        refine ⟨l₁, d, l₂, d.info, rest, rfl, rfl, hdata, ?_⟩
        have hd : d ∈ l₁ ++ d :: l₂ := by simp
        have hok := h.cache.ok d hd
        obtain ⟨b, hb⟩ : ∃ b, (buffers d.frags).head? = some b := by
          have hcount := hok.list.count
          cases hfrags : d.frags with
          | nil => simp [hfrags] at hcount
          | cons f fs => exact ⟨_, rfl⟩
        have hshort := hok.short
        rw [ipReassMaxCachePkts] at hshort
        obtain ⟨hon, hpre⟩ := onTimer_handedOn h.fits hdata hok.chain.row
          (hok.list.head.trans hb) hb (by rw [buffers_length, arrayLength, vlibFrameSize]; omega)
        obtain ⟨T, hT⟩ : ∃ T, T = S.onTimer := ⟨_, rfl⟩
        have hafter : T = { S with
            toGraph := S.toGraph.onTimer d.info
            pendingTimers := rest
            timedOut := d.info :: S.timedOut } := by
          rw [hT, System.onTimer, hpending]
          simp only [hdata]
        have hgraph : T.toGraph = S.toGraph.onTimer d.info := by rw [hafter]
        have hfields : T.entered = S.entered ∧ T.created = S.created ∧ T.flying = S.flying ∧
            T.fragment = S.fragment ∧ T.pendingTimers = rest ∧
            T.timedOut = d.info :: S.timedOut := by rw [hafter]; simp
        obtain ⟨hentered, hcreated, hflying, hfragment, hrest, htimedOut⟩ := hfields
        rw [← hT]
        rw [← hgraph] at hon hpre
        have hcached : (cachedBuffers (l₁ ++ d :: l₂)).Perm
            (buffers d.frags ++ cachedBuffers (l₁ ++ l₂)) := List.perm_middle.flatMap_right _
        have hmoved : ([] ++ [] ++ (cachedBuffers (l₁ ++ d :: l₂) ++ S.flying.flatMap kids)).Perm
            (buffers d.frags ++ (cachedBuffers (l₁ ++ l₂) ++ T.flying.flatMap kids)) := by
          have happ := hcached.append_right (S.flying.flatMap kids)
          rw [List.append_assoc] at happ
          rw [hflying]
          exact happ
        have hnodup := hmoved.nodup_iff.mp (by simpa using h.nodup)
        obtain ⟨hbalance, honce⟩ := h.accounts [] [] (by simpa using hentered)
          (by simpa using hcreated) hon.handed hon.enqueued (by simp) .nil hmoved
        have hsub : ∀ e ∈ l₁ ++ l₂, e ∈ l₁ ++ d :: l₂ := fun e he =>
          ((List.sublist_cons_self _ _).append_left _).subset he
        exact
          { cache := by
              have hremove : Cache env ((S.worker.hashFree d.node (d.hashIndex env)).freeNode
                  d.node) (l₁ ++ l₂) :=
                h.cache.remove rfl (fun _ _ => rfl) fun _ _ => .of_eq rfl rfl rfl
              refine Cache.handedOn hremove hon fun c hc hbs => ?_
              exact (List.nodup_append.mp hnodup).2.2 c hbs c (List.mem_append_left _ hc) rfl
            books := by
              obtain ⟨wdata, hw⟩ := hon.worker
              rw [hw, hrest, htimedOut]
              exact ⟨zombies, count, waiting, late, hclosed⟩
            known := by
              rw [hfragment]
              exact fun e he => h.known e (hsub e he)
            parcels := by
              rw [hflying]
              intro c hc
              refine Parcel.handedOn ?_ hon
              exact (h.parcels c hc).congr rfl (fun _ _ => rfl) fun _ _ => rfl
            flyingNodup := hflying ▸ h.flyingNodup
            balance := hbalance
            once := honce
            roots := by
              rw [hflying]
              intro c hc hmem
              refine h.roots c hc ?_
              have hmem' := hmoved.mem_iff.mpr
                (List.mem_append_right _ (hflying.symm ▸ hmem))
              simpa using hmem'
            room := hpre ▸ h.room
            fits := hon.fits }
      · right
        have hafter : S.onTimer = { S with
            worker := S.worker.freeInfo info
            pendingTimers := rest } := by
          rw [System.onTimer, hpending]
          simp only [hdata, Graph.onTimer]
        refine ⟨by simp [hdata], ?_⟩
        rw [hafter]
        exact h.rebook ⟨zombies', count, waiting, late, hfreed⟩

theorem Inv.forward {w : Wdata} (h : Inv env S live kids) (en : Enabled S (.forward b w)) :
    Inv env (S.forward b w) live kids := by
  obtain ⟨hfly, outside, built⟩ := en
  obtain ⟨g, hg⟩ : ∃ g : Graph, g = { S.toGraph with
    worker := { S.worker with wdata := Function.update S.worker.wdata b w } } := ⟨_, rfl⟩
  have hroot := h.roots b hfly
  have hwdata : ∀ c, c ≠ b → g.worker.wdata c = S.worker.wdata c := by
    intro c hc
    rw [hg]
    exact Function.update_of_ne hc _ _
  have hrecord : g.worker.record = S.worker.record := by rw [hg]
  have hkidsNe : ∀ c ∈ S.flying, ∀ x ∈ kids c, x ≠ b := by
    rintro c hc x hx rfl
    exact hroot (List.mem_append_right _ (List.mem_flatMap.mpr ⟨c, hc, hx⟩))
  have hparcel : ∀ c ∈ S.flying, Parcel g.worker c (kids c) := fun c hc =>
    (h.parcels c hc).congr (by rw [hrecord]) (fun _ _ => by rw [hrecord]) fun x hx => by
      rw [hwdata x (hkidsNe c hc x hx)]
  obtain ⟨row, child, alone, followed, some_kids, short⟩ := hparcel b hfly
  have hgFits : g.Fits := by
    rw [hg]
    exact ⟨h.fits.arr, h.fits.timerArr, h.fits.forwardArr⟩
  rw [ipReassMaxCachePkts] at short
  obtain ⟨hon, hpre⟩ := forward_handedOn hgFits (by rw [hg]; simpa using built) alone child row
    followed some_kids (by rw [arrayLength, vlibFrameSize]; omega)
  have hhanded : g.handed = S.handed := by rw [hg]; rfl
  have henqueued : g.enqueued = S.enqueued := by rw [hg]
  obtain ⟨T, hT⟩ : ∃ T, T = S.forward b w := ⟨_, rfl⟩
  have hgraph : T.toGraph = g.forward b := by rw [hT, hg]; rfl
  have hfields : T.entered = S.entered ++ [b] ∧ T.created = S.created ∧
      T.flying = S.flying.erase b ∧ T.fragment = S.fragment ∧
      T.pendingTimers = S.pendingTimers ∧ T.timedOut = S.timedOut := by
    rw [hT]
    simp [System.forward]
  obtain ⟨hentered, hcreated, hflying, hfragment, hpending, htimedOut⟩ := hfields
  rw [← hT]
  rw [← hgraph] at hon hpre
  have hmoved : ([b] ++ [] ++ (cachedBuffers live ++ S.flying.flatMap kids)).Perm
      (b :: kids b ++ (cachedBuffers live ++ T.flying.flatMap kids)) := by
    have hperm : (S.flying.flatMap kids).Perm (kids b ++ T.flying.flatMap kids) := by
      rw [hflying]
      exact (List.perm_cons_erase hfly).flatMap_right kids
    refine List.perm_iff_count.mpr fun c => ?_
    have hcount := hperm.count_eq c
    simp only [List.count_append, List.count_cons, List.count_nil] at hcount ⊢
    omega
  have hnodup : (b :: kids b ++ (cachedBuffers live ++ T.flying.flatMap kids)).Nodup := by
    refine hmoved.nodup_iff.mp ?_
    exact List.nodup_cons.mpr ⟨hroot, h.nodup⟩
  obtain ⟨hbalance, honce⟩ := h.accounts [b] [] hentered (by simpa using hcreated)
    (hhanded ▸ hon.handed) (henqueued ▸ hon.enqueued) (by simpa using outside) (by simp) hmoved
  have hsub : ∀ c ∈ T.flying, c ∈ S.flying := by
    rw [hflying]
    exact fun c hc => List.mem_of_mem_erase hc
  exact
    { cache := by
        have hcache : Cache env g.worker live := by
          refine h.cache.frame (by rw [hg]) (fun _ _ => by rw [hg]) fun c hc => ?_
          refine ⟨by rw [hrecord], hwdata c ?_, by rw [hg]⟩
          rintro rfl
          exact hroot (List.mem_append_left _ hc)
        refine hcache.handedOn hon fun c hc hbs => ?_
        exact (List.nodup_append.mp hnodup).2.2 c hbs c (List.mem_append_left _ hc) rfl
      books := by
        obtain ⟨wdata, hw⟩ := hon.worker
        rw [hw, hpending, htimedOut, hg]
        exact h.books
      known := hfragment ▸ h.known
      parcels := fun c hc => (hparcel c (hsub c hc)).handedOn hon
      flyingNodup := by
        rw [hflying]
        exact h.flyingNodup.erase b
      balance := hbalance
      once := honce
      roots := by
        intro c hc hmem
        refine h.roots c (hsub c hc) ?_
        have hmem' := hmoved.mem_iff.mpr (List.mem_append_right _ hmem)
        rw [List.append_nil, List.singleton_append, List.mem_cons] at hmem'
        obtain rfl | hmem' := hmem'
        · rw [hflying] at hc
          exact absurd hc (List.Nodup.not_mem_erase h.flyingNodup)
        · exact hmem'
      room := by
        rw [hpre, hg]
        exact h.room
      fits := hon.fits }

/-- Every step keeps the invariant. -/
theorem Inv.step (room_pos : ∀ k, 0 < nenv.room k)
    (registered : nenv.nextIndexVec sfTwTimerGroupIpReass ≠ 0) (h : Inv env S live kids)
    (hs : Step env nenv S e T) : ∃ live' kids', Inv env T live' kids' := by
  obtain ⟨en, rfl⟩ := hs
  cases e with
  | packet v b w bytes o =>
      obtain ⟨live', kids', -, h'⟩ := h.packet en
      exact ⟨live', kids', h'⟩
  | endFrame v => exact ⟨live, kids, h.endFrame v⟩
  | clock d =>
      obtain ⟨zombies, count, waiting, late, hbooks⟩ := h.books
      exact ⟨live, kids, h.rebook ⟨zombies, count, waiting, late, hbooks.clock d⟩⟩
  | poll => exact ⟨live, kids, h.poll room_pos registered⟩
  | onTimer =>
      obtain ⟨l₁, d, l₂, -, -, -, -, -, h'⟩ | ⟨-, h'⟩ := h.onTimer
      · exact ⟨l₁ ++ l₂, kids, h'⟩
      · exact ⟨live, kids, h'⟩
  | forward b w => exact ⟨live, kids, h.forward en⟩

end Tapplet.Reass
