import Tapplet.Reass.Order

/-!
# Reassembly undoes fragmentation

A payload is cut into pieces, which arrive in some order, some of them more than once, while
fragments of other datagrams arrive, timers run and frames end. Each piece but the last one to
arrive waits, each repeated one is handed back, and the last one returns a packet with the
payload.
-/

namespace Tapplet.Reass

open Linked GenericHash SfTimer Transition Patch Tiling

variable {env : Env} {nenv : NodeEnv} {S T : System} {es : List Event} {e : Event}
  {live live' : List Datagram} {kids : BufferId → List BufferId} {o : Outside} {key : KeyIpReass}
  {f g : Fragment} {fs gs seen : List Fragment} {payload : List UInt8}

/-! ## Pieces of a payload -/

def Fragment.bytes (f : Fragment) : List UInt8 := (List.range f.size).map f.body

/-- The fragments follow each other from `start` on. -/
def Contiguous : Nat → List Fragment → Prop
  | _, [] => True
  | start, f :: fs => f.offset = start ∧ Contiguous (start + f.size) fs

/-- The payload, with a header in front of it, cut into the fragments `fs`. The offsets count
eights of bytes, so all sizes but the last one do, too. -/
structure Cut (key : KeyIpReass) (payload : List UInt8) (fs : List Fragment) : Prop where
  two : 2 ≤ fs.length
  ten : fs.length ≤ ipReassMaxCachePkts
  key : ∀ f ∈ fs, f.key = key
  bytes : fs.flatMap Fragment.bytes = payload
  contiguous : Contiguous 0 fs
  nonempty : ∀ f ∈ fs, 0 < f.size
  last : ∃ front l, fs = front ++ [l] ∧ l.isLast ∧ ∀ f ∈ front, ¬f.isLast
  hdrLen : ∃ n, 20 ≤ n ∧ ∀ f ∈ fs, f.hdrLen = n
  fits : ∀ f ∈ fs, f.before + f.hdrLen + payload.length ≤ sfHugePktMaxDataSize

/-- What is true of the pieces in whatever order. -/
structure Pieces (payload : List UInt8) (fs : List Fragment) : Prop where
  few : fs.length ≤ ipReassMaxCachePkts
  sum : (fs.map Fragment.size).sum = payload.length
  short : payload.length ≤ sfHugePktMaxDataSize
  nonempty : ∀ f ∈ fs, 0 < f.size
  last : ∃ f ∈ fs, f.isLast
  stop : ∀ f ∈ fs, f.isLast → f.stop = payload.length
  small : ∀ f ∈ fs, f.before + payload.length ≤ sfHugePktMaxDataSize
  hdrLen : ∀ f ∈ fs, 20 ≤ f.hdrLen
  byte : ∀ f ∈ fs, ∀ j < f.size, payload[f.offset + j]? = some (f.body j)
  covered : ∀ i < payload.length, ∃ f ∈ fs, f.piece.Covers i

theorem Pieces.perm (h : Pieces payload fs) (same : fs.Perm gs) : Pieces payload gs where
  few := same.length_eq ▸ h.few
  sum := (same.map _).sum_eq.symm.trans h.sum
  short := h.short
  nonempty := fun f hf => h.nonempty f (same.mem_iff.mpr hf)
  last := by
    obtain ⟨f, hf, hlast⟩ := h.last
    exact ⟨f, same.mem_iff.mp hf, hlast⟩
  stop := fun f hf => h.stop f (same.mem_iff.mpr hf)
  small := fun f hf => h.small f (same.mem_iff.mpr hf)
  hdrLen := fun f hf => h.hdrLen f (same.mem_iff.mpr hf)
  byte := fun f hf => h.byte f (same.mem_iff.mpr hf)
  covered := fun i hi => by
    obtain ⟨f, hf, hcover⟩ := h.covered i hi
    exact ⟨f, same.mem_iff.mp hf, hcover⟩

@[simp] theorem Fragment.bytes_length (f : Fragment) : f.bytes.length = f.size := by
  simp [Fragment.bytes]

theorem sum_sizes (fs : List Fragment) :
    (fs.map Fragment.size).sum = (fs.flatMap Fragment.bytes).length := by
  rw [List.length_flatMap]
  simp

/-- The bytes and places of fragments that follow each other. -/
theorem Contiguous.byte {start : Nat} (h : Contiguous start fs) (hf : f ∈ fs) :
    start ≤ f.offset ∧ f.stop ≤ start + (fs.flatMap Fragment.bytes).length ∧
      ∀ j < f.size, (fs.flatMap Fragment.bytes)[f.offset - start + j]? = some (f.body j) := by
  induction fs generalizing start with
  | nil => cases hf
  | cons g gs ih =>
      obtain ⟨hoffset, hrest⟩ := h
      rw [List.flatMap_cons, List.length_append, g.bytes_length]
      obtain rfl | hmem := List.mem_cons.mp hf
      · refine ⟨Nat.le_of_eq hoffset.symm, by rw [Fragment.stop]; omega, fun j hj => ?_⟩
        rw [hoffset, Nat.sub_self, Nat.zero_add, List.getElem?_append_left (by simpa using hj)]
        simp [Fragment.bytes, hj]
      · obtain ⟨hle, hstop, hbytes⟩ := ih hrest hmem
        refine ⟨by omega, by omega, fun j hj => ?_⟩
        rw [List.getElem?_append_right (by rw [g.bytes_length]; omega), g.bytes_length,
          ← hbytes j hj]
        congr 1
        omega

theorem Contiguous.covered {start i : Nat} (h : Contiguous start fs) (hi : start ≤ i)
    (hlt : i < start + (fs.flatMap Fragment.bytes).length) : ∃ f ∈ fs, f.piece.Covers i := by
  induction fs generalizing start with
  | nil =>
      simp at hlt
      omega
  | cons g gs ih =>
      obtain ⟨hoffset, hrest⟩ := h
      rw [List.flatMap_cons, List.length_append, g.bytes_length] at hlt
      by_cases hg : i < start + g.size
      · refine ⟨g, List.mem_cons_self .., ?_⟩
        show g.offset ≤ i ∧ i < g.offset + g.size
        omega
      · obtain ⟨f, hf, hcover⟩ := ih hrest (by omega) (by omega)
        exact ⟨f, List.mem_cons_of_mem _ hf, hcover⟩

theorem Contiguous.last_stop {start : Nat} (h : Contiguous start (fs ++ [f])) :
    f.stop = start + ((fs ++ [f]).flatMap Fragment.bytes).length := by
  induction fs generalizing start with
  | nil =>
      obtain ⟨hoffset, -⟩ := h
      simp [Fragment.stop, hoffset]
  | cons g gs ih =>
      obtain ⟨-, hrest⟩ := h
      have hstop := ih hrest
      rw [List.cons_append, List.flatMap_cons, List.length_append, g.bytes_length]
      omega

theorem Cut.pieces (h : Cut key payload fs) : Pieces payload fs where
  few := h.ten
  sum := by rw [sum_sizes, h.bytes]
  short := by
    obtain ⟨front, l, rfl, -⟩ := h.last
    have hfits := h.fits l (by simp)
    omega
  nonempty := h.nonempty
  last := by
    obtain ⟨front, l, rfl, hlast, -⟩ := h.last
    exact ⟨l, by simp, hlast⟩
  stop := by
    obtain ⟨front, l, rfl, -, hfront⟩ := h.last
    intro f hf hlast
    rw [List.mem_append, List.mem_singleton] at hf
    obtain hf | rfl := hf
    · exact absurd hlast (hfront f hf)
    · rw [h.contiguous.last_stop, h.bytes, Nat.zero_add]
  small := fun f hf => by
    have hfits := h.fits f hf
    omega
  hdrLen := by
    obtain ⟨n, hn, hall⟩ := h.hdrLen
    intro f hf
    rw [hall f hf]
    exact hn
  byte := fun f hf j hj => by
    obtain ⟨-, -, hbytes⟩ := h.contiguous.byte hf
    rw [← h.bytes]
    exact hbytes j hj
  covered := fun i hi => h.contiguous.covered (Nat.zero_le i) (by rwa [h.bytes, Nat.zero_add])

/-! ## Arrivals -/

/-- The fragments with new offsets, after those of `seen`. -/
def distinct (seen : List Fragment) : List Fragment → List Fragment
  | [] => seen
  | a :: as =>
      if a.offset ∈ seen.map Fragment.offset then distinct seen as else distinct (seen ++ [a]) as

/-- What the arrivals return until the datagram is complete: a fragment with a new offset waits, a
repeated one is handed back. -/
def outcomes (seen : List Fragment) : List Fragment → List Result
  | [] => []
  | a :: as =>
      if a.offset ∈ seen.map Fragment.offset then
        ⟨a, some a.buffer, 1, none⟩ :: outcomes seen as
      else ⟨a, none, 0, none⟩ :: outcomes (seen ++ [a]) as

theorem distinct_concat (seen as : List Fragment) (a : Fragment) :
    distinct seen (as ++ [a]) = if a.offset ∈ (distinct seen as).map Fragment.offset then
      distinct seen as else distinct seen as ++ [a] := by
  induction as generalizing seen with
  | nil => rfl
  | cons b bs ih =>
      rw [List.cons_append, distinct, distinct]
      split
      · exact ih seen
      · exact ih (seen ++ [b])

theorem outcomes_concat (seen as : List Fragment) (a : Fragment) :
    outcomes seen (as ++ [a]) = outcomes seen as ++
      [if a.offset ∈ (distinct seen as).map Fragment.offset then ⟨a, some a.buffer, 1, none⟩
        else ⟨a, none, 0, none⟩] := by
  induction as generalizing seen with
  | nil =>
      rw [List.nil_append, outcomes, outcomes, outcomes, distinct]
      split <;> rfl
  | cons b bs ih =>
      rw [List.cons_append, outcomes, outcomes, distinct]
      split
      · rw [ih seen, List.cons_append]
      · rw [ih (seen ++ [b]), List.cons_append]

/-- What is kept grows with the arrivals. -/
theorem distinct_prefix (seen as bs : List Fragment) :
    ∃ more, distinct seen (as ++ bs) = distinct seen as ++ more := by
  induction bs using List.reverseRecOn with
  | nil => exact ⟨[], by rw [List.append_nil, List.append_nil]⟩
  | append_singleton bs b ih =>
      obtain ⟨more, hmore⟩ := ih
      rw [← List.append_assoc, distinct_concat]
      split
      · exact ⟨more, hmore⟩
      · exact ⟨more ++ [b], by rw [hmore, List.append_assoc]⟩

theorem mem_of_mem_distinct {as : List Fragment} (h : f ∈ distinct seen as) :
    f ∈ seen ∨ f ∈ as := by
  induction as generalizing seen with
  | nil => exact .inl h
  | cons a as ih =>
      rw [distinct] at h
      split at h
      · obtain hf | hf := ih h
        · exact .inl hf
        · exact .inr (List.mem_cons_of_mem _ hf)
      · obtain hf | hf := ih h
        · rw [List.mem_append, List.mem_singleton] at hf
          obtain hf | rfl := hf
          · exact .inl hf
          · exact .inr (List.mem_cons_self ..)
        · exact .inr (List.mem_cons_of_mem _ hf)

def Event.arrival : Event → Option Fragment
  | .packet v b w bytes o => some (arriving v b w bytes o)
  | _ => none

/-- The fragments with the key that arrive, in order. -/
def arrivals (key : KeyIpReass) (es : List Event) : List Fragment :=
  (es.filterMap Event.arrival).filter fun f => f.key = key

/-- What the fragments with the key returned, in order. -/
def System.resultsOf (S : System) (key : KeyIpReass) : List Result :=
  S.results.filter fun r => r.fragment.key = key

/-- For a fragment with the key, its layer is reassembled and the allocations succeed, and no
timeout of the key fires. -/
def Supplied (key : KeyIpReass) (S : System) : Event → Prop
  | .packet v b w bytes o =>
      (arriving v b w bytes o).key = key → ¬LayerOver o (arriving v b w bytes o) ∧
        (o.newNode ≠ none ∧ o.newInfo ≠ none ∧ o.newChunk ≠ none) ∧
        o.newHuge ≠ none ∧ o.newBuffer ≠ none
  | .onTimer => ∀ info ∈ S.pendingTimers.head?, ∀ n ∈ (S.worker.timerData info).pnode,
      (S.worker.node n).key ≠ key
  | _ => True

instance (o : Outside) (f : Fragment) : Decidable (LayerOver o f) :=
  inferInstanceAs (Decidable (_ < _))

instance (key : KeyIpReass) (S : System) : (e : Event) → Decidable (Supplied key S e)
  | .packet .. => inferInstanceAs (Decidable (_ = key → ¬LayerOver _ _ ∧ (_ ≠ none ∧ _ ≠ none ∧
      _ ≠ none) ∧ _ ≠ none ∧ _ ≠ none))
  | .onTimer => inferInstanceAs (Decidable (∀ info ∈ S.pendingTimers.head?,
      ∀ n ∈ (S.worker.timerData info).pnode, (S.worker.node n).key ≠ key))
  | .endFrame _ | .clock _ | .poll | .forward .. => isTrue trivial

/-! ## One arrival -/

/-- Datagrams with other keys are left alone. -/
theorem Handles.other {ret : Option BufferId} {status : Int}
    (h : Handles o f live live' ret status) (hne : key ≠ f.key) (d : Datagram) (hd : d.key = key) :
    d ∈ live' ↔ d ∈ live := by
  cases h with
  | layer | refused | duplicate => exact .rfl
  | first =>
      rw [List.mem_cons, or_iff_right]
      rintro rfl
      exact hne hd.symm
  | @waits l₁ l₂ d' within key' =>
      simp only [List.mem_append, List.mem_cons]
      have hold : d ≠ d' := by
        rintro rfl
        exact hne (hd.symm.trans key')
      have hnew : d ≠ { d' with frags := d'.frags ++ [f] } := by
        rintro rfl
        exact hne (hd.symm.trans key')
      simp [hold, hnew]
  | @givenUp l₁ l₂ d' within key' | @unbuilt l₁ l₂ d' within key' | @built l₁ l₂ d' b within key' =>
      have hold : d ≠ d' := by
        rintro rfl
        exact hne (hd.symm.trans key')
      simp [hold]

theorem Effect.handles {s s' : Worker} {ret : Option BufferId} {status : Int}
    (h : Effect s s' o f live live' ret status) : Handles o f live live' ret status := by
  cases h with
  | alone handles => exact handles
  | kept handles => exact handles
  | returned handles => exact handles
  | built handles => exact handles

/-- What is cached for a key depends on its datagram only. -/
theorem Inv.cached_congr {kids' : BufferId → List BufferId} (h : Inv env S live kids)
    (h' : Inv env T live' kids') (same : ∀ d, d.key = key → (d ∈ live' ↔ d ∈ live)) :
    T.cached env key = S.cached env key := by
  obtain ⟨d, hd, rfl, -⟩ | ⟨hnone, -⟩ := h.find_cases key
  · rw [h.cached_eq hd, h'.cached_eq ((same d rfl).mpr hd)]
  · rw [h.cached_eq_nil hnone, h'.cached_eq_nil fun d hd hkey =>
      hnone d ((same d hkey).mp hd) hkey]

/-- What an arrival does to its datagram when nothing is short. -/
inductive Arrives (live live' : List Datagram) (o : Outside) (f : Fragment) :
    Option BufferId → Int → Prop where
  | duplicate (d : Datagram) (known : d ∈ live) (key : d.key = f.key) (dup : Duplicate d.frags f)
      (same : live' = live) : Arrives live live' o f (some f.buffer) 1
  | first (unknown : ∀ d ∈ live, d.key ≠ f.key) (d : Datagram) (new : d ∈ live')
      (key : d.key = f.key) (frags : d.frags = [f]) : Arrives live live' o f none 0
  | waits (d : Datagram) (known : d ∈ live) (key : d.key = f.key) (new : ¬Duplicate d.frags f)
      (more : ¬Completes d.frags f) (d' : Datagram) (stays : d' ∈ live') (key' : d'.key = f.key)
      (frags : d'.frags = d.frags ++ [f]) : Arrives live live' o f none 0
  | dropped (d : Datagram) (known : d ∈ live) (key : d.key = f.key) (new : ¬Duplicate d.frags f)
      (bad : TooMany d.frags ∨ TooLarge f) {ret : Option BufferId} {status : Int} :
      Arrives live live' o f ret status
  | built (d : Datagram) (known : d ∈ live) (key : d.key = f.key) (new : ¬Duplicate d.frags f)
      (done : Completes d.frags f) {b : BufferId} (buffer : o.newBuffer = some b) :
      Arrives live live' o f (some b) 0

theorem Handles.arrives {ret : Option BufferId} {status : Int}
    (h : Handles o f live live' ret status) (within : ¬LayerOver o f)
    (records : o.newNode ≠ none ∧ o.newInfo ≠ none ∧ o.newChunk ≠ none)
    (buffer : o.newBuffer ≠ none) : Arrives live live' o f ret status := by
  obtain ⟨hnode, hinfo, hchunk⟩ := records
  cases h with
  | layer beyond => exact absurd beyond within
  | refused within unknown short =>
      obtain hnone | hnone | hnone := short
      · exact absurd hnone hnode
      · exact absurd hnone hinfo
      · exact absurd hnone hchunk
  | first within unknown => exact .first unknown _ (List.mem_cons_self ..) rfl rfl
  | duplicate within known key dup => exact .duplicate _ known key dup rfl
  | waits within key new few small more =>
      exact .waits _ (by simp) key new more _ (List.mem_append_right _ (List.mem_cons_self ..)) key
        rfl
  | givenUp within key new bad => exact .dropped _ (by simp) key new bad
  | unbuilt within key new few small done short => exact absurd short buffer
  | built within key new few small done hbuffer => exact .built _ (by simp) key new done hbuffer

theorem duplicate_iff (fs : List Fragment) (f : Fragment) :
    Duplicate fs f ↔ f.offset ∈ fs.map Fragment.offset := by
  rw [Duplicate, List.mem_map]

section Step

variable {v : Version} {b : BufferId} {w : Wdata} {bytes : Nat → UInt8}

/-- The result of an arrival, and what is cached for its key afterwards. -/
inductive Returns (env : Env) (f : Fragment) (o : Outside) (c : List Fragment) :
    List Fragment → Result → Prop where
  | duplicate (dup : f.offset ∈ c.map Fragment.offset) :
      Returns env f o c c ⟨f, some f.buffer, 1, none⟩
  | waits (new : f.offset ∉ c.map Fragment.offset) (more : c ≠ [] → ¬Completes c f) :
      Returns env f o c (c ++ [f]) ⟨f, none, 0, none⟩
  | dropped (new : f.offset ∉ c.map Fragment.offset) (bad : TooMany c ∨ TooLarge f)
      {c' : List Fragment} {r : Result} : Returns env f o c c' r
  | built (new : f.offset ∉ c.map Fragment.offset) (done : Completes c f) (known : c ≠ [])
      {c' : List Fragment} {b : BufferId} {p : Reassembled}
      (packet : Assembled env f.version o.newHuge (c ++ [f]) p) :
      Returns env f o c c' ⟨f, some b, 0, some p⟩

theorem Inv.returns (h : Inv env S live kids) (en : Enabled S (.packet v b w bytes o))
    (within : ¬LayerOver o (arriving v b w bytes o))
    (records : o.newNode ≠ none ∧ o.newInfo ≠ none ∧ o.newChunk ≠ none)
    (buffer : o.newBuffer ≠ none) :
    Returns env (arriving v b w bytes o) o (S.cached env (arriving v b w bytes o).key)
      ((S.packet env v b w bytes o).cached env (arriving v b w bytes o).key)
      (S.result env v b w bytes o) := by
  obtain ⟨live', kids', heffect, h'⟩ := h.packet en
  have hassembled := fun c => h.assembled (c := c) en
  have harrives := heffect.handles.arrives within records buffer
  obtain ⟨r, hr⟩ : ∃ r, r = S.proc env v b w bytes o := ⟨_, rfl⟩
  obtain ⟨f, hf⟩ : ∃ f, f = arriving v b w bytes o := ⟨_, rfl⟩
  have hresult : S.result env v b w bytes o = ⟨f, r.2.1, r.2.2,
      (if r.2.2 = 0 then r.2.1 else none).map
        (r.1.reassembled (Function.update S.fragment b f))⟩ := by
    rw [hf, hr]
    rfl
  rw [System.builtBuffer, ← hr, ← hf] at hassembled
  rw [← hr, ← hf] at harrives
  rw [hresult, ← hf]
  obtain ⟨s', ret, status⟩ := r
  dsimp only at harrives hassembled ⊢
  cases harrives with
  | duplicate d known key dup same =>
      have hbefore := h.cached_eq known
      rw [key] at hbefore
      have hafter := h'.cached_eq (same ▸ known)
      rw [key] at hafter
      rw [hbefore, hafter]
      exact .duplicate ((duplicate_iff _ _).mp dup)
  | first unknown d new key frags =>
      have hafter := h'.cached_eq new
      rw [key, frags] at hafter
      rw [h.cached_eq_nil unknown, hafter]
      exact .waits (by simp) fun hne => absurd rfl hne
  | waits d known key new more d' stays key' frags =>
      have hbefore := h.cached_eq known
      rw [key] at hbefore
      have hafter := h'.cached_eq stays
      rw [key', frags] at hafter
      rw [hbefore, hafter]
      exact .waits (mt (duplicate_iff _ _).mpr new) fun _ => more
  | dropped d known key new bad =>
      have hbefore := h.cached_eq known
      rw [key] at hbefore
      rw [hbefore]
      exact .dropped (mt (duplicate_iff _ _).mpr new) bad
  | built d known key new done hbuffer =>
      have hbefore := h.cached_eq known
      rw [key] at hbefore
      obtain ⟨-, hne, hpacket⟩ := hassembled _ rfl
      rw [hbefore] at hne hpacket ⊢
      refine .built (mt (duplicate_iff _ _).mpr new) done hne ?_
      rw [hf]
      rw [hf] at hpacket
      exact hpacket

/-- Steps that are no arrival for the key leave its fragments and its results alone. -/
theorem Inv.step_other (room_pos : ∀ k, 0 < nenv.room k)
    (registered : nenv.nextIndexVec sfTwTimerGroupIpReass ≠ 0) (h : Inv env S live kids)
    (hs : Step env nenv S e T) (supplied : Supplied key S e)
    (other : ∀ f, e.arrival = some f → f.key ≠ key) :
    T.cached env key = S.cached env key ∧ T.resultsOf key = S.resultsOf key := by
  obtain ⟨en, rfl⟩ := hs
  cases e with
  | packet v b w bytes o =>
      have hkey := other _ rfl
      obtain ⟨live', kids', heffect, h'⟩ := h.packet en
      refine ⟨h.cached_congr h' fun d hd => heffect.handles.other (Ne.symm hkey) d hd, ?_⟩
      show (S.packet env v b w bytes o).results.filter _ = _
      have hnil : ([S.result env v b w bytes o].filter fun r => r.fragment.key = key) = [] :=
        List.filter_eq_nil_iff.mpr fun r hr => by
          obtain rfl := List.mem_singleton.mp hr
          exact fun hd => hkey (of_decide_eq_true hd)
      rw [System.packet_results, List.filter_append, hnil, List.append_nil]
      rfl
  | endFrame v => exact ⟨h.cached_congr (h.endFrame v) fun _ _ => .rfl, rfl⟩
  | clock d =>
      obtain ⟨zombies, count, waiting, late, hbooks⟩ := h.books
      have h' : Inv env (S.after env nenv (.clock d)) live kids :=
        h.rebook ⟨zombies, count, waiting, late, hbooks.clock d⟩
      exact ⟨h.cached_congr h' fun _ _ => .rfl, rfl⟩
  | poll => exact ⟨h.cached_congr (h.poll room_pos registered) fun _ _ => .rfl, rfl⟩
  | onTimer =>
      have hresults : S.onTimer.results = S.results := by
        unfold System.onTimer
        split <;> rfl
      refine ⟨?_, congrArg (List.filter _) hresults⟩
      obtain ⟨l₁, d, l₂, info, rest, hpending, rfl, hdata, h'⟩ | ⟨-, h'⟩ := h.onTimer
      · have hd : d ∈ l₁ ++ d :: l₂ := by simp
        have hne : d.key ≠ key := by
          rw [← (h.cache.ok d hd).list.key]
          exact supplied info (by rw [hpending]; rfl) d.node (by rw [hdata]; rfl)
        refine h.cached_congr h' fun c hc => ?_
        have hcd : c ≠ d := by
          rintro rfl
          exact hne hc
        simp [hcd]
      · exact h.cached_congr h' fun _ _ => .rfl
  | forward b w => exact ⟨h.cached_congr (h.forward en) fun _ _ => .rfl, rfl⟩

end Step

/-! ## When the pieces are complete -/

theorem sum_sizes_pos (hne : fs ≠ []) (pos : ∀ f ∈ fs, 0 < f.size) :
    0 < (fs.map Fragment.size).sum := by
  obtain ⟨f, gs, rfl⟩ := List.exists_cons_of_ne_nil hne
  have hf := pos f (List.mem_cons_self ..)
  rw [List.map_cons, List.sum_cons]
  omega

section Counting

variable {pre more : List Fragment}

/-- While pieces are missing, the bytes received are fewer than the total length, or that is not
known. -/
theorem Pieces.incomplete (h : Pieces payload (pre ++ more)) (hpre : pre ≠ []) (hmore : more ≠ []) :
    meetLen pre ≠ totalLen pre := by
  have hsum := h.sum
  rw [List.map_append, List.sum_append] at hsum
  have hshort := h.short
  rw [sfHugePktMaxDataSize, sfHugePktPreDataSize] at hshort
  have hpos := sum_sizes_pos hpre fun f hf => h.nonempty f (List.mem_append_left _ hf)
  have hpos' := sum_sizes_pos hmore fun f hf => h.nonempty f (List.mem_append_right _ hf)
  rw [meetLen, totalLen]
  split
  next => omega
  next f hlast =>
    have hmem := List.mem_filter.mp (List.mem_of_getLast? hlast)
    have hstop := h.stop f (List.mem_append_left _ hmem.1) hmem.2
    omega

theorem Pieces.complete (h : Pieces payload fs) : meetLen fs = totalLen fs := by
  have hsum := h.sum
  obtain ⟨l, hl, hlast⟩ := h.last
  rw [meetLen, totalLen, hsum]
  split
  next hnone =>
    rw [List.getLast?_eq_none_iff, List.filter_eq_nil_iff] at hnone
    exact absurd hlast (hnone l hl)
  next f hsome =>
    have hmem := List.mem_filter.mp (List.mem_of_getLast? hsome)
    rw [h.stop f hmem.1 hmem.2]

theorem Pieces.fit (h : Pieces payload (pre ++ f :: more)) : ¬(TooMany pre ∨ TooLarge f) := by
  rintro (hmany | ⟨hlast, hlarge⟩)
  · have hfew := h.few
    rw [TooMany] at hmany
    rw [List.length_append, List.length_cons] at hfew
    omega
  · have hmem : f ∈ pre ++ f :: more := by simp
    rw [h.stop f hmem hlast] at hlarge
    have hsmall := h.small f hmem
    have hle := Nat.mod_le payload.length (2 ^ 16)
    omega

end Counting

/-- The payload of a packet that was built from all pieces. -/
theorem Assembled.payload_eq {v : Version} {huge : Option Block} {p : Reassembled}
    (hp : Assembled env v huge fs p) (alloc : huge ≠ none) (h : Pieces payload fs) :
    p.payload = payload := by
  obtain ⟨first, hfirst, -, -, hbytes⟩ := hp.built
  obtain ⟨old, -, hpayload⟩ := hbytes alloc
  have hlong := h.hdrLen first (List.mem_of_head? hfirst)
  have hmeet : meetLen fs = payload.length := by
    have hshort := h.short
    rw [sfHugePktMaxDataSize, sfHugePktPreDataSize] at hshort
    rw [meetLen, h.sum]
    omega
  rw [hpayload, hmeet]
  refine List.ext_getElem? fun i => ?_
  by_cases hi : i < payload.length
  · have hbehind : first.before + first.hdrLen + i ∉ rewritten first := by
      unfold rewritten
      split
      · simp
      · split
        · simp only [List.mem_cons, List.not_mem_nil, or_false, not_or]
          omega
        · simp only [List.mem_cons, List.not_mem_nil, or_false, not_or]
          omega
    rw [List.getElem?_map, List.getElem?_range hi, Option.map_some,
      builtBytes_of_not_rewritten hbehind, List.getElem?_eq_getElem hi]
    congr 1
    apply lay_of_covered
    · obtain ⟨f, hf, hcover⟩ := h.covered i hi
      exact ⟨f.piece, List.mem_map_of_mem hf, hcover⟩
    · intro x hx hxi
      obtain ⟨f, hf, rfl⟩ := List.mem_map.mp hx
      have hcovers : f.offset ≤ i ∧ i < f.offset + f.size := hxi
      have hbyte := h.byte f hf (i - f.offset) (by omega)
      rw [Nat.add_sub_cancel' hcovers.1, List.getElem?_eq_getElem hi] at hbyte
      exact (Option.some.inj hbyte).symm
  · rw [List.getElem?_eq_none (by simpa using hi), List.getElem?_eq_none (by simpa using hi)]

/-! ## Runs -/

/-- The fragments `as` have arrived since `S`, and the datagram is still waiting. -/
structure Progress (env : Env) (S T : System) (key : KeyIpReass) (as : List Fragment) : Prop where
  inv : ∃ live kids, Inv env T live kids
  cached : T.cached env key = distinct [] as
  results : T.resultsOf key = S.resultsOf key ++ outcomes [] as

theorem resultsOf_packet (env : Env) (T : System) (v : Version) (b : BufferId) (w : Wdata)
    (bytes : Nat → UInt8) (o : Outside) :
    (T.packet env v b w bytes o).resultsOf (arriving v b w bytes o).key =
      T.resultsOf (arriving v b w bytes o).key ++ [T.result env v b w bytes o] := by
  have hkeep : ([T.result env v b w bytes o].filter fun r =>
      r.fragment.key = (arriving v b w bytes o).key) = [T.result env v b w bytes o] :=
    List.filter_eq_self.mpr fun r hr => by
      obtain rfl := List.mem_singleton.mp hr
      exact decide_eq_true rfl
  rw [System.resultsOf, System.packet_results, List.filter_append, hkeep]
  rfl

section Arrival

variable {as more : List Fragment} {v : Version} {b : BufferId} {w : Wdata} {bytes : Nat → UInt8}

/-- One more piece while others are missing, or a piece that has come before. -/
theorem Returns.progress {c' : List Fragment} {r : Result}
    (h : Returns env f o (distinct [] as) c' r) (hmore : more ≠ [])
    (pieces : Pieces payload (distinct [] (as ++ [f]) ++ more)) :
    c' = distinct [] (as ++ [f]) ∧ outcomes [] as ++ [r] = outcomes [] (as ++ [f]) := by
  rw [distinct_concat] at pieces ⊢
  rw [outcomes_concat]
  cases h with
  | duplicate dup => exact ⟨by rw [if_pos dup], by rw [if_pos dup]⟩
  | waits new => exact ⟨by rw [if_neg new], by rw [if_neg new]⟩
  | dropped new bad =>
      rw [if_neg new, List.append_assoc] at pieces
      exact absurd bad pieces.fit
  | built new done =>
      rw [if_neg new] at pieces
      exact absurd done (pieces.incomplete (by simp) hmore)

/-- The last missing piece. -/
theorem Returns.finish {c c' : List Fragment} {r : Result} (h : Returns env f o c c' r)
    (new : f.offset ∉ c.map Fragment.offset) (known : c ≠ [])
    (pieces : Pieces payload (c ++ [f])) :
    ∃ b p, r = ⟨f, some b, 0, some p⟩ ∧ Assembled env f.version o.newHuge (c ++ [f]) p := by
  cases h with
  | duplicate dup => exact absurd dup new
  | waits new more => exact absurd pieces.complete (more known)
  | dropped new bad => exact absurd bad pieces.fit
  | built new done known packet => exact ⟨_, _, rfl, packet⟩

theorem Progress.arrive (room_pos : ∀ k, 0 < nenv.room k)
    (registered : nenv.nextIndexVec sfTwTimerGroupIpReass ≠ 0) (h : Progress env S T key as)
    (en : Enabled T (.packet v b w bytes o)) (supplied : Supplied key T (.packet v b w bytes o))
    (hf : arriving v b w bytes o = f) (hkey : f.key = key) (hmore : more ≠ [])
    (pieces : Pieces payload (distinct [] (as ++ [f]) ++ more)) :
    Progress env S (T.packet env v b w bytes o) key (as ++ [f]) := by
  subst hf hkey
  obtain ⟨live, kids, hinv⟩ := h.inv
  obtain ⟨within, records, -, buffer⟩ := supplied rfl
  have hreturns := hinv.returns en within records buffer
  rw [h.cached] at hreturns
  obtain ⟨hcached, houtcomes⟩ := hreturns.progress hmore pieces
  refine ⟨hinv.step room_pos registered ⟨en, rfl⟩, hcached, ?_⟩
  rw [resultsOf_packet, h.results, List.append_assoc, houtcomes]

theorem Progress.finish (h : Progress env S T key as) (en : Enabled T (.packet v b w bytes o))
    (supplied : Supplied key T (.packet v b w bytes o)) (hf : arriving v b w bytes o = f)
    (hkey : f.key = key) (new : f.offset ∉ (distinct [] as).map Fragment.offset)
    (known : distinct [] as ≠ []) (pieces : Pieces payload (distinct [] as ++ [f])) :
    ∃ b' p, (T.packet env v b w bytes o).resultsOf key =
        S.resultsOf key ++ outcomes [] as ++ [⟨f, some b', 0, some p⟩] ∧
      Assembled env f.version o.newHuge (distinct [] as ++ [f]) p := by
  subst hf hkey
  obtain ⟨live, kids, hinv⟩ := h.inv
  obtain ⟨within, records, -, buffer⟩ := supplied rfl
  have hreturns := hinv.returns en within records buffer
  rw [h.cached] at hreturns
  obtain ⟨b', p, hresult, hassembled⟩ := hreturns.finish new known pieces
  refine ⟨b', p, ?_, hassembled⟩
  rw [resultsOf_packet, h.results, hresult]

end Arrival

/-- An event is an arrival for the key, which comes first, or not. -/
theorem arrivals_cons (key : KeyIpReass) (e : Event) (es : List Event) :
    (∃ v b w bytes o, e = .packet v b w bytes o ∧ (arriving v b w bytes o).key = key ∧
      arrivals key (e :: es) = arriving v b w bytes o :: arrivals key es) ∨
    (∀ f, e.arrival = some f → f.key ≠ key) ∧ arrivals key (e :: es) = arrivals key es := by
  cases e with
  | packet v b w bytes o =>
      by_cases hkey : (arriving v b w bytes o).key = key
      · exact .inl ⟨v, b, w, bytes, o, rfl, hkey, List.filter_cons_of_pos (by simpa using hkey)⟩
      · refine .inr ⟨fun f hf => ?_, List.filter_cons_of_neg (by simpa using hkey)⟩
        obtain rfl : arriving v b w bytes o = f := Option.some.inj hf
        exact hkey
  | endFrame | clock | poll | onTimer | forward => exact .inr ⟨by simp [Event.arrival], rfl⟩

/-- A run without arrivals for the key. -/
theorem resultsOf_of_none (room_pos : ∀ k, 0 < nenv.room k)
    (registered : nenv.nextIndexVec sfTwTimerGroupIpReass ≠ 0)
    (run : Run (Along (Supplied key) (Step env nenv)) S es T)
    (inv : ∃ live kids, Inv env S live kids)
    (none : arrivals key es = []) : T.resultsOf key = S.resultsOf key := by
  induction run with
  | refl => rfl
  | @cons s e t es u hs hr ih =>
      obtain ⟨live, kids, h⟩ := inv
      obtain ⟨v, b, w, bytes, o, -, -, hcons⟩ | ⟨hother, hrest⟩ := arrivals_cons key e es
      · rw [hcons] at none
        cases none
      · rw [ih (h.step room_pos registered hs.2) (hrest.symm.trans none)]
        exact (h.step_other room_pos registered hs.2 hs.1 hother).2

/-- From a point where pieces are missing, the run gets to the packet of all of them. -/
theorem Progress.run {as bs : List Fragment} (room_pos : ∀ k, 0 < nenv.room k)
    (registered : nenv.nextIndexVec sfTwTimerGroupIpReass ≠ 0)
    {S' : System} (run : Run (Along (Supplied key) (Step env nenv)) T es S')
    (h : Progress env S T key as)
    (arrived : arrivals key es = bs ++ [f])
    (new : f.offset ∉ (distinct [] (as ++ bs)).map Fragment.offset)
    (known : distinct [] (as ++ bs) ≠ [])
    (pieces : Pieces payload (distinct [] (as ++ bs) ++ [f])) :
    ∃ b p huge, S'.resultsOf key =
        S.resultsOf key ++ outcomes [] (as ++ bs) ++ [⟨f, some b, 0, some p⟩] ∧
      huge ≠ none ∧ Assembled env f.version huge (distinct [] (as ++ bs) ++ [f]) p := by
  induction run generalizing as bs with
  | refl => simp [arrivals] at arrived
  | @cons s e t es u hs hr ih =>
      obtain ⟨v, b, w, bytes, o, rfl, hkey, hcons⟩ | ⟨hother, hrest⟩ := arrivals_cons key e es
      · obtain ⟨supplied, en, rfl⟩ := hs
        rw [hcons] at arrived
        cases bs with
        | nil =>
            obtain ⟨hf, hnil⟩ : arriving v b w bytes o = f ∧ arrivals key es = [] := by
              simpa using arrived
            rw [List.append_nil] at new known pieces ⊢
            obtain ⟨b', p, hresults, hassembled⟩ := h.finish en supplied hf (hf ▸ hkey) new known
              pieces
            obtain ⟨live, kids, hinv⟩ := h.inv
            refine ⟨b', p, o.newHuge, ?_, (supplied hkey).2.2.1, hassembled⟩
            rw [← hresults]
            exact resultsOf_of_none room_pos registered hr
              (hinv.step room_pos registered ⟨en, rfl⟩) hnil
        | cons a bs =>
            obtain ⟨hf, hrest⟩ : arriving v b w bytes o = a ∧ arrivals key es = bs ++ [f] := by
              simpa using arrived
            obtain ⟨more, hmore⟩ := distinct_prefix [] (as ++ [a]) bs
            have happend : as ++ a :: bs = as ++ [a] ++ bs := by simp
            rw [happend] at new known pieces ⊢
            have hrestPieces : Pieces payload (distinct [] (as ++ [a]) ++ (more ++ [f])) := by
              rw [← List.append_assoc, ← hmore]
              exact pieces
            have hnext := h.arrive room_pos registered en supplied hf (hf ▸ hkey) (by simp)
              hrestPieces
            exact ih hnext hrest new known pieces
      · obtain ⟨live, kids, hinv⟩ := h.inv
        obtain ⟨hcached, hresults⟩ := hinv.step_other room_pos registered hs.2 hs.1 hother
        exact ih ⟨hinv.step room_pos registered hs.2, hcached.trans h.cached,
          hresults.trans h.results⟩ (hrest.symm.trans arrived) new known pieces

/-- From a point of a run where nothing is cached for a key, the pieces of a payload arrive in
some order, some of them repeatedly, and other things happen in between. The result of the
last missing piece is a packet with the payload and with the pieces behind it. No other result
for the key is a packet, and what came a second time was handed back. -/
theorem reassembly_inverts_fragmentation {w : Worker} {arr : EnqueueArrays} {start interval : Nat}
    {es₀ : List Event} {S₀ : System} {as : List Fragment} (room_pos : ∀ k, 0 < nenv.room k)
    (registered : nenv.nextIndexVec sfTwTimerGroupIpReass ≠ 0) (hstart : start < 2 ^ 64)
    (hpos : 0 < interval) (before : Run (Step env nenv) (.init w arr start interval) es₀ S₀)
    (fresh : S₀.cached env key = [])
    (run : Run (Along (Supplied key) (Step env nenv)) S₀ es S)
    (arrived : arrivals key es = as ++ [f]) (new : ∀ a ∈ as, a.offset ≠ f.offset)
    (cut : Cut key payload fs) (pieces : (distinct [] (as ++ [f])).Perm fs) :
    ∃ b p, S.resultsOf key =
        S₀.resultsOf key ++ outcomes [] as ++ [⟨f, some b, 0, some p⟩] ∧
      p.payload = payload ∧ p.children = distinct [] (as ++ [f]) := by
  have hnew : f.offset ∉ (distinct [] as).map Fragment.offset := by
    intro hmem
    obtain ⟨a, ha, hoffset⟩ := List.mem_map.mp hmem
    obtain ha | ha := mem_of_mem_distinct ha
    · cases ha
    · exact new a ha hoffset
  have hdistinct : distinct [] (as ++ [f]) = distinct [] as ++ [f] := by
    rw [distinct_concat, if_neg hnew]
  rw [hdistinct] at pieces ⊢
  have hpieces := cut.pieces.perm pieces.symm
  have hknown : distinct [] as ≠ [] := by
    have htwo := cut.two
    rw [← pieces.length_eq, List.length_append, List.length_singleton] at htwo
    exact List.ne_nil_of_length_pos (by omega)
  have hprogress : Progress env S₀ S₀ key [] :=
    ⟨inv_of_run room_pos registered hstart hpos before, fresh, by simp [outcomes]⟩
  obtain ⟨b, p, huge, hresults, alloc, hassembled⟩ := hprogress.run room_pos registered run arrived
    hnew hknown hpieces
  exact ⟨b, p, hresults, hassembled.payload_eq alloc hpieces, hassembled.children⟩

/-! Of two pieces the last one arrives first, and twice. -/

def samplePieces : List Event :=
  [samplePacket 2 0 1 8, samplePacket 3 0 1 8, samplePacket 1 32 0 8]

/-- The fragment of `samplePacket`. -/
def sampleFragment (b : BufferId) (flags offset : UInt8) : Fragment :=
  arriving .ip4 b (sampleWdata b 8) (sampleBytes flags offset b.toUInt8) (sampleOutside b)

theorem samplePiecesRun : Run (Along (Supplied ⟨⟨0, 0⟩, ⟨0, 0⟩, 0, 1⟩)
    (Step sampleEnv sampleNodeEnv)) sampleInit samplePieces (sampleAfter samplePieces) := by
  have hchecked : Checked (fun S e => Supplied ⟨⟨0, 0⟩, ⟨0, 0⟩, 0, 1⟩ S e ∧ Enabled S e)
      (System.after sampleEnv sampleNodeEnv) sampleInit samplePieces := by decide +kernel
  exact .of_checked (fun _ _ h => ⟨h.1, h.2, rfl⟩) hchecked

theorem sampleCut : Cut ⟨⟨0, 0⟩, ⟨0, 0⟩, 0, 1⟩ [1, 0, 0, 0, 0, 0, 0, 0, 2, 0, 0, 0, 0, 0, 0, 0]
    [sampleFragment 1 32 0, sampleFragment 2 0 1] where
  two := by decide
  ten := by decide
  key := by decide +kernel
  bytes := by decide +kernel
  contiguous := ⟨by decide +kernel, by decide +kernel, trivial⟩
  nonempty := by decide +kernel
  last := ⟨[sampleFragment 1 32 0], sampleFragment 2 0 1, rfl, by decide +kernel, by decide +kernel⟩
  hdrLen := ⟨20, by decide, by decide +kernel⟩
  fits := by decide +kernel

theorem reassembly_inverts_fragmentation_two_pieces :
    ∃ b p, (sampleAfter samplePieces).resultsOf ⟨⟨0, 0⟩, ⟨0, 0⟩, 0, 1⟩ =
        sampleInit.resultsOf ⟨⟨0, 0⟩, ⟨0, 0⟩, 0, 1⟩ ++
          outcomes [] [sampleFragment 2 0 1, sampleFragment 3 0 1] ++
          [⟨sampleFragment 1 32 0, some b, 0, some p⟩] ∧
      p.payload = [1, 0, 0, 0, 0, 0, 0, 0, 2, 0, 0, 0, 0, 0, 0, 0] ∧
      p.children = distinct [] ([sampleFragment 2 0 1, sampleFragment 3 0 1] ++
        [sampleFragment 1 32 0]) := by
  refine reassembly_inverts_fragmentation (fun _ => Nat.one_pos) (by decide) (by decide) (by decide)
    (.refl sampleInit) rfl samplePiecesRun rfl (by decide +kernel) sampleCut ?_
  exact List.Perm.swap _ _ _

end Tapplet.Reass
