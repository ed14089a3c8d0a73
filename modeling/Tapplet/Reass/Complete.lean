import Tapplet.Lib.Tiling
import Tapplet.Reass.Cached

/-!
# Complete datagrams

When a datagram is found to be complete, and what is copied then. The code compares the
number of bytes received with the total length. It looks neither at the places of the
fragments nor at the size of the packet they make.
-/

namespace Tapplet.Reass

open Linked GenericHash SfTimer Transition Tiling

variable {env : Env} {nenv : NodeEnv} {S T : System} {live live' : List Datagram}
  {kids : BufferId → List BufferId} {e : Event} {es : List Event} {f : Fragment} {o : Outside}

/-- The fragment is the one with which its datagram is found to be complete. -/
structure System.Finishes (env : Env) (S : System) (o : Outside) (f : Fragment) : Prop where
  within : ¬LayerOver o f
  known : S.cached env f.key ≠ []
  new : ¬Duplicate (S.cached env f.key) f
  few : ¬TooMany (S.cached env f.key)
  small : ¬TooLarge f
  complete : Completes (S.cached env f.key) f

/-! ## What is logged -/

/-- The copies that are made when `f` completes the fragments `fs`. -/
def copiesOf (o : Outside) (fs : List Fragment) (f : Fragment) : List Copy :=
  match o.newBuffer, fs.head? with
  | some _, some first => buildCopies o.newHuge first (fs ++ [f])
  | _, _ => []

theorem eq_of_removed {α : Type*} {a b : α} {l₁ l₂ k₁ k₂ : List α}
    (whole : l₁ ++ a :: l₂ = k₁ ++ b :: k₂) (rest : l₁ ++ l₂ = k₁ ++ k₂) : a = b := by
  have hperm : ([a] ++ (l₁ ++ l₂)).Perm ([b] ++ (l₁ ++ l₂)) :=
    calc
      List.Perm (a :: (l₁ ++ l₂)) (l₁ ++ a :: l₂) := List.perm_middle.symm
      List.Perm _ (k₁ ++ b :: k₂) := .of_eq whole
      List.Perm _ (b :: (k₁ ++ k₂)) := List.perm_middle
      List.Perm _ (b :: (l₁ ++ l₂)) := .of_eq (by rw [rest])
  exact List.singleton_perm_singleton.mp ((List.perm_append_right_iff _).mp hperm)

/-- A datagram leaves only for a new fragment with its key. -/
theorem Handles.removed {ret : Option BufferId} {status : Int} {l₁ l₂ : List Datagram}
    {d : Datagram} (h : Handles o f live live' ret status) (before : live = l₁ ++ d :: l₂)
    (after : live' = l₁ ++ l₂) : ¬LayerOver o f ∧ d.key = f.key ∧ ¬Duplicate d.frags f := by
  have hlength : live'.length + 1 = live.length := by
    rw [before, after]
    simp only [List.length_append, List.length_cons]
    omega
  cases h with
  | layer | refused | duplicate => omega
  | first | waits =>
      simp only [List.length_append, List.length_cons] at hlength
      omega
  | givenUp within key new | unbuilt within key new | built within key new =>
      obtain rfl := eq_of_removed before after
      exact ⟨within, key, new⟩

/-- A fragment that is handed back alone was not new, or its datagram was not known. -/
theorem Handles.not_new {ret : Option BufferId} {status : Int}
    (h : Handles o f live live' ret status) (same : live' = live) :
    LayerOver o f ∨ (∀ d ∈ live, d.key ≠ f.key) ∨
      ∃ d ∈ live, d.key = f.key ∧ Duplicate d.frags f := by
  have hlength : live'.length = live.length := congrArg List.length same
  cases h with
  | layer beyond => exact .inl beyond
  | refused within unknown => exact .inr (.inl unknown)
  | duplicate within known key dup => exact .inr (.inr ⟨_, known, key, dup⟩)
  | @waits l₁ l₂ d within key new few small more =>
      have hfrags : d.frags ++ [f] = d.frags := by
        have htail := List.append_cancel_left same
        rw [List.cons.injEq] at htail
        exact congrArg Datagram.frags htail.1
      simp at hfrags
  | first | givenUp | unbuilt | built =>
      simp only [List.length_append, List.length_cons] at hlength
      omega

/-- A fragment that is cached does not complete its datagram. -/
theorem Handles.incomplete {ret : Option BufferId} {status : Int}
    (h : Handles o f live live' ret status) (kept : ret = none) (zero : status = 0) :
    (∀ d ∈ live, d.key ≠ f.key) ∨ ∃ d ∈ live, d.key = f.key ∧ ¬Completes d.frags f := by
  cases h with
  | layer | refused | duplicate | built => cases kept
  | first within unknown => exact .inl unknown
  | waits within key new few small more => exact .inr ⟨_, by simp, key, more⟩
  | @givenUp l₁ l₂ d within key new bad | @unbuilt l₁ l₂ d within key new few small done short =>
      cases hfrags : d.frags <;> simp [hfrags] at kept

/-- What an arrival adds to the logs. -/
theorem Effect.logs {s s' : Worker} {ret : Option BufferId} {status : Int}
    (h : Effect s s' o f live live' ret status)
    (cached : ∀ d ∈ live, d.key = f.key → S.cached env f.key = d.frags)
    (unknown : (∀ d ∈ live, d.key ≠ f.key) → S.cached env f.key = []) :
    (¬S.Finishes env o f ∧ s'.completed = s.completed ∧ s'.copies = s.copies) ∨
    (S.Finishes env o f ∧
      s'.completed = s.completed ++ [completionOf (S.cached env f.key ++ [f])] ∧
      s'.copies = s.copies ++ copiesOf o (S.cached env f.key) f) := by
  cases h with
  | alone handles sign chain copies completed =>
      refine .inl ⟨fun hfin => ?_, completed, copies⟩
      obtain beyond | none | ⟨d, hd, hkey, dup⟩ := handles.not_new rfl
      · exact hfin.within beyond
      · exact hfin.known (unknown none)
      · exact hfin.new (cached d hd hkey ▸ dup)
  | kept handles place copies completed =>
      refine .inl ⟨fun hfin => ?_, completed, copies⟩
      obtain none | ⟨d, hd, hkey, more⟩ := handles.incomplete rfl rfl
      · exact hfin.known (unknown none)
      · exact more (cached d hd hkey ▸ hfin.complete)
  | @returned l₁ l₂ d handles chain pos short copies completed =>
      obtain ⟨hwithin, hkey, hnew⟩ := handles.removed rfl rfl
      have hcached := cached d (by simp) hkey
      obtain ⟨hsame, hnot⟩ | ⟨hlog, few, small, done, noBuffer⟩ := completed
      · refine .inl ⟨fun hfin => hnot ?_, hsame, copies⟩
        rw [← hcached]
        exact ⟨hfin.few, hfin.small, hfin.complete⟩
      · refine .inr ⟨⟨hwithin, ?_, ?_, ?_, small, ?_⟩, ?_, ?_⟩
        · rw [hcached]
          exact List.ne_nil_of_length_pos pos
        · rwa [hcached]
        · rwa [hcached]
        · rwa [hcached]
        · rwa [hcached]
        · rw [copies, copiesOf, noBuffer, List.append_nil]
  | @built l₁ l₂ d b first handles within key new few small done buffer chain head packet copies
      completed =>
      have hcached := cached d (by simp) key
      refine .inr ⟨⟨within, ?_, ?_, ?_, small, ?_⟩, ?_, ?_⟩
      · rw [hcached]
        rintro hnil
        rw [hnil] at head
        cases head
      · rwa [hcached]
      · rwa [hcached]
      · rwa [hcached]
      · rwa [hcached]
      · rw [copies, copiesOf, hcached, buffer, head]

/-- The nodes change the metadata of what they hand on, and nothing else of the worker. -/
theorem Graph.dispatch_worker (g : Graph) (v : Version) (ret : Option BufferId) (status : Int) :
    ∃ wdata, (g.dispatch v ret status).worker = { g.worker with wdata := wdata } := by
  unfold Graph.dispatch
  dsimp only
  repeat' split
  all_goals exact ⟨_, rfl⟩

theorem Graph.onTimer_logs (g : Graph) (info : Nat) :
    (g.onTimer info).worker.completed = g.worker.completed ∧
      (g.onTimer info).worker.copies = g.worker.copies := by
  unfold Graph.onTimer
  dsimp only
  split
  · exact ⟨rfl, rfl⟩
  · split <;> exact ⟨rfl, rfl⟩

/-- The arrival of a fragment is logged when it completes its datagram. -/
theorem Inv.packet_logs {v : Version} {b : BufferId} {w : Wdata} {bytes : Nat → UInt8}
    (h : Inv env S live kids) (en : Enabled S (.packet v b w bytes o)) :
    (¬S.Finishes env o (arriving v b w bytes o) ∧
      (S.packet env v b w bytes o).worker.completed = S.worker.completed ∧
      (S.packet env v b w bytes o).worker.copies = S.worker.copies) ∨
    (S.Finishes env o (arriving v b w bytes o) ∧
      (S.packet env v b w bytes o).worker.completed = S.worker.completed ++
        [completionOf (S.cached env (arriving v b w bytes o).key ++ [arriving v b w bytes o])] ∧
      (S.packet env v b w bytes o).worker.copies = S.worker.copies ++
        copiesOf o (S.cached env (arriving v b w bytes o).key) (arriving v b w bytes o)) := by
  obtain ⟨live', heffect, -⟩ := h.proc en
  obtain ⟨wdata, hworker⟩ := Graph.dispatch_worker
    { S.toGraph with worker := (S.proc env v b w bytes o).1 } v (S.proc env v b w bytes o).2.1
    (S.proc env v b w bytes o).2.2
  have hlogs : (S.packet env v b w bytes o).worker =
      { (S.proc env v b w bytes o).1 with wdata := wdata } := hworker
  rw [hlogs]
  refine heffect.logs (fun d hd hkey => ?_) fun none => h.cached_eq_nil none
  rw [← hkey]
  exact h.cached_eq hd

/-- If a datagram is found to be complete, `P` holds of the fragments behind its node and the
one that arrives. -/
def AtCompletion (env : Env) (P : Outside → List Fragment → Fragment → Prop) (S : System) :
    Event → Prop
  | .packet v b w bytes o =>
      S.Finishes env o (arriving v b w bytes o) →
        P o (S.cached env (arriving v b w bytes o).key) (arriving v b w bytes o)
  | _ => True

/-- What a step adds to the logs. -/
theorem Inv.step_logs (h : Inv env S live kids) (hs : Step env nenv S e T) :
    ((∀ P, AtCompletion env P S e) ∧ T.worker.completed = S.worker.completed ∧
      T.worker.copies = S.worker.copies) ∨
    ∃ o f, (∀ P, AtCompletion env P S e ↔ P o (S.cached env f.key) f) ∧
      T.worker.completed = S.worker.completed ++ [completionOf (S.cached env f.key ++ [f])] ∧
      T.worker.copies = S.worker.copies ++ copiesOf o (S.cached env f.key) f := by
  obtain ⟨en, rfl⟩ := hs
  cases e with
  | packet v b w bytes o =>
      obtain ⟨hnot, hcompleted, hcopies⟩ | ⟨hfin, hcompleted, hcopies⟩ := h.packet_logs en
      · exact .inl ⟨fun P hfin => absurd hfin hnot, hcompleted, hcopies⟩
      · exact .inr ⟨o, arriving v b w bytes o, fun P => ⟨fun hP => hP hfin, fun hP _ => hP⟩,
          hcompleted, hcopies⟩
  | onTimer =>
      refine .inl ⟨fun P => trivial, ?_⟩
      show S.onTimer.worker.completed = _ ∧ S.onTimer.worker.copies = _
      unfold System.onTimer
      split
      · exact ⟨rfl, rfl⟩
      · exact S.toGraph.onTimer_logs _
  | endFrame | clock | poll | forward => exact .inl ⟨fun P => trivial, rfl, rfl⟩

/-! ## Tilings -/

/-- The fragments do not overlap, none reaches beyond the total length, and a last one is among
them. -/
structure Clean (fs : List Fragment) : Prop where
  apart : Apart (fs.map fun f => (f.offset, f.size))
  within : Within (totalLen fs) (fs.map fun f => (f.offset, f.size))
  last : ∃ f ∈ fs, f.isLast

/-- The datagram was found to be complete for a good reason. -/
structure Sound (c : Completion) : Prop where
  last : c.recvLastFrag = 1
  tiles : Tiles c.totalLen c.intervals

theorem totalLen_lt (fs : List Fragment) : totalLen fs < 2 ^ 16 := by
  unfold totalLen
  split <;> omega

theorem recvLastFrag_eq_one_iff {fs : List Fragment} :
    recvLastFrag fs = 1 ↔ ∃ f ∈ fs, f.isLast := by
  rw [recvLastFrag, ← List.any_eq_true]
  split <;> simp_all

/-- When the counted bytes are as many as the total length, fragments that do not overlap and do
not reach beyond it leave no hole. -/
theorem sound_iff_clean {fs : List Fragment} (counted : meetLen fs = totalLen fs) :
    Sound (completionOf fs) ↔ Clean fs := by
  have hsizes : ((fs.map fun f => (f.offset, f.size)).map Prod.snd).sum =
      (fs.map Fragment.size).sum := by
    rw [List.map_map]
    rfl
  constructor
  · rintro ⟨hlast, htiles⟩
    exact ⟨htiles.apart, htiles.within, recvLastFrag_eq_one_iff.mp hlast⟩
  · rintro ⟨hapart, hwithin, hlast⟩
    refine ⟨recvLastFrag_eq_one_iff.mpr hlast, ?_⟩
    have hle := sum_le hapart hwithin
    have hlt := totalLen_lt fs
    have hsum : (fs.map Fragment.size).sum = totalLen fs := by
      rw [← counted, meetLen]
      omega
    exact (tiles_iff (hsizes.trans hsum)).mpr ⟨hapart, hwithin⟩

theorem AtCompletion.congr {P Q : Outside → List Fragment → Fragment → Prop}
    (h : ∀ o f, S.Finishes env o f → (P o (S.cached env f.key) f ↔ Q o (S.cached env f.key) f))
    (e : Event) : AtCompletion env P S e ↔ AtCompletion env Q S e := by
  cases e with
  | packet v b w bytes o => exact forall_congr' fun hfin => h o _ hfin
  | endFrame | clock | poll | onTimer | forward => exact .rfl

/-- The fragments of every datagram that is found to be complete tile it exactly when, each time
the number of bytes is reached, the fragments do not overlap, do not reach beyond the total
length, and the last one has come. -/
theorem completion_sound_iff (room_pos : ∀ k, 0 < nenv.room k)
    (registered : nenv.nextIndexVec sfTwTimerGroupIpReass ≠ 0) {w : Worker} {arr : EnqueueArrays}
    {start interval : Nat} (hstart : start < 2 ^ 64) (hpos : 0 < interval)
    (run : Run (Step env nenv) (.init w arr start interval) es S) :
    (∀ c ∈ S.worker.completed, Sound c) ↔
      Run (Along (AtCompletion env fun _ fs f => Clean (fs ++ [f])) (Step env nenv))
        (.init w arr start interval) es S := by
  apply run.log_iff (J := fun S => ∃ live kids, Inv env S live kids)
    ⟨[], _, inv_init env w arr hstart hpos⟩ rfl
  · rintro s e t ⟨live, kids, h⟩ hs
    exact h.step room_pos registered hs
  · rintro s e t ⟨live, kids, h⟩ hs
    have hiff : AtCompletion env (fun _ fs f => Clean (fs ++ [f])) s e ↔
        AtCompletion env (fun _ fs f => Sound (completionOf (fs ++ [f]))) s e :=
      AtCompletion.congr (fun o f hfin => (sound_iff_clean hfin.complete).symm) e
    obtain ⟨hnone, hcompleted, -⟩ | ⟨o, f, hat, hcompleted, -⟩ := h.step_logs hs
    · exact ⟨[], by rw [hcompleted, List.append_nil], by simp [hnone]⟩
    · exact ⟨_, hcompleted, by rw [hiff, hat, List.forall_mem_singleton]⟩

theorem completion_sound_iff_two_fragments :
    (∀ c ∈ (sampleAfter sampleEvents).worker.completed, Sound c) ↔
      Run (Along (AtCompletion sampleEnv fun _ fs f => Clean (fs ++ [f]))
        (Step sampleEnv sampleNodeEnv)) sampleInit sampleEvents (sampleAfter sampleEvents) :=
  completion_sound_iff (fun _ => Nat.one_pos) (by decide) (by decide) (by decide) sampleRun

/-- The bytes 0 to 15, 8 to 23 and 32 to 39 of a datagram of 40 bytes. -/
def sampleOverlap : List Event :=
  [samplePacket 1 32 0 16, samplePacket 2 32 1 16, samplePacket 3 0 4 8]

theorem sampleOverlapRun : Run (Step sampleEnv sampleNodeEnv) sampleInit sampleOverlap
    (sampleAfter sampleOverlap) := by
  have hchecked : Checked Enabled (System.after sampleEnv sampleNodeEnv) sampleInit
      sampleOverlap := by decide +kernel
  exact .of_checked (fun _ _ h => ⟨h, rfl⟩) hchecked

/-- Fragments that overlap and leave a hole are taken for a complete datagram. -/
theorem overlap_completes :
    ¬∀ es S, Run (Step sampleEnv sampleNodeEnv) sampleInit es S →
      ∀ c ∈ S.worker.completed, Sound c := by
  intro claim
  have hmem : ⟨40, 1, [(0, 16), (8, 16), (32, 8)]⟩ ∈
      (sampleAfter sampleOverlap).worker.completed := by decide +kernel
  have hsound := claim _ _ sampleOverlapRun _ hmem
  have hhole := hsound.tiles 24
  exact absurd hhole (by decide)

/-! ## Writes to the huge packet -/

/-- The copy lies inside the data of a huge packet. -/
def InBounds (c : Copy) : Prop :=
  c.huge ≠ none ∧ sfHugePktPreDataSize ≤ c.dst.offset ∧
    c.dst.offset + c.len ≤ sfHugePktPreDataSize + sfHugePktMaxDataSize

/-- If a packet is built, there is a huge packet, and what comes before the payload leaves room
for each fragment. -/
def Roomy (o : Outside) (fs : List Fragment) (f : Fragment) : Prop :=
  o.newBuffer ≠ none → o.newHuge ≠ none ∧
    ∀ first ∈ fs.head?, ∀ g ∈ fs ++ [f], first.before + first.hdrLen + g.stop ≤ sfHugePktMaxDataSize

theorem roomy_iff {fs : List Fragment} (known : fs ≠ []) :
    Roomy o fs f ↔ ∀ c ∈ copiesOf o fs f, InBounds c := by
  obtain ⟨first, rest, rfl⟩ := List.exists_cons_of_ne_nil known
  cases hbuffer : o.newBuffer with
  | none => simp [Roomy, copiesOf, hbuffer]
  | some b =>
      have hcopies : copiesOf o (first :: rest) f =
          buildCopies o.newHuge first (first :: rest ++ [f]) := by
        rw [copiesOf, hbuffer]
        rfl
      have hpayload : ∀ g : Fragment,
          InBounds ⟨o.newHuge, (payloadPtr o.newHuge first).add g.offset, g.size⟩ ↔
            o.newHuge ≠ none ∧ first.before + first.hdrLen + g.stop ≤ sfHugePktMaxDataSize := by
        intro g
        simp only [InBounds, payloadPtr, allocHugePkt16k, DataPtr.add_offset, Fragment.stop]
        constructor
        · rintro ⟨hhuge, -, hle⟩
          exact ⟨hhuge, by omega⟩
        · rintro ⟨hhuge, hle⟩
          exact ⟨hhuge, by omega, by omega⟩
      rw [hcopies, buildCopies, List.forall_mem_append, List.forall_mem_map]
      constructor
      · intro hroomy
        obtain ⟨hhuge, hle⟩ := hroomy (by simp [hbuffer])
        have hfirst := hle first rfl first (by simp)
        refine ⟨?_, fun g hg => (hpayload g).mpr ⟨hhuge, hle first rfl g hg⟩⟩
        rw [List.forall_mem_cons, List.forall_mem_singleton]
        simp only [InBounds, allocHugePkt16k, DataPtr.add_offset]
        exact ⟨⟨hhuge, by omega, by omega⟩, hhuge, by omega, by omega⟩
      · rintro ⟨-, hall⟩ -
        refine ⟨((hpayload first).mp (hall first (by simp))).1, ?_⟩
        intro g hg x hx
        obtain rfl : first = g := Option.some.inj hg
        exact ((hpayload x).mp (hall x hx)).2

/-- Every copy lies inside its huge packet exactly when, each time a packet is built, what comes
before its payload leaves room for each of the fragments. -/
theorem copies_in_bounds_iff (room_pos : ∀ k, 0 < nenv.room k)
    (registered : nenv.nextIndexVec sfTwTimerGroupIpReass ≠ 0) {w : Worker} {arr : EnqueueArrays}
    {start interval : Nat} (hstart : start < 2 ^ 64) (hpos : 0 < interval)
    (run : Run (Step env nenv) (.init w arr start interval) es S) :
    (∀ c ∈ S.worker.copies, InBounds c) ↔
      Run (Along (AtCompletion env Roomy) (Step env nenv)) (.init w arr start interval) es S := by
  apply run.log_iff (J := fun S => ∃ live kids, Inv env S live kids)
    ⟨[], _, inv_init env w arr hstart hpos⟩ rfl
  · rintro s e t ⟨live, kids, h⟩ hs
    exact h.step room_pos registered hs
  · rintro s e t ⟨live, kids, h⟩ hs
    have hiff : AtCompletion env Roomy s e ↔
        AtCompletion env (fun o fs f => ∀ c ∈ copiesOf o fs f, InBounds c) s e :=
      AtCompletion.congr (fun o f hfin => roomy_iff hfin.known) e
    obtain ⟨hnone, -, hcopies⟩ | ⟨o, f, hat, -, hcopies⟩ := h.step_logs hs
    · exact ⟨[], by rw [hcopies, List.append_nil], by simp [hnone]⟩
    · exact ⟨_, hcopies, by rw [hiff, hat]⟩

theorem copies_in_bounds_iff_two_fragments :
    (∀ c ∈ (sampleAfter sampleEvents).worker.copies, InBounds c) ↔
      Run (Along (AtCompletion sampleEnv Roomy) (Step sampleEnv sampleNodeEnv)) sampleInit
        sampleEvents (sampleAfter sampleEvents) :=
  copies_in_bounds_iff (fun _ => Nat.one_pos) (by decide) (by decide) (by decide) sampleRun

/-- The last 1000 bytes of a datagram of 17000 arrive first. -/
def sampleLarge : List Event :=
  [samplePacket 1 7 208 1000, samplePacket 2 32 0 8000, samplePacket 3 35 232 8000]

theorem sampleLargeRun : Run (Step sampleEnv sampleNodeEnv) sampleInit sampleLarge
    (sampleAfter sampleLarge) := by
  have hchecked : Checked Enabled (System.after sampleEnv sampleNodeEnv) sampleInit
      sampleLarge := by decide +kernel
  exact .of_checked (fun _ _ h => ⟨h, rfl⟩) hchecked

/-- A packet that is too large is built when its last fragment comes first. -/
theorem copy_out_of_bounds :
    ¬∀ es S, Run (Step sampleEnv sampleNodeEnv) sampleInit es S →
      ∀ c ∈ S.worker.copies, InBounds c := by
  intro claim
  have hmem : ⟨some 103, ⟨some 103, 16162⟩, 1000⟩ ∈ (sampleAfter sampleLarge).worker.copies := by
    decide +kernel
  have hbounds := (claim _ _ sampleLargeRun _ hmem).2.2
  exact absurd hbounds (by decide)

end Tapplet.Reass
