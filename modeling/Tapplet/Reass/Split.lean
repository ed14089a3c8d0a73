import Tapplet.Lib.Forest
import Tapplet.Reass.Basic

/-!
# Handing buffers back

`split_frag_buffer_on_fail` and `split_frag_buffer` turn a linked forest of buffers into
entries of the enqueue arrays. The loop keeps the places of subtrees that it has not
visited yet in the array itself: the sibling of a buffer goes behind its whole subtree,
its first child right behind the buffer.

The counter `top` is not in the source. It is one more than the highest index that was
written.
-/

namespace Tapplet.Reass

/-- `VLIB_FRAME_SIZE`. -/
def vlibFrameSize : Nat := 256

/-- The length of `vlib_buffer_array` and `nexts` after `vec_validate`, which takes the
highest index. -/
def arrayLength : Nat := vlibFrameSize + 1

/-- `vlib_buffer_array` and `nexts`. -/
structure EnqueueArrays where
  buffers : Nat → BufferId
  nexts : Nat → Nat
  top : Nat

namespace EnqueueArrays

variable (a : EnqueueArrays)

def setBuffer (i : Nat) (b : BufferId) : EnqueueArrays :=
  { a with buffers := Function.update a.buffers i b, top := max a.top (i + 1) }

def setNext (i next : Nat) : EnqueueArrays :=
  { a with nexts := Function.update a.nexts i next, top := max a.top (i + 1) }

/-- The `n` entries from `base` on. -/
def slice (base n : Nat) : List (BufferId × Nat) :=
  (List.range n).map fun i => (a.buffers (base + i), a.nexts (base + i))

@[simp] theorem setNext_buffers (i next : Nat) : (a.setNext i next).buffers = a.buffers := rfl

@[simp] theorem setBuffer_nexts (i : Nat) (b : BufferId) : (a.setBuffer i b).nexts = a.nexts :=
  rfl

@[simp] theorem setNext_nexts_self (i next : Nat) : (a.setNext i next).nexts i = next :=
  Function.update_self ..

theorem setNext_nexts_of_ne {i j : Nat} (h : j ≠ i) (next : Nat) :
    (a.setNext i next).nexts j = a.nexts j := Function.update_of_ne h ..

@[simp] theorem setNext_top (i next : Nat) : (a.setNext i next).top = max a.top (i + 1) := rfl

@[simp] theorem setBuffer_top (i : Nat) (b : BufferId) :
    (a.setBuffer i b).top = max a.top (i + 1) := rfl

@[simp] theorem slice_zero (base : Nat) : a.slice base 0 = [] := rfl

theorem slice_succ (base n : Nat) :
    a.slice base (n + 1) = a.slice base n ++ [(a.buffers (base + n), a.nexts (base + n))] := by
  simp [slice, List.range_succ]

theorem slice_add (m n : Nat) : a.slice 0 (m + n) = a.slice 0 m ++ a.slice m n := by
  simp [slice, List.range_add, Function.comp_def]

theorem slice_congr {a a' : EnqueueArrays} {base n : Nat}
    (h : ∀ i < n, a'.buffers (base + i) = a.buffers (base + i) ∧
      a'.nexts (base + i) = a.nexts (base + i)) : a'.slice base n = a.slice base n := by
  refine List.map_congr_left fun i hi => ?_
  obtain ⟨hb, hn⟩ := h i (List.mem_range.mp hi)
  rw [hb, hn]

end EnqueueArrays

/-- The variables of the two split loops. -/
structure Split where
  wdata : BufferId → Wdata
  arr : EnqueueArrays
  preIndex : Nat
  count : Nat

/-- `vlib_buffer_array[...] = brother; count++`. -/
def putBrother (base : Nat) (r : IpReassRecord) (x : Split) : Split :=
  match r.nextFrag with
  | none => x
  | some brother =>
      { x with
        arr := x.arr.setBuffer (base + x.preIndex + r.followedNodesCnt + 1) brother
        count := x.count + 1 }

/-- One round of the loops, on arrays from `base` on. `leaf` is what the function does to
the metadata of a leaf before it resets the buffer. -/
def splitRound (record : BufferId → IpReassRecord) (leaf : Nat → Wdata → Wdata)
    (base fragNextIndex nextDrop : Nat) (x : Split) : Split :=
  let tmp := x.arr.buffers (base + x.preIndex)
  let r := record tmp
  let y := putBrother base r x
  if (x.wdata tmp).isReass then
    match r.childFrag with
    | none => -- a built buffer has a child
        { y with
          arr := y.arr.setNext (base + x.preIndex) nextDrop
          preIndex := x.preIndex + 1 }
    | some child =>
        { y with
          arr := (y.arr.setBuffer (base + x.preIndex + 1) child).setNext (base + x.preIndex)
            nextDrop
          preIndex := x.preIndex + 1
          count := y.count + 1 }
  else
    { y with
      wdata := Function.update x.wdata tmp (leaf x.preIndex (x.wdata tmp)).reset
      arr := y.arr.setNext (base + x.preIndex) fragNextIndex
      preIndex := x.preIndex + 1 }

/-- The loop of `split_frag_buffer_on_fail`, for at most `fuel` rounds. -/
def splitOnFailLoop (round : Split → Split) : Nat → Split → Split
  | 0, x => x
  | fuel + 1, x => if x.preIndex = x.count then x else splitOnFailLoop round fuel (round x)

/-- `split_frag_buffer_on_fail` with the arrays from `base` on. It cannot make more rounds than
the arrays have entries. -/
def splitFragBufferOnFail (s : Worker) (arr : EnqueueArrays) (b0 : BufferId)
    (base fragNextIndex nextDrop : Nat) : Split :=
  let leaf (preIndex : Nat) (w : Wdata) : Wdata :=
    if preIndex ≠ 0 then updateFragWdata w (s.wdata b0) else w
  splitOnFailLoop (splitRound s.record leaf base fragNextIndex nextDrop) arrayLength
    ⟨s.wdata, arr.setBuffer base b0, 0, 1⟩

/-- The loop of `split_frag_buffer`, for at most `fuel` rounds. -/
def splitLoop (round : Split → Split) (count : Nat) : Nat → Split → Split
  | 0, x => x
  | fuel + 1, x => if x.preIndex = count then x else splitLoop round count fuel (round x)

/-- The next nodes of `ip_reass_forward`. -/
def forwardNextActionEntry : Nat := 0

def forwardNextPktDrop : Nat := 1

/-- `split_frag_buffer`. -/
def splitFragBuffer (s : Worker) (arr : EnqueueArrays) (b0 : BufferId) : Nat × Split :=
  let w0 := s.wdata b0
  let r0 := s.record b0
  let fragNextIndex := if w0.argToNext = 0 then forwardNextPktDrop else forwardNextActionEntry
  let count := r0.followedNodesCnt + 1
  let leaf (_ : Nat) (w : Wdata) : Wdata :=
    { updateFragWdata w w0 with argToNext := w0.argToNext }
  let x := splitLoop (splitRound s.record leaf 0 fragNextIndex forwardNextPktDrop) count
    arrayLength ⟨s.wdata, arr.setBuffer 0 b0, 0, 0⟩
  (count, if r0.ipReassOutput ≠ 0 then { x with arr := x.arr.setNext 0 fragNextIndex } else x)

/-! ## The loop visits the forest in preorder -/

/-- The records link the forest from `p` on: siblings by `next_frag`, children by
`child_frag`, exactly the inner buffers are marked as built, and each counts the buffers
below it. -/
def Rep (record : BufferId → IpReassRecord) (wdata : BufferId → Wdata) :
    Option BufferId → Forest BufferId → Prop
  | p, .nil => p = none
  | p, .cons b kids rest =>
      p = some b ∧ (record b).followedNodesCnt = kids.size ∧
        ((wdata b).isReass ↔ kids.isNil = false) ∧
        (kids.isNil = false → Rep record wdata (record b).childFrag kids) ∧
        Rep record wdata (record b).nextFrag rest

theorem Rep.eq_head {record : BufferId → IpReassRecord} {wdata : BufferId → Wdata}
    {p : Option BufferId} {f : Forest BufferId} (h : Rep record wdata p f) : p = f.head := by
  cases f with
  | nil => exact h
  | cons b kids rest => exact h.1

theorem isReass_congr {w w' : Wdata} (h : w'.unused8 = w.unused8) : w'.isReass ↔ w.isReass := by
  rw [Wdata.isReass, Wdata.isReass, h]

@[simp] theorem reset_unused8 (w : Wdata) : w.reset.unused8 = w.unused8 := rfl

/-- The state of a split loop: `fs` are the forests that have a place in the arrays but have
not been visited, `written` the entries before. -/
structure SplitInv (record : BufferId → IpReassRecord) (wdata : BufferId → Wdata)
    (start : EnqueueArrays) (base limit : Nat) (x : Split) (fs : List (Forest BufferId))
    (written : List (BufferId × Nat)) : Prop where
  unused8 : ∀ b, (x.wdata b).unused8 = (wdata b).unused8
  rep : ∀ f ∈ fs, ∃ p, Rep record wdata p f
  placed : Forest.Placed x.arr.buffers (base + x.preIndex) fs
  slice : x.arr.slice base x.preIndex = written
  top : x.arr.top ≤ limit
  room : base + x.preIndex + (fs.map Forest.size).sum ≤ limit
  below : ∀ i < base, x.arr.buffers i = start.buffers i ∧ x.arr.nexts i = start.nexts i
  kept : ∀ b, b ∉ written.map Prod.fst → x.wdata b = wdata b

section Round

variable {record : BufferId → IpReassRecord} {wdata : BufferId → Wdata} {start : EnqueueArrays}
  {base limit fragNextIndex nextDrop : Nat} {leaf : Nat → Wdata → Wdata}
  {b : BufferId} {kids rest : Forest BufferId} {fs : List (Forest BufferId)}
  {written : List (BufferId × Nat)} {x : Split}

/-- The brother of a buffer goes behind the subtree of the buffer. -/
theorem putBrother_spec (base : Nat) (x : Split) (r : IpReassRecord)
    (hnext : r.nextFrag = rest.head)
    (hfollowed : r.followedNodesCnt = kids.size) :
    (∀ c ∈ rest.head, (putBrother base r x).arr.buffers (base + x.preIndex + 1 + kids.size) = c) ∧
    (∀ i, i ≠ base + x.preIndex + 1 + kids.size ∨ rest = .nil →
      (putBrother base r x).arr.buffers i = x.arr.buffers i) ∧
    (putBrother base r x).arr.nexts = x.arr.nexts ∧
    (putBrother base r x).arr.top ≤
      max x.arr.top (base + x.preIndex + 1 + kids.size + rest.size) ∧
    (putBrother base r x).count = x.count + (Forest.pending rest).length ∧
    (putBrother base r x).wdata = x.wdata := by
  cases rest with
  | nil =>
      have hnone : r.nextFrag = none := hnext
      simp only [putBrother, hnone]
      exact ⟨by rintro c ⟨⟩, fun i _ => trivial, trivial, by omega, rfl, trivial⟩
  | cons c ckids crest =>
      have hsome : r.nextFrag = some c := hnext
      have hplace : base + x.preIndex + kids.size + 1 = base + x.preIndex + 1 + kids.size := by
        omega
      simp only [putBrother, hsome, hfollowed, hplace]
      refine ⟨?_, ?_, rfl, ?_, rfl, trivial⟩
      · rintro c' ⟨⟩
        exact Function.update_self ..
      · rintro i (hi | h)
        · exact Function.update_of_ne hi _ _
        · exact absurd h (by simp)
      · simp only [EnqueueArrays.setBuffer_top, Forest.size]
        omega

/-- What one round writes: the places of the children and of the brother, and the next node
of the buffer itself. -/
theorem splitRound_spec {p : Option BufferId} (hb : x.arr.buffers (base + x.preIndex) = b)
    (hrep : Rep record wdata p (.cons b kids rest))
    (hflag : (x.wdata b).unused8 = (wdata b).unused8) {y : Split}
    (hy : splitRound record leaf base fragNextIndex nextDrop x = y) :
    (∀ k ∈ kids.head, y.arr.buffers (base + x.preIndex + 1) = k) ∧
    (∀ r ∈ rest.head, y.arr.buffers (base + x.preIndex + 1 + kids.size) = r) ∧
    (∀ i, i ≤ base + x.preIndex ∨ base + x.preIndex + 1 + kids.size + rest.size ≤ i →
      y.arr.buffers i = x.arr.buffers i) ∧
    y.arr.nexts = Function.update x.arr.nexts (base + x.preIndex)
      (if kids.isNil then fragNextIndex else nextDrop) ∧
    y.arr.top ≤ max x.arr.top (base + x.preIndex + 1 + kids.size + rest.size) ∧
    y.preIndex = x.preIndex + 1 ∧
    y.count = x.count + (Forest.pending kids).length + (Forest.pending rest).length ∧
    y.wdata = if kids.isNil then
        Function.update x.wdata b (leaf x.preIndex (x.wdata b)).reset
      else x.wdata := by
  obtain ⟨-, hfollowed, hreass, hkids, hrest⟩ := hrep
  obtain ⟨hbro, hkeep, hnexts, htop, hcount, hwdata⟩ :=
    putBrother_spec base x (record b) hrest.eq_head hfollowed
  have hsame : ∀ i, i ≤ base + x.preIndex ∨ base + x.preIndex + 1 + kids.size + rest.size ≤ i →
      (putBrother base (record b) x).arr.buffers i = x.arr.buffers i := by
    intro i hi
    refine hkeep i ?_
    by_cases hnil : rest = .nil
    · exact .inr hnil
    · have := Forest.size_pos hnil
      exact .inl (by omega)
  subst hy
  cases kids with
  | nil =>
      have hleaf : ¬(x.wdata b).isReass := by
        rw [isReass_congr hflag, hreass]
        simp [Forest.isNil]
      simp only [splitRound, hb, if_neg hleaf, EnqueueArrays.setNext_buffers,
        EnqueueArrays.setNext_top]
      refine ⟨by rintro k ⟨⟩, hbro, hsame, ?_, ?_, trivial, ?_, rfl⟩
      · simp only [EnqueueArrays.setNext, hnexts]
        rfl
      · omega
      · rw [hcount]
        rfl
  | cons k kkids krest =>
      have hinner : (x.wdata b).isReass := by
        rw [isReass_congr hflag, hreass]
        rfl
      have hchild : (record b).childFrag = some k := (hkids rfl).eq_head
      have hpos : 0 < (Forest.cons k kkids krest).size := Forest.size_pos (by rintro ⟨⟩)
      simp only [splitRound, hb, if_pos hinner, hchild, EnqueueArrays.setNext_buffers,
        EnqueueArrays.setNext_top, EnqueueArrays.setBuffer_top]
      refine ⟨?_, ?_, ?_, ?_, ?_, trivial, ?_, hwdata⟩
      · rintro k' ⟨⟩
        exact Function.update_self ..
      · intro r hr
        rw [← hbro r hr]
        exact Function.update_of_ne (by omega) _ _
      · intro i hi
        rw [← hsame i hi]
        exact Function.update_of_ne (by omega) _ _
      · simp only [EnqueueArrays.setNext, EnqueueArrays.setBuffer_nexts, hnexts]
        rfl
      · omega
      · rw [hcount]
        simp only [Forest.pending_cons, List.length_singleton]
        omega

/-- One round visits the first buffer of the first forest and puts its children and its
siblings in front. -/
theorem SplitInv.round (hleaf : ∀ i w, (leaf i w).unused8 = w.unused8)
    (h : SplitInv record wdata start base limit x (.cons b kids rest :: fs) written) {y : Split}
    (hy : splitRound record leaf base fragNextIndex nextDrop x = y) :
    SplitInv record wdata start base limit y
        (Forest.pending kids ++ Forest.pending rest ++ fs)
        (written ++ [(b, if kids.isNil then fragNextIndex else nextDrop)]) ∧
      y.preIndex = x.preIndex + 1 ∧
      y.count = x.count + (Forest.pending kids).length + (Forest.pending rest).length := by
  obtain ⟨p, hrep⟩ := h.rep _ (List.mem_cons_self ..)
  obtain ⟨hkid, hbro, hsame, hnexts, htop, hpre, hcount, hwdata⟩ :=
    splitRound_spec h.placed.1 hrep (h.unused8 b) hy
  have hsum : (((Forest.cons b kids rest :: fs).map Forest.size).sum) =
      1 + kids.size + rest.size + (fs.map Forest.size).sum := by simp [Forest.size]
  have hroom := h.room
  rw [hsum] at hroom
  refine ⟨⟨?_, ?_, ?_, ?_, ?_, ?_, ?_, ?_⟩, hpre, hcount⟩
  · intro c
    rw [hwdata]
    split
    · by_cases hc : c = b
      · subst hc
        rw [Function.update_self, reset_unused8, hleaf, h.unused8]
      · rw [Function.update_of_ne hc, h.unused8]
    · exact h.unused8 c
  · intro f hf
    obtain ⟨-, -, -, hkids, hrest⟩ := hrep
    rcases List.mem_append.mp hf with hf | hf
    · rcases List.mem_append.mp hf with hf | hf
      · obtain ⟨rfl, hne⟩ := Forest.mem_pending hf
        refine ⟨_, hkids ?_⟩
        cases f with
        | nil => exact absurd rfl hne
        | cons k kkids krest => rfl
      · obtain ⟨rfl, -⟩ := Forest.mem_pending hf
        exact ⟨_, hrest⟩
    · exact h.rep f (List.mem_cons_of_mem _ hf)
  · rw [hpre, ← Nat.add_assoc]
    exact h.placed.visit hkid hbro fun i hi => hsame i (.inr hi)
  · have hslice : y.arr.slice base x.preIndex = written := by
      rw [← h.slice]
      refine EnqueueArrays.slice_congr fun i hi => ⟨hsame _ (.inl (by omega)), ?_⟩
      rw [hnexts, Function.update_of_ne (by omega)]
    rw [hpre, EnqueueArrays.slice_succ, hslice, hsame _ (.inl (Nat.le_refl _)), h.placed.1,
      hnexts, Function.update_self]
  · have := h.top
    omega
  · rw [Forest.sum_size_pending]
    omega
  · intro i hi
    obtain ⟨hbuf, hnext⟩ := h.below i hi
    refine ⟨(hsame i (.inl (by omega))).trans hbuf, ?_⟩
    rw [hnexts, Function.update_of_ne (by omega), hnext]
  · intro c hc
    simp only [List.map_append, List.mem_append, List.map_cons, List.map_nil,
      List.mem_singleton, not_or] at hc
    rw [hwdata]
    split
    · rw [Function.update_of_ne hc.2, h.kept c hc.1]
    · exact h.kept c hc.1

/-- The loop that counts the buffers while it finds them. -/
theorem SplitInv.onFail (hleaf : ∀ i w, (leaf i w).unused8 = w.unused8) {fuel : Nat}
    (h : SplitInv record wdata start base limit x fs written)
    (hcount : x.count = x.preIndex + fs.length) (hfuel : (fs.map Forest.size).sum ≤ fuel)
    {y : Split}
    (hy : splitOnFailLoop (splitRound record leaf base fragNextIndex nextDrop) fuel x = y) :
    SplitInv record wdata start base limit y []
        (written ++ fs.flatMap (Forest.preorder fragNextIndex nextDrop)) ∧
      y.preIndex = x.preIndex + (fs.map Forest.size).sum ∧ y.count = y.preIndex := by
  induction fuel generalizing x fs written with
  | zero =>
      obtain rfl := h.placed.eq_nil (by omega)
      subst hy
      simpa [splitOnFailLoop] using And.intro h hcount
  | succ fuel ih =>
      rw [splitOnFailLoop] at hy
      cases fs with
      | nil =>
          rw [if_pos (by simpa using hcount.symm)] at hy
          subst hy
          simpa using And.intro h hcount
      | cons f fs =>
          rw [List.length_cons] at hcount
          rw [if_neg (by omega)] at hy
          cases f with
          | nil => exact h.placed.elim
          | cons b kids rest =>
              obtain ⟨hinv, hpre, hcnt⟩ := h.round hleaf rfl
              have hsum := Forest.sum_size_pending kids rest fs
              have hfull := Forest.sum_size_cons b kids rest fs
              obtain ⟨hend, hpos, heq⟩ := ih hinv
                (by simp only [List.length_append]; omega) (by omega) hy
              refine ⟨?_, by omega, heq⟩
              simpa [List.flatMap_append, Forest.flatMap_pending, Forest.preorder] using hend

/-- The loop that knows the number of buffers. -/
theorem SplitInv.forward (hleaf : ∀ i w, (leaf i w).unused8 = w.unused8) {fuel count : Nat}
    (h : SplitInv record wdata start base limit x fs written)
    (hcount : count = x.preIndex + (fs.map Forest.size).sum)
    (hfuel : (fs.map Forest.size).sum ≤ fuel) {y : Split}
    (hy : splitLoop (splitRound record leaf base fragNextIndex nextDrop) count fuel x = y) :
    SplitInv record wdata start base limit y []
        (written ++ fs.flatMap (Forest.preorder fragNextIndex nextDrop)) ∧
      y.preIndex = count := by
  induction fuel generalizing x fs written with
  | zero =>
      obtain rfl := h.placed.eq_nil (by omega)
      subst hy
      simpa [splitLoop] using And.intro h hcount.symm
  | succ fuel ih =>
      rw [splitLoop] at hy
      cases fs with
      | nil =>
          rw [if_pos (by simpa using hcount.symm)] at hy
          subst hy
          simpa using And.intro h hcount.symm
      | cons f fs =>
          cases f with
          | nil => exact h.placed.elim
          | cons b kids rest =>
              obtain ⟨hinv, hpre, -⟩ := h.round hleaf rfl
              have hsum := Forest.sum_size_pending kids rest fs
              have hfull := Forest.sum_size_cons b kids rest fs
              rw [if_neg (by omega)] at hy
              obtain ⟨hend, hpos⟩ := ih hinv (by omega) (by omega) hy
              refine ⟨?_, hpos⟩
              simpa [List.flatMap_append, Forest.flatMap_pending, Forest.preorder] using hend

end Round

/-! ## What the two functions write -/

/-- The outcome of a split: `entries` stand from `base` on, everything below `base` is as
before, and only the metadata of the listed buffers has changed, never their flags. -/
structure SplitDone (s : Worker) (arr : EnqueueArrays) (base limit : Nat)
    (entries : List (BufferId × Nat)) (x : Split) : Prop where
  slice : x.arr.slice base entries.length = entries
  below : ∀ i < base, x.arr.buffers i = arr.buffers i ∧ x.arr.nexts i = arr.nexts i
  top : x.arr.top ≤ limit
  unused8 : ∀ b, (x.wdata b).unused8 = (s.wdata b).unused8
  kept : ∀ b, b ∉ entries.map Prod.fst → x.wdata b = s.wdata b

section

variable {s : Worker} {arr : EnqueueArrays} {b0 : BufferId} {base limit : Nat}

theorem SplitDone.of_inv {x : Split} {entries : List (BufferId × Nat)}
    (h : SplitInv s.record s.wdata arr base limit x [] entries)
    (hpre : x.preIndex = entries.length) : SplitDone s arr base limit entries x where
  slice := hpre ▸ h.slice
  below := h.below
  top := h.top
  unused8 := h.unused8
  kept := h.kept

/-- Both loops start with the forest of `b0` at `base`. -/
theorem SplitInv.start (base : Nat) {f : Forest BufferId} (hrep : Rep s.record s.wdata (some b0) f)
    (hlimit : base + f.size ≤ limit) (htop : arr.top ≤ limit) (count : Nat) :
    SplitInv s.record s.wdata arr base limit ⟨s.wdata, arr.setBuffer base b0, 0, count⟩ [f]
      [] := by
  cases f with
  | nil => exact absurd hrep (by simp [Rep])
  | cons b kids rest =>
      obtain rfl : b0 = b := Option.some.inj hrep.1
      have hsize : 0 < (Forest.cons b0 kids rest).size := Forest.size_pos (by rintro ⟨⟩)
      exact
        { unused8 := fun _ => rfl
          rep := fun f hf => ⟨_, List.mem_singleton.mp hf ▸ hrep⟩
          placed := ⟨Function.update_self .., trivial⟩
          slice := rfl
          top := by
            rw [EnqueueArrays.setBuffer_top]
            omega
          room := by simpa using hlimit
          below := fun i hi => ⟨Function.update_of_ne (by omega) _ _, rfl⟩
          kept := fun _ _ => rfl }

/-- `split_frag_buffer_on_fail` writes the preorder of the forest from `b0` on, and its loop
ends. -/
theorem splitFragBufferOnFail_entries {f : Forest BufferId} {fragNextIndex nextDrop : Nat}
    (hrep : Rep s.record s.wdata (some b0) f) (hsize : f.size ≤ arrayLength)
    (hlimit : base + f.size ≤ limit) (htop : arr.top ≤ limit) {x : Split}
    (hx : splitFragBufferOnFail s arr b0 base fragNextIndex nextDrop = x) :
    SplitDone s arr base limit (f.preorder fragNextIndex nextDrop) x ∧ x.count = f.size ∧
      x.preIndex = f.size := by
  obtain ⟨hinv, hpre, hcount⟩ :=
    (SplitInv.start _ hrep hlimit htop 1).onFail
      (fun i w => by split <;> rfl) rfl (by simpa using hsize) hx
  have hpre' : x.preIndex = f.size := by simpa using hpre
  have hinv' : SplitInv s.record s.wdata arr base limit x []
      (f.preorder fragNextIndex nextDrop) := by simpa using hinv
  exact ⟨.of_inv hinv' (by simpa using hpre'), hcount.trans hpre', hpre'⟩

theorem splitFragBufferOnFail_done {f : Forest BufferId} {fragNextIndex nextDrop : Nat}
    (hrep : Rep s.record s.wdata (some b0) f) (hsize : f.size ≤ arrayLength)
    (hlimit : base + f.size ≤ limit) (htop : arr.top ≤ limit) {x : Split}
    (hx : splitFragBufferOnFail s arr b0 base fragNextIndex nextDrop = x) :
    SplitDone s arr base limit (f.preorder fragNextIndex nextDrop) x ∧ x.count = f.size := by
  obtain ⟨hdone, hcount, -⟩ := splitFragBufferOnFail_entries hrep hsize hlimit htop hx
  exact ⟨hdone, hcount⟩

/-- `frag_next_index` of `split_frag_buffer`. -/
def forwardFragNextIndex (w0 : Wdata) : Nat :=
  if w0.argToNext = 0 then forwardNextPktDrop else forwardNextActionEntry

/-- What `split_frag_buffer` writes for a tree. -/
def forwardEntries (b0 : BufferId) (ipReassOutput fragNextIndex : Nat) (kids : Forest BufferId) :
    List (BufferId × Nat) :=
  (b0, if ipReassOutput ≠ 0 ∨ kids.isNil then fragNextIndex else forwardNextPktDrop) ::
    kids.preorder fragNextIndex forwardNextPktDrop

/-- `split_frag_buffer` writes the preorder of the tree of `b0`, with the next node of the root
replaced where the root itself is sent on, and its loop ends. -/
theorem splitFragBuffer_entries {kids : Forest BufferId}
    (hrep : Rep s.record s.wdata (some b0) (.tree b0 kids))
    (hsize : 1 + kids.size ≤ arrayLength) (hlimit : 1 + kids.size ≤ limit)
    (htop : arr.top ≤ limit) {count : Nat} {x : Split}
    (hx : splitFragBuffer s arr b0 = (count, x)) :
    SplitDone s arr 0 limit (forwardEntries b0 (s.record b0).ipReassOutput
      (forwardFragNextIndex (s.wdata b0)) kids) x ∧
      count = 1 + kids.size ∧ x.preIndex = count := by
  obtain ⟨fragNextIndex, hfrag⟩ : ∃ fragNextIndex,
      fragNextIndex = forwardFragNextIndex (s.wdata b0) := ⟨_, rfl⟩
  have hfollowed : (s.record b0).followedNodesCnt = kids.size := hrep.2.1
  have htree : (Forest.tree b0 kids).size = 1 + kids.size := rfl
  obtain ⟨leaf, hleaf⟩ : ∃ leaf : Nat → Wdata → Wdata, leaf = fun _ w =>
      { updateFragWdata w (s.wdata b0) with argToNext := (s.wdata b0).argToNext } := ⟨_, rfl⟩
  have hunused8 : ∀ i w, (leaf i w).unused8 = w.unused8 := fun _ _ => by rw [hleaf]; rfl
  rw [← hfrag]
  rw [forwardFragNextIndex] at hfrag
  simp only [splitFragBuffer, ← hfrag, ← hleaf, Prod.mk.injEq] at hx
  obtain ⟨rfl, hx⟩ := hx
  obtain ⟨y, hy⟩ : ∃ y, splitLoop (splitRound s.record leaf 0 fragNextIndex forwardNextPktDrop)
      ((s.record b0).followedNodesCnt + 1) arrayLength ⟨s.wdata, arr.setBuffer 0 b0, 0, 0⟩ = y :=
    ⟨_, rfl⟩
  rw [hy] at hx
  have hstart := SplitInv.start 0 hrep (by omega) htop 0
  obtain ⟨hinv, hpre⟩ := hstart.forward hunused8
    (by simp only [List.map_cons, List.map_nil, List.sum_cons, List.sum_nil, htree]; omega)
    (by simpa [htree] using hsize) hy
  have hentries : [Forest.tree b0 kids].flatMap
      (Forest.preorder fragNextIndex forwardNextPktDrop) =
      (b0, if kids.isNil then fragNextIndex else forwardNextPktDrop) ::
        kids.preorder fragNextIndex forwardNextPktDrop := by
    simp [Forest.tree, Forest.preorder]
  rw [List.nil_append, hentries] at hinv
  have hdone := SplitDone.of_inv hinv (by simp [hpre, hfollowed])
  rw [forwardEntries]
  subst hx
  by_cases hout : (s.record b0).ipReassOutput ≠ 0
  · rw [if_pos hout, if_pos (.inl hout)]
    refine ⟨⟨?_, fun i hi => absurd hi (Nat.not_lt_zero i), ?_, hdone.unused8, ?_⟩, by omega, hpre⟩
    · have hslice := hdone.slice
      rw [List.length_cons, EnqueueArrays.slice, List.range_succ_eq_map, List.map_cons,
        List.map_map] at hslice ⊢
      obtain ⟨hfirst, hrest⟩ := List.cons.inj hslice
      rw [List.cons.injEq]
      refine ⟨?_, (List.map_congr_left fun i _ => ?_).trans hrest⟩
      · have hbuf : y.arr.buffers (0 + 0) = b0 := congrArg Prod.fst hfirst
        simp only [EnqueueArrays.setNext_buffers, hbuf, Nat.add_zero,
          EnqueueArrays.setNext_nexts_self]
      · simp only [Function.comp_apply, EnqueueArrays.setNext_buffers, Prod.mk.injEq, true_and]
        exact y.arr.setNext_nexts_of_ne (by omega) _
    · have := hdone.top
      rw [EnqueueArrays.setNext_top]
      omega
    · exact hdone.kept
  · rw [if_neg hout]
    simp only [hout, false_or]
    exact ⟨hdone, by omega, hpre⟩

theorem splitFragBuffer_done {kids : Forest BufferId}
    (hrep : Rep s.record s.wdata (some b0) (.tree b0 kids)) (hkids : kids ≠ .nil)
    (hsize : 1 + kids.size ≤ arrayLength) (hlimit : 1 + kids.size ≤ limit)
    (htop : arr.top ≤ limit) {count : Nat} {x : Split}
    (hx : splitFragBuffer s arr b0 = (count, x)) :
    ∃ fragNextIndex,
      SplitDone s arr 0 limit
        ((b0, if (s.record b0).ipReassOutput ≠ 0 then fragNextIndex else forwardNextPktDrop) ::
          kids.preorder fragNextIndex forwardNextPktDrop) x ∧
        count = 1 + kids.size := by
  obtain ⟨hdone, hcount, -⟩ := splitFragBuffer_entries hrep hsize hlimit htop hx
  refine ⟨forwardFragNextIndex (s.wdata b0), ?_, hcount⟩
  cases kids with
  | nil => exact absurd rfl hkids
  | cons k kkids krest => simpa [forwardEntries, Forest.isNil] using hdone

end

end Tapplet.Reass
