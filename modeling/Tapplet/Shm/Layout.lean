import Tapplet.Shm.Memory
import Mathlib.Algebra.BigOperators.Group.List.Basic

/-!
# Layout of the shared memory

The data plane creates one shared memory segment. It starts with the header
`sf_shm_main_t` and its table of maps; behind them `start_shm_map_malloc` gives each
registered map its place, configuration first. The header records where the
configuration starts and ends, both inclusive, for saving and loading it.

Offsets and lengths are `uint32_t`, and the check whether a map fits compares a sum that may
have wrapped. Then maps lie over the table, and what their init functions store changes the
table while the loop reads it. A store outside of the segment has no result: the functions
answer `none` there.
-/

namespace Tapplet.Shm

open Linked

/-- `PADDING_AFTER_SHM_MAPS` -/
def paddingAfterShmMaps : Nat := sizeofShmMap

/-- `SF_SHM_MEM_VERSION_MIN_LEN` -/
def sfShmMemVersionMinLen : Nat := 11

/-- `MAP_NOT_READY` -/
def mapNotReady : Nat := 0

/-- `MAP_MEM_FINISH` -/
def mapMemFinish : Nat := 1

/-- `strncpy`: at most `n` characters, filled up with zeros. -/
def strncpy (n : Nat) (src : List UInt8) : List UInt8 :=
  src.take n ++ List.replicate (n - src.length) 0

/-- `strlen`, of a string that ends inside the array it is in. -/
def strlen (bytes : List UInt8) : Nat := (bytes.takeWhile (· ≠ 0)).length

/-- The strings the build puts into the header. -/
structure Build where
  sfBuildVersionStr : List UInt8
  sfTargetDeviceStr : List UInt8

/-- `sf_shm_map_reg_main_outside`: the links of the registrations, and the two counters
that are computed once from the list. -/
structure Registry (α : Type*) where
  next : α → Option α
  headNext : Option α
  mudoleCount : Nat
  moduleShmTotalLen : Nat

/-- The shared memory segment of `len` bytes, and what start-up keeps beside it.
`callbackPtr` are the pointers handed to the plugins, as offsets into the segment. -/
structure Segment (α : Type*) where
  len : Nat
  mem : Memory
  callbackPtr : α → Option Nat
  registry : Registry α

variable {α : Type*} [DecidableEq α]

/-- `get_shm_map_count_outside(0)` -/
def getShmMapCountOutside (mudoleCount : Nat) (regs : List α) : Nat :=
  if mudoleCount = 0 then regs.length % 2 ^ 32 else mudoleCount

/-- `get_shm_map_total_len_outside(0)` -/
def getShmMapTotalLenOutside (reg : α → Registration) (moduleShmTotalLen : Nat)
    (regs : List α) : Nat :=
  if moduleShmTotalLen = 0 then (regs.map fun r => (reg r).len).sum % 2 ^ 32
  else moduleShmTotalLen

/-- `MAIN_SHM_LEN` -/
def mainShmLen (reg : α → Registration) (fuel : Nat) (r : Registry α) :
    Option (Nat × Registry α) := do
  let regs ← collect r.next fuel r.headNext
  let count := getShmMapCountOutside r.mudoleCount regs
  let total := getShmMapTotalLenOutside reg r.moduleShmTotalLen regs
  return (sizeofShmMain + sizeofShmMap * count + paddingAfterShmMaps + total,
    { r with mudoleCount := count, moduleShmTotalLen := total })

/-- `create_and_link_all_shm`: the size is passed on as a `uint32_t`, and a new segment is
filled with zeros. -/
def createAndLinkAllShm (reg : α → Registration) (fuel : Nat) (r : Registry α) :
    Option (Segment α) := do
  let (len, r) ← mainShmLen reg fuel r
  return {
    len := len % 2 ^ 32
    mem := fun _ => 0
    callbackPtr := fun _ => none
    registry := r }

/-- `init_shm_main` -/
def initShmMain (reg : α → Registration) (fuel : Nat) (s : Segment α) : Option (Segment α) := do
  let (len, r) ← mainShmLen reg fuel s.registry
  let mem := storeU32 s.mem statusAt mapNotReady
  let mem := storeU32 mem usedMemAt sizeofShmMain
  let mem := storeU32 mem freeMemAt (len - sizeofShmMain)
  let mem := storeU32 mem mapCountAt 0
  return { s with mem, registry := r }

/-- Count one more map and write its name and length into the table. -/
def nameMap (r : Registration) (count : Nat) (mem : Memory) : Memory :=
  let mem := storeU32 mem mapCountAt count
  let mem := store mem (shmMapAt (count - 1)) (r.name.bytes ++ [0])
  storeU32 mem (mapLenAt (count - 1)) r.len

/-- Step 1 of `start_shm_map_malloc`: append the name and the length of each registration
to the table of maps. -/
def nameLoop (reg : α → Registration) : Nat → Option α → Segment α → Option (Segment α)
  | _, none, s => some s
  | 0, some _, _ => none
  | fuel + 1, some regPtr, s =>
      let count := (mapCount s.mem + 1) % 2 ^ 32
      if count = 0 ∨ s.len < shmMapAt count then none
      else
        nameLoop reg fuel (s.registry.next regPtr)
          { s with mem := nameMap (reg regPtr) count s.mem }

/-- What the init function of a map, or `sf_memset_zero`, leaves of a segment when the map is
at `offset`. -/
def initMap (r : Registration) (offset : Nat) (mem : Memory) : Memory :=
  match r.initFunc with
  | some stores => stores.foldl (fun mem p => store mem (offset + p.1) [p.2]) mem
  | none => sfMemsetZero mem offset r.len

/-- All that initialising the map at `offset` stores is inside a segment of `len` bytes. -/
def initFits (r : Registration) (offset len : Nat) : Bool :=
  match r.initFunc with
  | some stores => stores.all fun p => offset + p.1 < len
  | none => r.len = 0 ∨ offset + r.len ≤ len

/-- Note the end of the configuration at the first map of another type, set the offset of map
`i` and initialise it. -/
def placeMap (r : Registration) (i preOffset : Nat) (mem : Memory) : Memory :=
  let mem :=
    if r.memType ≠ .config ∧ configMemEnd mem = configMemStart mem then
      storeU32 mem configMemEndAt (preOffset + 2 ^ 32 - 1)
    else mem
  let mem := storeU32 mem (mapOffsetAt i) preOffset
  initMap r preOffset mem

/-- Step 3 of `start_shm_map_malloc`, from map `i` on: compare the registration with the
entry of the table, check that the map fits and place it. The answer holds the value returned
and `pre_offset`. -/
def offsetLoop (reg : α → Registration) (fuel : Nat) :
    Nat → Nat → Option α → Nat → Segment α → Option (Int × Nat × Segment α)
  | 0, i, _, preOffset, s => if mapCount s.mem ≤ i then some (0, preOffset, s) else none
  | _ + 1, i, none, preOffset, s => if mapCount s.mem ≤ i then some (0, preOffset, s) else none
  | k + 1, i, some regPtr, preOffset, s =>
      if mapCount s.mem ≤ i then some (0, preOffset, s)
      else if strcmp (reg regPtr).name.bytes (mapName s.mem i) ≠ 0 then some (-1, preOffset, s)
      else if (reg regPtr).len ≠ mapLen s.mem i then some (-1, preOffset, s)
      else
        match mainShmLen reg fuel s.registry with
        | none => none
        | some (limit, registry) =>
            if limit < (preOffset + mapLen s.mem i) % 2 ^ 32 then
              some (-2, preOffset, { s with registry })
            else if initFits (reg regPtr) preOffset s.len then
              offsetLoop reg fuel k (i + 1) (registry.next regPtr)
                ((preOffset + (reg regPtr).len) % 2 ^ 32) { s with
                  registry
                  mem := placeMap (reg regPtr) i preOffset s.mem
                  callbackPtr := Function.update s.callbackPtr regPtr (some preOffset) }
            else none

/-- The strings of the build in the header. -/
def nameBuild (build : Build) (mem : Memory) : Memory :=
  let mem := store mem versionAt (strncpy sfShmMemVersionLen build.sfBuildVersionStr)
  store mem deviceTypeNameAt (strncpy sfShmMemDeviceTypeLen build.sfTargetDeviceStr)

/-- Step 2 of `start_shm_map_malloc`: the configuration starts at `preOffset`, and its end is
not known yet. -/
def recordStart (preOffset : Nat) (mem : Memory) : Memory :=
  let mem := storeU32 mem configMemStartAt preOffset
  storeU32 mem configMemEndAt (configMemStart mem)

/-- Steps 4 and 5 of `start_shm_map_malloc`. -/
def finish (len preOffset : Nat) (mem : Memory) : Memory :=
  let mem := storeU32 mem usedMemAt preOffset
  let mem := storeU32 mem freeMemAt (len + 2 ^ 32 - preOffset)
  storeU32 mem statusAt mapMemFinish

/-- `start_shm_map_malloc`, up to `update_shm_map_map_inlib`: the value returned and the
segment. -/
def startShmMapMalloc (build : Build) (reg : α → Registration) (fuel : Nat) (s : Segment α) :
    Option (Int × Segment α) := do
  let mem := nameBuild build s.mem
  if strlen (version mem) < sfShmMemVersionMinLen then return (-3, { s with mem })
  let (next, headNext) ← sortShmMapRegOutside reg fuel s.registry.next s.registry.headNext
  let s ← nameLoop reg fuel headNext { s with
    mem := store mem syncLockAt [0]
    registry := { s.registry with next, headNext } }
  let preOffset :=
    (sizeofShmMain + mapCount s.mem * sizeofShmMap + paddingAfterShmMaps) % 2 ^ 32
  let (ret, preOffset, s) ← offsetLoop reg fuel fuel 0 s.registry.headNext preOffset
    { s with mem := recordStart preOffset s.mem }
  if ret ≠ 0 then return (ret, s)
  let (len, registry) ← mainShmLen reg fuel s.registry
  return (0, { s with registry, mem := finish len preOffset s.mem })

/-- The part of `sf_shm_init` that makes a new segment: create it, initialise the header and
lay the registered maps out. -/
def sfShmInit (build : Build) (reg : α → Registration) (fuel : Nat) (next : α → Option α)
    (headNext : Option α) : Option (Int × Segment α) := do
  let s ← createAndLinkAllShm reg fuel ⟨next, headNext, 0, 0⟩
  let s ← initShmMain reg fuel s
  startShmMapMalloc build reg fuel s

/-- The lengths of the registrations, added up. -/
def totalLen (reg : α → Registration) (xs : List α) : Nat := (xs.map fun r => (reg r).len).sum

omit [DecidableEq α] in
@[simp] theorem totalLen_nil (reg : α → Registration) : totalLen reg [] = 0 := rfl

omit [DecidableEq α] in
@[simp] theorem totalLen_cons (reg : α → Registration) (x : α) (xs : List α) :
    totalLen reg (x :: xs) = (reg x).len + totalLen reg xs := by
  simp [totalLen]

omit [DecidableEq α] in
theorem totalLen_append (reg : α → Registration) (xs ys : List α) :
    totalLen reg (xs ++ ys) = totalLen reg xs + totalLen reg ys := by
  simp [totalLen]

/-- `MAIN_SHM_LEN` for the registrations `xs`. -/
def shmLen (reg : α → Registration) (xs : List α) : Nat :=
  sizeofShmMain + sizeofShmMap * (xs.length % 2 ^ 32) + paddingAfterShmMaps +
    totalLen reg xs % 2 ^ 32

/-- The registered list is `xs`, and the counters have been computed from it. -/
structure Registry.Lists (reg : α → Registration) (r : Registry α) (xs : List α) : Prop where
  seg : Seg r.next r.headNext xs none
  count : r.mudoleCount = xs.length % 2 ^ 32
  total : r.moduleShmTotalLen = totalLen reg xs % 2 ^ 32

variable {reg : α → Registration} {fuel : Nat}

omit [DecidableEq α] in
/-- `MAIN_SHM_LEN` computes the counters when it is first used. -/
theorem mainShmLen_fresh (reg : α → Registration) {next : α → Option α} {headNext : Option α}
    {xs : List α} (h : Seg next headNext xs none) (hfuel : xs.length ≤ fuel) :
    ∃ r, mainShmLen reg fuel ⟨next, headNext, 0, 0⟩ = some (shmLen reg xs, r) ∧
      r.Lists reg xs ∧ r.next = next ∧ r.headNext = headNext := by
  simp only [mainShmLen, collect_of_seg h hfuel, getShmMapCountOutside,
    getShmMapTotalLenOutside, if_true]
  exact ⟨_, rfl, ⟨h, rfl, rfl⟩, rfl, rfl⟩

omit [DecidableEq α] in
/-- Later uses of `MAIN_SHM_LEN` have the same value and leave the counters as they are. -/
theorem Registry.Lists.mainShmLen_eq {r : Registry α} {xs : List α} (h : r.Lists reg xs)
    (hfuel : xs.length ≤ fuel) : mainShmLen reg fuel r = some (shmLen reg xs, r) := by
  have hcount : getShmMapCountOutside r.mudoleCount xs = r.mudoleCount := by
    simp only [getShmMapCountOutside]
    split
    · next h0 => rw [h0, ← h.count, h0]
    · rfl
  have htotal : getShmMapTotalLenOutside reg r.moduleShmTotalLen xs = r.moduleShmTotalLen := by
    simp only [getShmMapTotalLenOutside]
    split
    · next h0 => rw [h0, ← h0, h.total, totalLen]
    · rfl
  simp only [mainShmLen, collect_of_seg h.seg hfuel, Option.bind_eq_bind, Option.bind_some,
    hcount, htotal]
  rw [h.count, h.total]
  obtain ⟨next, headNext, mudoleCount, moduleShmTotalLen⟩ := r
  obtain ⟨-, rfl, rfl⟩ := h
  rfl

/-! ## Step 1 -/

/-- The table of maps holds the names and the lengths of `rs` from place `i` on. -/
def Named (reg : α → Registration) (mem : Memory) (i : Nat) (rs : List α) : Prop :=
  ∀ j, ∀ h : j < rs.length,
    mapName mem (i + j) = (reg rs[j]).name.bytes ∧ mapLen mem (i + j) = (reg rs[j]).len

omit [DecidableEq α] in
theorem named_cons {mem : Memory} {i : Nat} {r : α} {rs : List α} :
    Named reg mem i (r :: rs) ↔
      (mapName mem i = (reg r).name.bytes ∧ mapLen mem i = (reg r).len) ∧
        Named reg mem (i + 1) rs := by
  constructor
  · intro h
    refine ⟨h 0 (by simp), fun j hj => ?_⟩
    have hj' := h (j + 1) (by simpa using hj)
    rw [Nat.add_right_comm]
    simpa [Nat.add_assoc] using hj'
  · rintro ⟨hi, h⟩ j hj
    cases j with
    | zero => exact hi
    | succ j =>
        have hj' := h j (by simpa using hj)
        rw [Nat.add_right_comm] at hj'
        simpa [Nat.add_assoc] using hj'

omit [DecidableEq α] in
/-- Only the bytes of the table from place `i` on count. -/
theorem Named.congr {mem mem' : Memory} {i : Nat} {rs : List α} (h : Named reg mem i rs)
    (same : ∀ a, shmMapAt i ≤ a → a < shmMapAt (i + rs.length) → mem' a = mem a) :
    Named reg mem' i rs := by
  intro j hj
  have hlow : shmMapAt i ≤ shmMapAt (i + j) := shmMapAt_mono (Nat.le_add_right i j)
  have hhigh : shmMapAt (i + j + 1) ≤ shmMapAt (i + rs.length) := shmMapAt_mono (by omega)
  obtain ⟨hname, -, hmlen⟩ := @entry_congr mem mem' (i + j)
    fun a h₁ h₂ => same a (by omega) (by omega)
  rw [hname, hmlen]
  exact h j hj

/-- What naming one more map leaves. -/
theorem nameMap_spec (r : Registration) {count : Nat} (mem : Memory) (hcount : count + 1 < 2 ^ 32) :
    mapCount (nameMap r (count + 1) mem) = count + 1 ∧
      mapName (nameMap r (count + 1) mem) count = r.name.bytes ∧
      mapLen (nameMap r (count + 1) mem) count = r.len ∧
      ∀ a, a < mapCountAt ∨ sizeofShmMain ≤ a ∧ a < shmMapAt count →
        nameMap r (count + 1) mem a = mem a := by
  have hheader := header_le count
  have hlt := r.len_lt
  have hmapLen : mapLenAt count = shmMapAt count + 36 := rfl
  simp only [nameMap, Nat.add_sub_cancel]
  refine ⟨?_, ?_, ?_, ?_⟩
  · have hsame : ∀ i < 4, storeU32 (store (storeU32 mem mapCountAt (count + 1)) (shmMapAt count)
        (r.name.bytes ++ [0])) (mapLenAt count) r.len (mapCountAt + i) =
          storeU32 mem mapCountAt (count + 1) (mapCountAt + i) := by
      intro i hi
      have hi' : mapCountAt + i < 88 := Nat.add_lt_add_left hi 84
      rw [storeU32_of_lt _ (by omega), store_of_lt _ (by omega)]
    rw [mapCount, u32At_congr hsame, u32At_storeU32, Nat.mod_eq_of_lt hcount]
  · refine Eq.trans ?_ (mapName_store (storeU32 mem mapCountAt (count + 1)) count r.name)
    refine congrArg (List.takeWhile _) (bytesAt_congr fun a _ ha => ?_)
    simp only [sfShmMapNameLen] at ha
    exact storeU32_of_lt _ (by omega)
  · rw [mapLen, u32At_storeU32, Nat.mod_eq_of_lt hlt]
  · intro a ha
    have hat : mapCountAt = 84 := rfl
    simp only [hat, sizeofShmMain] at ha ⊢
    rw [storeU32_of_lt _ (by omega), store_of_lt _ (by omega)]
    rcases ha with ha | ha
    · exact storeU32_of_lt _ ha
    · exact storeU32_of_ge _ ha.1

omit [DecidableEq α] in
/-- Step 1 of the layout has a result if the table fits into the segment. -/
theorem nameLoop_spec (reg : α → Registration) {rs : List α} {p : Option α} {s : Segment α}
    (h : Seg s.registry.next p rs none) (hfuel : rs.length ≤ fuel) (hlen : s.len < 2 ^ 32)
    (fits : shmMapAt (mapCount s.mem + rs.length) ≤ s.len) :
    ∃ mem, nameLoop reg fuel p s = some { s with mem } ∧
      mapCount mem = mapCount s.mem + rs.length ∧ Named reg mem (mapCount s.mem) rs ∧
      ∀ a, a < mapCountAt ∨ sizeofShmMain ≤ a ∧ a < shmMapAt (mapCount s.mem) →
        mem a = s.mem a := by
  induction rs generalizing p s fuel with
  | nil =>
      obtain rfl : p = none := h
      exact ⟨s.mem, by rw [nameLoop], rfl, fun j hj => by simp at hj, fun _ _ => rfl⟩
  | cons r rs ih =>
      obtain ⟨rfl, h⟩ := h
      cases fuel with
      | zero => simp at hfuel
      | succ fuel =>
          obtain ⟨count, hc⟩ : ∃ count, count = mapCount s.mem := ⟨_, rfl⟩
          rw [← hc] at fits ⊢
          simp only [List.length_cons] at fits hfuel
          have hsplit : count + (rs.length + 1) = count + 1 + rs.length := by omega
          rw [hsplit] at fits
          have hsucc : shmMapAt (count + 1) ≤ s.len :=
            Nat.le_trans (shmMapAt_mono (Nat.le_add_right _ _)) fits
          have hcount : count + 1 < 2 ^ 32 := by
            simp only [shmMapAt, sizeofShmMap] at hsucc
            omega
          have hmod : (count + 1) % 2 ^ 32 = count + 1 := Nat.mod_eq_of_lt hcount
          have hroom : ¬(count + 1 = 0 ∨ s.len < shmMapAt (count + 1)) := by omega
          obtain ⟨hmapCount, hname, hmlen, hsame⟩ := nameMap_spec (reg r) s.mem hcount
          obtain ⟨mem, hrun, hcount', hnamed, hbefore⟩ :=
            @ih fuel _ { s with mem := nameMap (reg r) (count + 1) s.mem } h (by omega) hlen
              (by simpa only [hmapCount] using fits)
          simp only [hmapCount] at hcount' hnamed hbefore
          refine ⟨mem, ?_, ?_, named_cons.mpr ⟨?_, hnamed⟩, fun a ha => ?_⟩
          · simp only [nameLoop, ← hc, hmod, if_neg hroom]
            exact hrun
          · rw [hcount', List.length_cons, hsplit]
          · obtain ⟨hname', -, hmlen'⟩ := entry_congr fun a h₁ h₂ =>
              hbefore a (.inr ⟨Nat.le_trans (header_le count) h₁, h₂⟩)
            exact ⟨hname'.trans hname, hmlen'.trans hmlen⟩
          · have hstep := shmMapAt_succ count
            rw [hbefore a (by omega), hsame a ha]

/-! ## Step 3 -/

theorem initMap_of_lt (r : Registration) {offset a : Nat} (mem : Memory) (h : a < offset) :
    initMap r offset mem a = mem a := by
  have hfold (stores : List (Nat × UInt8)) :
      stores.foldl (fun mem p => store mem (offset + p.1) [p.2]) mem a = mem a := by
    induction stores generalizing mem with
    | nil => rfl
    | cons p stores ih =>
        rw [List.foldl_cons, ih]
        exact store_of_lt _ (by omega)
  simp only [initMap]
  cases r.initFunc with
  | none => exact sfMemsetZero_of_lt _ h
  | some stores => exact hfold stores

/-- A map inside the segment is initialised inside the segment. -/
theorem initFits_of_le (r : Registration) {offset len : Nat} (h : offset + r.len ≤ len) :
    initFits r offset len = true := by
  simp only [initFits]
  cases hinit : r.initFunc with
  | none => simp [h]
  | some stores =>
      rw [List.all_eq_true]
      intro p hp
      have hlt := r.init_lt stores hinit p hp
      exact decide_eq_true (by omega)

/-- What placing a map behind the table leaves. -/
theorem placeMap_spec (r : Registration) {i preOffset : Nat} (mem : Memory)
    (hpre : preOffset < 2 ^ 32) (hi : shmMapAt (i + 1) ≤ preOffset) :
    configMemEnd (placeMap r i preOffset mem) =
        (if r.memType ≠ .config ∧ configMemEnd mem = configMemStart mem then
          (preOffset + 2 ^ 32 - 1) % 2 ^ 32
        else configMemEnd mem) ∧
      mapName (placeMap r i preOffset mem) i = mapName mem i ∧
      mapOffset (placeMap r i preOffset mem) i = preOffset ∧
      mapLen (placeMap r i preOffset mem) i = mapLen mem i ∧
      ∀ a, a < configMemEndAt ∨ mapCountAt ≤ a ∧ a < shmMapAt i ∨
          shmMapAt (i + 1) ≤ a ∧ a < preOffset →
        placeMap r i preOffset mem a = mem a := by
  have hheader := header_le i
  have hsucc := shmMapAt_succ i
  have hat : configMemEndAt = 80 ∧ mapCountAt = 84 ∧ mapOffsetAt i = shmMapAt i + 32 ∧
      mapLenAt i = shmMapAt i + 36 := ⟨rfl, rfl, rfl, rfl⟩
  obtain ⟨hend, hcount, hoffset, hmlen⟩ := hat
  obtain ⟨m, hm⟩ : ∃ m, m = if r.memType ≠ .config ∧ configMemEnd mem = configMemStart mem then
      storeU32 mem configMemEndAt (preOffset + 2 ^ 32 - 1) else mem := ⟨_, rfl⟩
  have hplace : placeMap r i preOffset mem =
      initMap r preOffset (storeU32 m (mapOffsetAt i) preOffset) := by
    rw [hm]
    rfl
  -- outside of the recorded end nothing has changed yet
  have hmsame : ∀ a, a < configMemEndAt ∨ mapCountAt ≤ a → m a = mem a := by
    intro a ha
    rw [hm]
    split
    · rcases ha with ha | ha
      · exact storeU32_of_lt _ ha
      · exact storeU32_of_ge _ (by omega)
    · rfl
  have hsame : ∀ a < preOffset, a < mapOffsetAt i ∨ mapOffsetAt i + 4 ≤ a →
      placeMap r i preOffset mem a = m a := by
    intro a hlt ha
    rw [hplace, initMap_of_lt _ _ hlt]
    rcases ha with ha | ha
    · exact storeU32_of_lt _ ha
    · exact storeU32_of_ge _ ha
  refine ⟨?_, ?_, ?_, ?_, ?_⟩
  · have hconfig : configMemEnd (placeMap r i preOffset mem) = configMemEnd m :=
      u32At_congr fun j hj => hsame _ (by omega) (by omega)
    rw [hconfig, hm]
    split
    · exact u32At_storeU32 _ _ _
    · rfl
  · refine congrArg (List.takeWhile _) (bytesAt_congr fun a h₁ h₂ => ?_)
    simp only [sfShmMapNameLen] at h₂
    rw [hsame a (by omega) (by omega), hmsame a (by omega)]
  · have hstored : mapOffset (placeMap r i preOffset mem) i =
        u32At (storeU32 m (mapOffsetAt i) preOffset) (mapOffsetAt i) := by
      refine u32At_congr fun j hj => ?_
      rw [hplace, initMap_of_lt _ _ (by omega)]
    rw [hstored, u32At_storeU32, Nat.mod_eq_of_lt hpre]
  · refine u32At_congr fun j hj => ?_
    rw [hsame _ (by omega) (by omega), hmsame _ (by omega)]
  · intro a ha
    rw [hsame a (by omega) (by omega), hmsame a (by omega)]

/-- What `config_mem_end` becomes over the maps `rs`, the first of them at `preOffset`. -/
def regionEnd (reg : α → Registration) (start : Nat) : List α → Nat → Nat → Nat
  | [], _, configMemEnd => configMemEnd
  | r :: rs, preOffset, configMemEnd =>
      regionEnd reg start rs (preOffset + (reg r).len)
        (if (reg r).memType ≠ .config ∧ configMemEnd = start then (preOffset + 2 ^ 32 - 1) % 2 ^ 32
        else configMemEnd)

/-- The table of maps holds the maps `rs` from place `i` on, the first at `preOffset`. -/
def Placed (reg : α → Registration) (mem : Memory) (i preOffset : Nat) (rs : List α) : Prop :=
  ∀ j, ∀ h : j < rs.length,
    mapName mem (i + j) = (reg rs[j]).name.bytes ∧
      mapOffset mem (i + j) = preOffset + totalLen reg (rs.take j) ∧
      mapLen mem (i + j) = (reg rs[j]).len

omit [DecidableEq α] in
theorem placed_cons {mem : Memory} {i preOffset : Nat} {r : α} {rs : List α} :
    Placed reg mem i preOffset (r :: rs) ↔
      (mapName mem i = (reg r).name.bytes ∧ mapOffset mem i = preOffset ∧
          mapLen mem i = (reg r).len) ∧
        Placed reg mem (i + 1) (preOffset + (reg r).len) rs := by
  constructor
  · intro h
    refine ⟨h 0 (Nat.zero_lt_succ _), fun j hj => ?_⟩
    have hj' := h (j + 1) (by simpa using hj)
    rw [Nat.add_right_comm]
    simpa [Nat.add_assoc] using hj'
  · rintro ⟨hi, h⟩ j hj
    cases j with
    | zero => exact hi
    | succ j =>
        have hj' := h j (by simpa using hj)
        rw [Nat.add_right_comm] at hj'
        simpa [Nat.add_assoc] using hj'

/-- The segment after the maps `rs` have been laid out behind `preOffset`. -/
structure LaidOut (reg : α → Registration) (i preOffset : Nat) (rs : List α)
    (s s' : Segment α) : Prop where
  len : s'.len = s.len
  registry : s'.registry = s.registry
  configMemEnd : configMemEnd s'.mem =
    regionEnd reg (configMemStart s.mem) rs preOffset (configMemEnd s.mem)
  before : ∀ a, a < configMemEndAt ∨ mapCountAt ≤ a ∧ a < shmMapAt i → s'.mem a = s.mem a
  placed : Placed reg s'.mem i preOffset rs

/-- Step 3 of the layout returns 0 if the table and the maps fit into the segment. -/
theorem offsetLoop_spec {xs rs : List α} {k i preOffset : Nat} {p : Option α} {s : Segment α}
    (lists : s.registry.Lists reg xs) (hfuel : xs.length ≤ fuel) (hk : rs.length ≤ k)
    (h : Seg s.registry.next p rs none) (named : Named reg s.mem i rs)
    (count : mapCount s.mem = i + rs.length) (table : shmMapAt (i + rs.length) ≤ preOffset)
    (fits : preOffset + totalLen reg rs ≤ s.len) (hlen : s.len < 2 ^ 32)
    (hlimit : s.len ≤ shmLen reg xs) :
    ∃ s', offsetLoop reg fuel k i p preOffset s =
        some (0, preOffset + totalLen reg rs, s') ∧ LaidOut reg i preOffset rs s s' := by
  induction rs generalizing k i preOffset p s with
  | nil =>
      obtain rfl : p = none := h
      refine ⟨s, ?_, rfl, rfl, rfl, fun _ _ => rfl, fun j hj => by simp at hj⟩
      cases k <;> simp [offsetLoop, count]
  | cons r rs ih =>
      obtain ⟨rfl, h⟩ := h
      cases k with
      | zero => simp at hk
      | succ k =>
          obtain ⟨⟨hname, hmlen⟩, hnamed⟩ := named_cons.mp named
          rw [totalLen_cons] at fits
          simp only [List.length_cons] at count table hk
          have hsplit : i + (rs.length + 1) = i + 1 + rs.length := by omega
          rw [hsplit] at table
          have hentry : shmMapAt (i + 1) ≤ preOffset :=
            Nat.le_trans (shmMapAt_mono (Nat.le_add_right _ _)) table
          have hnext : (preOffset + (reg r).len) % 2 ^ 32 = preOffset + (reg r).len :=
            Nat.mod_eq_of_lt (by omega)
          obtain ⟨hend, hname', hoffset, hmlen', hsame⟩ :=
            placeMap_spec (reg r) s.mem (show preOffset < 2 ^ 32 by omega) hentry
          obtain ⟨t, ht⟩ : ∃ t : Segment α, t = { s with
              mem := placeMap (reg r) i preOffset s.mem
              callbackPtr := Function.update s.callbackPtr r (some preOffset) } := ⟨_, rfl⟩
          have htmem : t.mem = placeMap (reg r) i preOffset s.mem := by rw [ht]
          have htreg : t.registry = s.registry := by rw [ht]
          have htlen : t.len = s.len := by rw [ht]
          have hheader := header_le i
          have hstep := shmMapAt_succ i
          have hat : configMemEndAt = 80 ∧ mapCountAt = 84 ∧ configMemStartAt = 76 :=
            ⟨rfl, rfl, rfl⟩
          have htcount : mapCount t.mem = mapCount s.mem :=
            u32At_congr fun j hj => htmem ▸ hsame _ (by omega)
          have htstart : configMemStart t.mem = configMemStart s.mem :=
            u32At_congr fun j hj => htmem ▸ hsame _ (by omega)
          have htnamed : Named reg t.mem (i + 1) rs :=
            hnamed.congr fun a h₁ h₂ => htmem ▸ hsame a (.inr (.inr ⟨h₁, by omega⟩))
          obtain ⟨s', hrun, hout⟩ := ih (k := k) (s := t) (htreg ▸ lists) (by omega) (htreg ▸ h)
            htnamed (by omega)
              (show shmMapAt (i + 1 + rs.length) ≤ preOffset + (reg r).len by omega)
            (by omega) (htlen ▸ hlen) (htlen ▸ hlimit)
          refine ⟨s', ?_, ?_, ?_, ?_, ?_, ?_⟩
          · rw [ht] at hrun
            simp only [offsetLoop, hname, hmlen, strcmp_self, ne_eq, not_true, if_false,
              lists.mainShmLen_eq hfuel, hnext]
            rw [if_neg (by omega), if_neg (by omega),
              if_pos (initFits_of_le (reg r) (by omega)), totalLen_cons, ← Nat.add_assoc]
            exact hrun
          · exact hout.len.trans htlen
          · exact hout.registry.trans htreg
          · rw [hout.configMemEnd, htstart, htmem, hend]
            rfl
          · intro a ha
            rw [hout.before a (by omega), htmem, hsame a (by omega)]
          · obtain ⟨hname'', hoffset', hmlen''⟩ := @entry_congr t.mem s'.mem i
              fun a h₁ h₂ => hout.before a (.inr ⟨by omega, h₂⟩)
            rw [htmem] at hname'' hoffset' hmlen''
            exact placed_cons.mpr ⟨⟨hname''.trans (hname'.trans hname), hoffset'.trans hoffset,
              hmlen''.trans (hmlen'.trans hmlen)⟩, hout.placed⟩

/-! ## Start-up -/

/-- Where the first map of `count` maps goes. -/
def mapsStart (count : Nat) : Nat :=
  (sizeofShmMain + count * sizeofShmMap + paddingAfterShmMaps) % 2 ^ 32

/-- The header, the table of maps and the maps of the registrations `xs` end below `2 ^ 32`. -/
def NoWrap (reg : α → Registration) (xs : List α) : Prop :=
  sizeofShmMain + sizeofShmMap * xs.length + paddingAfterShmMaps + totalLen reg xs < 2 ^ 32

instance (reg : α → Registration) (xs : List α) : Decidable (NoWrap reg xs) :=
  inferInstanceAs (Decidable (_ < _))

/-- The version string of the build is long enough. -/
def VersionOk (build : Build) : Prop :=
  sfShmMemVersionMinLen ≤ strlen (strncpy sfShmMemVersionLen build.sfBuildVersionStr)

/-- A finished layout: the registered list is `rs` and the table holds its maps in order. -/
structure Layout (reg : α → Registration) (s : Segment α) (rs : List α) : Prop where
  lists : s.registry.Lists reg rs
  len : s.len = shmLen reg rs % 2 ^ 32
  mapCount : mapCount s.mem = rs.length
  configMemStart : configMemStart s.mem = mapsStart rs.length
  configMemEnd : configMemEnd s.mem =
    regionEnd reg (mapsStart rs.length) rs (mapsStart rs.length) (mapsStart rs.length)
  placed : Placed reg s.mem 0 (mapsStart rs.length) rs

/-- The order of the registrations after `sort_shm_map_reg_outside`. -/
structure Arranged (reg : α → Registration) (xs cs ss : List α) : Prop where
  configs : cs.Perm (xs.filter fun x => (reg x).memType = .config)
  stats : ss = xs.filter (fun x => (reg x).memType = .stat)
  sorted : (xs.map fun x => (reg x).name).Nodup → NameSorted reg cs

namespace Arranged

omit [DecidableEq α]

variable {xs cs ss : List α} (h : Arranged reg xs cs ss)
include h

theorem mem_config {x : α} (hx : x ∈ cs) : (reg x).memType = .config := by
  simpa using (List.mem_filter.mp (h.configs.mem_iff.mp hx)).2

theorem mem_stat {x : α} (hx : x ∈ ss) : (reg x).memType = .stat := by
  rw [h.stats] at hx
  simpa using (List.mem_filter.mp hx).2

/-- Nothing is lost or doubled. -/
theorem perm : (cs ++ ss).Perm xs := by
  rw [h.stats]
  refine (h.configs.append_right _).trans ?_
  have hnot : (fun x => decide ((reg x).memType = .stat)) =
      fun x => !decide ((reg x).memType = .config) := by
    funext x
    cases (reg x).memType <;> rfl
  rw [hnot]
  exact List.filter_append_perm _ xs

end Arranged

omit [DecidableEq α] in
theorem totalLen_perm {xs ys : List α} (perm : xs.Perm ys) :
    totalLen reg xs = totalLen reg ys :=
  (perm.map _).sum_eq

omit [DecidableEq α] in
theorem shmLen_perm {xs ys : List α} (perm : xs.Perm ys) : shmLen reg xs = shmLen reg ys := by
  rw [shmLen, shmLen, perm.length_eq, totalLen_perm perm]

omit [DecidableEq α] in
theorem NoWrap.perm {xs ys : List α} (h : NoWrap reg xs) (perm : xs.Perm ys) : NoWrap reg ys := by
  rwa [NoWrap, ← perm.length_eq, ← totalLen_perm perm]

omit [DecidableEq α] in
/-- Without wrapping the segment ends with the last map. -/
theorem NoWrap.shmLen_eq {xs : List α} (h : NoWrap reg xs) :
    shmLen reg xs % 2 ^ 32 = mapsStart xs.length + totalLen reg xs ∧
      mapsStart xs.length = shmMapAt xs.length + paddingAfterShmMaps ∧
      mapsStart xs.length + totalLen reg xs < 2 ^ 32 := by
  simp only [NoWrap, shmLen, mapsStart, shmMapAt, sizeofShmMain, sizeofShmMap,
    paddingAfterShmMaps] at *
  omega

@[simp] theorem length_strncpy (n : Nat) (src : List UInt8) : (strncpy n src).length = n := by
  simp only [strncpy, List.length_append, List.length_take, List.length_replicate]
  omega

/-- The version in the header, after both strings have been copied. -/
theorem version_nameBuild (build : Build) (mem : Memory) :
    version (nameBuild build mem) = strncpy sfShmMemVersionLen build.sfBuildVersionStr := by
  have hstored := bytesAt_store mem versionAt (strncpy sfShmMemVersionLen build.sfBuildVersionStr)
  rw [length_strncpy] at hstored
  exact (bytesAt_congr fun a _ ha => store_of_lt _ ha).trans hstored

/-- The strings end before the other fields. -/
theorem nameBuild_of_ge (build : Build) (mem : Memory) {a : Nat} (h : syncLockAt ≤ a) :
    nameBuild build mem a = mem a := by
  have hlen (n : Nat) (src : List UInt8) : (strncpy n src).length = n := length_strncpy n src
  simp only [syncLockAt] at h
  rw [nameBuild, store_of_ge, store_of_ge]
  · rw [hlen]
    exact Nat.le_trans (by decide) h
  · rw [hlen]
    exact h

theorem recordStart_spec (preOffset : Nat) (mem : Memory) (h : preOffset < 2 ^ 32) :
    configMemStart (recordStart preOffset mem) = preOffset ∧
      configMemEnd (recordStart preOffset mem) = preOffset ∧
      ∀ a, mapCountAt ≤ a → recordStart preOffset mem a = mem a := by
  have hstart : configMemStart (storeU32 mem configMemStartAt preOffset) = preOffset := by
    rw [configMemStart, u32At_storeU32, Nat.mod_eq_of_lt h]
  simp only [recordStart, hstart]
  refine ⟨?_, ?_, fun a ha => ?_⟩
  · refine (u32At_congr fun i hi => ?_).trans hstart
    exact storeU32_of_lt _ (Nat.add_lt_add_left hi configMemStartAt)
  · rw [configMemEnd, u32At_storeU32, Nat.mod_eq_of_lt h]
  · have hend : configMemEndAt + 4 ≤ a := ha
    have hstart : configMemStartAt + 4 ≤ a := Nat.le_trans (by decide) ha
    rw [storeU32_of_ge _ hend, storeU32_of_ge _ hstart]

theorem finish_of_ge (len preOffset : Nat) (mem : Memory) {a : Nat} (h : configMemStartAt ≤ a) :
    finish len preOffset mem a = mem a := by
  have hstatus : statusAt + 4 ≤ a := Nat.le_trans (by decide) h
  have hfree : freeMemAt + 4 ≤ a := h
  have hused : usedMemAt + 4 ≤ a := Nat.le_trans (by decide) h
  rw [finish, storeU32_of_ge _ hstatus, storeU32_of_ge _ hfree, storeU32_of_ge _ hused]

variable {build : Build} {next : α → Option α} {head : Option α} {xs : List α}

/-- The start-up path until the layout begins. -/
theorem sfShmInit_eq (build : Build) (reg : α → Registration)
    (h : Seg next head xs none) (hfuel : xs.length ≤ fuel) :
    ∃ s : Segment α, sfShmInit build reg fuel next head = startShmMapMalloc build reg fuel s ∧
      s.len = shmLen reg xs % 2 ^ 32 ∧ mapCount s.mem = 0 ∧ s.registry.Lists reg xs ∧
      s.registry.next = next ∧ s.registry.headNext = head := by
  obtain ⟨r, hfresh, hlists, hnext, hhead⟩ := mainShmLen_fresh reg h hfuel
  simp only [sfShmInit, createAndLinkAllShm, initShmMain, hfresh, Option.bind_eq_bind,
    Option.bind_some, Option.pure_def]
  rw [hlists.mainShmLen_eq hfuel]
  exact ⟨_, rfl, rfl, u32At_storeU32 _ _ _, hlists, hnext, hhead⟩

/-- The registered list after `sort_shm_map_reg_outside`, with its counters. -/
theorem Registry.Lists.sort {r : Registry α} (h : r.Lists reg xs) (nodup : xs.Nodup)
    (hfuel : 2 * xs.length ≤ fuel) :
    ∃ next' headNext' cs ss,
      sortShmMapRegOutside reg fuel r.next r.headNext = some (next', headNext') ∧
      Registry.Lists reg { r with next := next', headNext := headNext' } (cs ++ ss) ∧
      Arranged reg xs cs ss := by
  obtain ⟨next', cs, ss, hrun, hseg, hconfigs, hstats, hsorted⟩ :=
    sortShmMapRegOutside_spec reg h.seg nodup hfuel
  have arranged : Arranged reg xs cs ss := ⟨hconfigs, hstats, hsorted⟩
  refine ⟨next', (cs ++ ss).head?, cs, ss, hrun, ⟨hseg, ?_, ?_⟩, arranged⟩
  · rw [arranged.perm.length_eq]
    exact h.count
  · rw [totalLen_perm arranged.perm]
    exact h.total


/-- If nothing wraps, start-up returns 0 and leaves a finished layout. -/
theorem sfShmInit_of_noWrap (h : Seg next head xs none) (nodup : xs.Nodup)
    (hfuel : 2 * xs.length ≤ fuel) (noWrap : NoWrap reg xs) (hversion : VersionOk build) :
    ∃ s cs ss, sfShmInit build reg fuel next head = some (0, s) ∧
      Layout reg s (cs ++ ss) ∧ Arranged reg xs cs ss := by
  obtain ⟨s, hinit, hslen, hcount, hlists, -, -⟩ :=
    sfShmInit_eq build reg h (show xs.length ≤ fuel by omega)
  obtain ⟨next', headNext', cs, ss, hsort, hsorted, arranged⟩ := hlists.sort nodup hfuel
  obtain ⟨rs, hrs⟩ : ∃ rs, rs = cs ++ ss := ⟨_, rfl⟩
  have perm : rs.Perm xs := hrs ▸ arranged.perm
  rw [← hrs] at hsorted
  have hrsfuel : rs.length ≤ fuel := by
    rw [perm.length_eq]
    omega
  obtain ⟨hshm, hstart, hlt⟩ := (noWrap.perm perm.symm).shmLen_eq
  -- step 1
  obtain ⟨t, ht⟩ : ∃ t : Segment α, t = { s with
      mem := store (nameBuild build s.mem) syncLockAt [0]
      registry := { s.registry with next := next', headNext := headNext' } } := ⟨_, rfl⟩
  have htlists : t.registry.Lists reg rs := ht ▸ hsorted
  have htlen : t.len = shmLen reg rs % 2 ^ 32 := by
    rw [ht, shmLen_perm perm]
    exact hslen
  have htcount : mapCount t.mem = 0 := by
    rw [← hcount, ht]
    refine u32At_congr fun i _ => ?_
    have hle : syncLockAt + 1 ≤ mapCountAt + i := Nat.le_trans (by decide) (Nat.le_add_right _ _)
    exact (store_of_ge hle).trans (nameBuild_of_ge build s.mem (Nat.le_of_succ_le hle))
  obtain ⟨m₁, hname, hcount₁, hnamed, -⟩ := nameLoop_spec reg htlists.seg hrsfuel
    (by omega) (show shmMapAt (mapCount t.mem + rs.length) ≤ t.len by
      rw [htcount, Nat.zero_add]
      omega)
  rw [htcount, Nat.zero_add] at hcount₁
  rw [htcount] at hnamed
  -- step 2
  obtain ⟨hstart₂, hend₂, hsame₂⟩ :=
    recordStart_spec (mapsStart rs.length) m₁ (Nat.mod_lt _ (by decide))
  obtain ⟨m₂, hm₂⟩ : ∃ m₂, m₂ = recordStart (mapsStart rs.length) m₁ := ⟨_, rfl⟩
  rw [← hm₂] at hstart₂ hend₂ hsame₂
  have hcount₂ : mapCount m₂ = rs.length := by
    rw [← hcount₁]
    exact u32At_congr fun i _ => hsame₂ _ (Nat.le_add_right _ _)
  have hnamed₂ : Named reg m₂ 0 rs :=
    hnamed.congr fun a ha _ => hsame₂ a (Nat.le_trans (by decide) ha)
  -- step 3
  obtain ⟨v, hoffset, hout⟩ := offsetLoop_spec (s := { t with mem := m₂ }) htlists hrsfuel
    hrsfuel htlists.seg hnamed₂ (by rw [hcount₂, Nat.zero_add])
    (show shmMapAt (0 + rs.length) ≤ mapsStart rs.length by
      rw [Nat.zero_add]
      omega)
    (show mapsStart rs.length + totalLen reg rs ≤ t.len by omega)
    (show t.len < 2 ^ 32 by omega) (show t.len ≤ shmLen reg rs from htlen ▸ Nat.mod_le _ _)
  have hvlists : v.registry.Lists reg rs := hout.registry ▸ htlists
  -- steps 4 and 5
  obtain ⟨m₃, hm₃⟩ : ∃ m₃, m₃ = finish (shmLen reg rs)
      (mapsStart rs.length + totalLen reg rs) v.mem := ⟨_, rfl⟩
  have hsame₃ : ∀ a, configMemStartAt ≤ a → m₃ a = v.mem a := fun a ha =>
    hm₃ ▸ finish_of_ge _ _ _ ha
  refine ⟨{ v with mem := m₃ }, cs, ss, ?_, ?_, arranged⟩
  · have hnot : ¬strlen (version (nameBuild build s.mem)) < sfShmMemVersionMinLen := by
      rw [version_nameBuild]
      exact Nat.not_lt.mpr hversion
    rw [ht] at hname
    rw [ht, hm₂] at hoffset
    simp only [mapsStart] at hoffset hm₃
    rw [hinit]
    simp only [startShmMapMalloc, if_neg hnot, hsort, Option.bind_eq_bind, Option.bind_some,
      hname, hcount₁, hoffset, ne_eq, not_true, if_false, hvlists.mainShmLen_eq hrsfuel, hm₃]
    rfl
  · rw [← hrs]
    refine ⟨hvlists, hout.len.trans htlen, ?_, ?_, ?_, ?_⟩
    · rw [← hcount₂]
      refine u32At_congr fun i hi => ?_
      refine (hsame₃ _ (Nat.le_trans (by decide) (Nat.le_add_right mapCountAt i))).trans ?_
      exact hout.before _ (.inr ⟨Nat.le_add_right _ _, Nat.add_lt_add_left hi mapCountAt⟩)
    · rw [← hstart₂]
      refine u32At_congr fun i hi => ?_
      refine (hsame₃ _ (Nat.le_add_right configMemStartAt i)).trans ?_
      exact hout.before _ (.inl (Nat.add_lt_add_left hi configMemStartAt))
    · have hend : configMemEnd m₃ = configMemEnd v.mem :=
        u32At_congr fun i _ => hsame₃ _ (Nat.le_trans (by decide) (Nat.le_add_right _ _))
      rw [hend, hout.configMemEnd, hstart₂, hend₂]
    · intro j hj
      obtain ⟨hname', hoffset', hlen'⟩ := @entry_congr v.mem m₃ (0 + j)
        fun a ha _ => hsame₃ a (Nat.le_trans (Nat.le_trans (by decide) (header_le _)) ha)
      rw [hname', hoffset', hlen']
      exact hout.placed j hj

/-! ## What start-up never changes -/

omit [DecidableEq α] in
theorem nameLoop_len {k : Nat} {p : Option α} {s s' : Segment α}
    (hrun : nameLoop reg k p s = some s') : s'.len = s.len := by
  induction k generalizing p s with
  | zero =>
      cases p with
      | none => rw [← Option.some.inj hrun]
      | some r => cases hrun
  | succ k ih =>
      cases p with
      | none => rw [← Option.some.inj hrun]
      | some r =>
          simp only [nameLoop] at hrun
          split at hrun
          · cases hrun
          · exact (ih hrun).trans rfl

theorem offsetLoop_len {k i preOffset : Nat} {p : Option α} {s : Segment α}
    {res : Int × Nat × Segment α} (hrun : offsetLoop reg fuel k i p preOffset s = some res) :
    res.2.2.len = s.len := by
  induction k generalizing i preOffset p s with
  | zero =>
      simp only [offsetLoop] at hrun
      split at hrun
      · rw [← Option.some.inj hrun]
      · cases hrun
  | succ k ih =>
      cases p with
      | none =>
          simp only [offsetLoop] at hrun
          split at hrun
          · rw [← Option.some.inj hrun]
          · cases hrun
      | some r =>
          simp only [offsetLoop] at hrun
          split at hrun
          · rw [← Option.some.inj hrun]
          split at hrun
          · rw [← Option.some.inj hrun]
          split at hrun
          · rw [← Option.some.inj hrun]
          split at hrun
          · cases hrun
          split at hrun
          · rw [← Option.some.inj hrun]
          split at hrun
          · exact (ih hrun).trans rfl
          · cases hrun

/-- Start-up returned 0: the segment has the length that was asked for, and the version of the
build is long enough. -/
theorem of_sfShmInit (h : Seg next head xs none) (hfuel : xs.length ≤ fuel) {s' : Segment α}
    (hrun : sfShmInit build reg fuel next head = some (0, s')) :
    s'.len = shmLen reg xs % 2 ^ 32 ∧ VersionOk build := by
  obtain ⟨s, hinit, hslen, -⟩ := sfShmInit_eq build reg h hfuel
  rw [hinit] at hrun
  simp only [startShmMapMalloc, Option.bind_eq_bind] at hrun
  split at hrun
  · simp at hrun
  next hversion =>
    rw [version_nameBuild] at hversion
    refine ⟨?_, Nat.not_lt.mp hversion⟩
    obtain ⟨⟨next', headNext'⟩, -, hrun⟩ := Option.bind_eq_some_iff.mp hrun
    obtain ⟨t, hname, hrun⟩ := Option.bind_eq_some_iff.mp hrun
    obtain ⟨⟨ret, pre, v⟩, hoffset, hrun⟩ := Option.bind_eq_some_iff.mp hrun
    have hvlen := offsetLoop_len hoffset
    have htlen := nameLoop_len hname
    simp only at hvlen htlen
    simp only at hrun
    split at hrun
    · next hret =>
        simp only [Option.pure_def, Option.some.injEq, Prod.mk.injEq] at hrun
        exact absurd hrun.1 hret
    · obtain ⟨⟨len, registry⟩, -, hrun⟩ := Option.bind_eq_some_iff.mp hrun
      simp only [Option.pure_def, Option.some.injEq, Prod.mk.injEq, true_and] at hrun
      rw [← hrun]
      exact hvlen.trans (htlen.trans hslen)

/-- Start-up returned 0 and nothing wrapped: the layout is finished. -/
theorem layout_of_sfShmInit (h : Seg next head xs none) (nodup : xs.Nodup)
    (hfuel : 2 * xs.length ≤ fuel) (noWrap : NoWrap reg xs) {s : Segment α}
    (hrun : sfShmInit build reg fuel next head = some (0, s)) :
    ∃ cs ss, Layout reg s (cs ++ ss) ∧ Arranged reg xs cs ss := by
  have hversion := (of_sfShmInit h (by omega) hrun).2
  obtain ⟨t, cs, ss, ht, hlayout, arranged⟩ := sfShmInit_of_noWrap h nodup hfuel noWrap hversion
  rw [hrun, Option.some.injEq, Prod.mk.injEq] at ht
  exact ⟨cs, ss, ht.2 ▸ hlayout, arranged⟩

end Tapplet.Shm
