import Tapplet.Shm.Sound
import Mathlib.Data.List.Range

/-!
# Saving and loading the configuration

`save_shm_config_to_file` writes the segment from its first byte to the last byte of the
configuration. `load_shm_config_from_file` checks the header and the maps of the
configuration against the segment and reads the configuration back. Both work in blocks
of 2048 bytes, the writer from offset 0 on and the reader from `config_mem_start` on.

A file is the list of its bytes; the file operations of the C library are assumed to succeed
and to return the bytes that were written.
-/

namespace Tapplet.Shm

/-- `SHM_COPY_BYTES_EACH_TIME` -/
def shmCopyBytesEachTime : Nat := 2048

/-- The bytes that `fread` has put into a local structure. -/
def structOf (bytes : List UInt8) : Memory := fun i => bytes.getD i 0

/-- The loop of `save_shm_config_to_file`, and the write of what is left after it. -/
def saveLoop (mem : Memory) (totalLen preOffset : Nat) (file : List UInt8) : List UInt8 :=
  if shmCopyBytesEachTime ≤ totalLen then
    saveLoop mem (totalLen - shmCopyBytesEachTime) ((preOffset + shmCopyBytesEachTime) % 2 ^ 32)
      (file ++ bytesAt mem preOffset shmCopyBytesEachTime)
  else if 0 < totalLen then file ++ bytesAt mem preOffset totalLen
  else file
termination_by totalLen
decreasing_by
  simp only [shmCopyBytesEachTime] at *
  omega

/-- `save_shm_config_to_file`: the value returned and the file. -/
def saveShmConfigToFile (mem : Memory) : Int × List UInt8 :=
  (0, saveLoop mem ((configMemEnd mem + 1) % 2 ^ 32) 0 [])

/-- `strncmp` on arrays of characters. -/
def strncmp : List UInt8 → List UInt8 → Int
  | a :: as, b :: bs =>
      if a ≠ b then (a.toNat : Int) - b.toNat else if a = 0 then 0 else strncmp as bs
  | _, _ => 0

/-- `check_sf_shm_main` -/
def checkSfShmMain (a b : Memory) : Int :=
  if strncmp (bytesAt a 0 sfShmMemVersionLen) (bytesAt b 0 sfShmMemVersionLen) ≠ 0 then -1
  else if configMemStart a ≠ configMemStart b ∨ configMemEnd a ≠ configMemEnd b ∨
      mapCount a ≠ mapCount b then -1
  else 0

/-- The loop that checks the maps of the configuration, for `k` maps from `i` on: `none` when
they agree, else the value returned. `rest` is what is left of the file. -/
def mapsLoop (mem : Memory) (endOffset : Nat) : Nat → Nat → List UInt8 → Option Int
  | 0, _, _ => none
  | k + 1, i, rest =>
      if endOffset < mapOffset mem i then none
      else if rest.length < sizeofShmMap then some (-1)
      else if rest.take sizeofShmMap ≠ bytesAt mem (shmMapAt i) sizeofShmMap then some (-2)
      else mapsLoop mem endOffset k (i + 1) (rest.drop sizeofShmMap)

/-- The loop that copies the configuration; `rest` is what is left of the file. -/
def copyLoop (endOffset preOffset : Nat) (rest : List UInt8) (mem : Memory) : Int × Memory :=
  if preOffset ≤ endOffset then
    if rest = [] then (-1, mem)
    else
      copyLoop endOffset ((preOffset + shmCopyBytesEachTime) % 2 ^ 32)
        (rest.drop shmCopyBytesEachTime)
        (store mem preOffset (rest.take shmCopyBytesEachTime))
  else (0, mem)
termination_by rest.length
decreasing_by
  have hpos := List.length_pos_iff.mpr ‹_›
  simp only [List.length_drop, shmCopyBytesEachTime]
  omega

/-- `load_shm_config_from_file`: the value returned and the segment afterwards. -/
def loadShmConfigFromFile (file : List UInt8) (mem : Memory) : Int × Memory :=
  let startOffset := configMemStart mem
  let endOffset := configMemEnd mem
  if file.length < (endOffset + 1) % 2 ^ 32 then (-2, mem)
  else
    let shmMainBuffer := file.take sizeofShmMain
    if shmMainBuffer = [] then (-1, mem)
    else if shmMainBuffer.length < sizeofShmMain then (-2, mem)
    else if checkSfShmMain mem (structOf shmMainBuffer) ≠ 0 then (-2, mem)
    else
      match mapsLoop mem endOffset (mapCount mem) 0 (file.drop sizeofShmMain) with
      | some ret => (ret, mem)
      | none => copyLoop endOffset startOffset (file.drop startOffset) mem

/-- The file that is written holds the bytes up to the end of the configuration. -/
theorem saveLoop_eq (mem : Memory) {totalLen preOffset : Nat} (file : List UInt8)
    (h : preOffset + totalLen < 2 ^ 32) :
    saveLoop mem totalLen preOffset file = file ++ bytesAt mem preOffset totalLen := by
  induction totalLen using Nat.strong_induction_on generalizing preOffset file with
  | h totalLen ih =>
      rw [saveLoop]
      by_cases hblock : shmCopyBytesEachTime ≤ totalLen
      · obtain ⟨rest, rfl⟩ := Nat.exists_eq_add_of_le hblock
        have hpos : 0 < shmCopyBytesEachTime := by decide
        rw [if_pos hblock, Nat.mod_eq_of_lt (by omega), Nat.add_sub_cancel_left,
          ih rest (by omega) _ (by omega), List.append_assoc, ← bytesAt_add]
      · rw [if_neg hblock]
        split
        · rfl
        · next h0 => rw [Nat.eq_zero_of_not_pos h0, bytesAt, List.range'_zero, List.map_nil,
            List.append_nil]

@[simp] theorem strncmp_self (bytes : List UInt8) : strncmp bytes bytes = 0 := by
  induction bytes with
  | nil => rfl
  | cons b bytes ih =>
      rw [strncmp, if_neg (by simp), ih]
      split <;> rfl

/-- The header fields that saving and loading read, and the table of maps, agree. -/
def SameLayout (mem mem' : Memory) : Prop :=
  ∀ a, a < sfShmMemVersionLen ∨ 76 ≤ a ∧ a < shmMapAt (mapCount mem) → mem' a = mem a

/-- The segment holds a layout: the configuration starts behind the table of maps, and its
inclusive end and the byte after it are offsets. -/
structure HoldsLayout (mem : Memory) : Prop where
  table : shmMapAt (mapCount mem) ≤ configMemStart mem
  region : configMemStart mem ≤ configMemEnd mem + 1
  bound : configMemEnd mem + 1 < 2 ^ 32

variable {mem mem' : Memory}

theorem SameLayout.u32At_eq (h : SameLayout mem mem') {a : Nat} (h₁ : 76 ≤ a)
    (h₂ : a + 4 ≤ shmMapAt (mapCount mem)) : u32At mem' a = u32At mem a :=
  u32At_congr fun i hi => h (a + i) (.inr ⟨by omega, by omega⟩)

namespace SameLayout

variable (h : SameLayout mem mem')
include h

theorem configMemStart_eq : configMemStart mem' = configMemStart mem :=
  h.u32At_eq (by decide) (Nat.le_trans (by decide) (header_le _))

theorem configMemEnd_eq : configMemEnd mem' = configMemEnd mem :=
  h.u32At_eq (by decide) (Nat.le_trans (by decide) (header_le _))

theorem mapCount_eq : mapCount mem' = mapCount mem :=
  h.u32At_eq (by decide) (Nat.le_trans (by decide) (header_le _))

end SameLayout

/-- What a local structure reads from a file that was written from memory. -/
theorem structOf_u32At {n a : Nat} (h : a + 4 ≤ n) :
    u32At (structOf (bytesAt mem 0 n)) a = u32At mem a :=
  u32At_congr fun i hi => by rw [structOf, getD_bytesAt mem 0 (by omega), Nat.zero_add]

theorem checkSfShmMain_eq (same : SameLayout mem mem') :
    checkSfShmMain mem' (structOf (bytesAt mem 0 sizeofShmMain)) = 0 := by
  have hversion : bytesAt (structOf (bytesAt mem 0 sizeofShmMain)) 0 sfShmMemVersionLen =
      bytesAt mem' 0 sfShmMemVersionLen := by
    refine bytesAt_congr fun a _ ha => ?_
    rw [Nat.zero_add] at ha
    have ha' : a < sizeofShmMain := Nat.lt_trans ha (by decide)
    rw [structOf, getD_bytesAt mem 0 ha', Nat.zero_add]
    exact (same a (.inl ha)).symm
  have hstart : configMemStart (structOf (bytesAt mem 0 sizeofShmMain)) = configMemStart mem :=
    structOf_u32At (by decide)
  have hend : configMemEnd (structOf (bytesAt mem 0 sizeofShmMain)) = configMemEnd mem :=
    structOf_u32At (by decide)
  have hcount : mapCount (structOf (bytesAt mem 0 sizeofShmMain)) = mapCount mem :=
    structOf_u32At (by decide)
  simp only [checkSfShmMain, hversion, strncmp_self, hstart, hend, hcount,
    same.configMemStart_eq, same.configMemEnd_eq, same.mapCount_eq, ne_eq, not_true, or_self,
    if_false]

/-- The maps that the file holds agree with the table. -/
theorem mapsLoop_eq (same : SameLayout mem mem') {k i len endOffset : Nat}
    (hk : i + k = mapCount mem) (hlen : shmMapAt (mapCount mem) ≤ shmMapAt i + len) :
    mapsLoop mem' endOffset k i (bytesAt mem (shmMapAt i) len) = none := by
  induction k generalizing i len with
  | zero => rfl
  | succ k ih =>
      have hnext : shmMapAt i + sizeofShmMap = shmMapAt (i + 1) := by
        simp only [shmMapAt, sizeofShmMap]
        omega
      have hle : shmMapAt (i + 1) ≤ shmMapAt (mapCount mem) := by
        simp only [shmMapAt, sizeofShmMap]
        omega
      have hroom : sizeofShmMap ≤ len := by omega
      have hsame : bytesAt mem' (shmMapAt i) sizeofShmMap = bytesAt mem (shmMapAt i) sizeofShmMap :=
        bytesAt_congr fun a ha hlt => same a (.inr ⟨by have := header_le i; omega, by omega⟩)
      rw [mapsLoop]
      split
      · rfl
      · rw [if_neg (by simpa using hroom), bytesAt_take mem _ hroom, hsame, if_neg (by simp),
          bytesAt_drop mem _ hroom, hnext]
        exact ih (by omega) (by omega)

/-- The offset of the reader stays a `uint32_t`: it does not run over behind the last block
of the region. -/
def BlocksFit (startOffset endOffset : Nat) : Prop :=
  endOffset < startOffset ∨
    startOffset + shmCopyBytesEachTime * ((endOffset - startOffset) / shmCopyBytesEachTime + 1) <
      2 ^ 32

instance (startOffset endOffset : Nat) : Decidable (BlocksFit startOffset endOffset) :=
  inferInstanceAs (Decidable (_ ∨ _))

/-- The memory after the bytes of `src` have been read into the region. -/
def restored (src : Memory) (startOffset endOffset : Nat) (mem : Memory) : Memory :=
  fun a => if startOffset ≤ a ∧ a ≤ endOffset then src a else mem a

theorem store_bytesAt (src mem : Memory) (offset n : Nat) :
    store mem offset (bytesAt src offset n) =
      fun a => if offset ≤ a ∧ a < offset + n then src a else mem a := by
  funext a
  simp only [store, length_bytesAt]
  split
  · next h => rw [getD_bytesAt src offset (by omega), Nat.add_sub_cancel' h.1]
  · rfl

/-- The copy restores the whole region. It returns 0 unless its offset runs over: then it
goes on at the end of the file and fails. -/
theorem copyLoop_eq (src mem : Memory) {preOffset endOffset : Nat}
    (hpre : preOffset ≤ endOffset + 1) (hend : endOffset + 1 < 2 ^ 32) :
    copyLoop endOffset preOffset (bytesAt src preOffset (endOffset + 1 - preOffset)) mem =
      (if BlocksFit preOffset endOffset then 0 else -1,
        restored src preOffset endOffset mem) := by
  obtain ⟨n, hn⟩ : ∃ n, n = endOffset + 1 - preOffset := ⟨_, rfl⟩
  rw [← hn]
  induction n using Nat.strong_induction_on generalizing preOffset mem with
  | h n ih =>
      rw [copyLoop]
      rcases Nat.eq_zero_or_pos n with rfl | hpos
      · rw [if_neg (by omega), if_pos (.inl (by omega))]
        refine Prod.ext rfl (funext fun a => ?_)
        exact (if_neg (by omega)).symm
      · have hne : bytesAt src preOffset n ≠ [] := by
          rw [← List.length_pos_iff, length_bytesAt]
          exact hpos
        rw [if_pos (by omega), if_neg hne]
        rcases Nat.lt_or_ge shmCopyBytesEachTime n with hmore | hlast
        · have hlt : preOffset + shmCopyBytesEachTime < 2 ^ 32 := by omega
          rw [bytesAt_take src _ hmore.le, bytesAt_drop src _ hmore.le, Nat.mod_eq_of_lt hlt,
            ih (n - shmCopyBytesEachTime) (Nat.sub_lt hpos (by decide)) _ (by omega) (by omega),
            store_bytesAt]
          have hfit : BlocksFit (preOffset + shmCopyBytesEachTime) endOffset ↔
              BlocksFit preOffset endOffset := by
            simp only [BlocksFit, shmCopyBytesEachTime] at *
            omega
          simp only [hfit]
          refine Prod.ext rfl (funext fun a => ?_)
          simp only [restored]
          split <;> split <;> first | rfl | (split <;> first | rfl | omega) | omega
        · have hdrop : (bytesAt src preOffset n).drop shmCopyBytesEachTime = [] := by
            rw [List.drop_eq_nil_iff, length_bytesAt]
            exact hlast
          have htake : (bytesAt src preOffset n).take shmCopyBytesEachTime =
              bytesAt src preOffset n := List.take_of_length_le (by simpa using hlast)
          have hmem : store mem preOffset (bytesAt src preOffset n) =
              restored src preOffset endOffset mem := by
            rw [store_bytesAt]
            funext a
            simp only [restored]
            congr 1
            exact propext ⟨fun h => ⟨h.1, by omega⟩, fun h => ⟨h.1, by omega⟩⟩
          rw [hdrop, htake, hmem, copyLoop]
          have hdiv : (endOffset - preOffset) / shmCopyBytesEachTime = 0 :=
            Nat.div_eq_of_lt (by omega)
          simp only [BlocksFit, hdiv, Nat.zero_add, Nat.mul_one]
          rcases Nat.lt_or_ge (preOffset + shmCopyBytesEachTime) (2 ^ 32) with hlt | hge
          · rw [Nat.mod_eq_of_lt hlt, if_neg (by omega), if_pos (.inr hlt)]
          · have hwrap : (preOffset + shmCopyBytesEachTime) % 2 ^ 32 ≤ endOffset := by
              simp only [shmCopyBytesEachTime] at *
              omega
            rw [if_pos hwrap, if_true, if_neg (by omega)]

/-- What loading a file returns that was saved under the same layout. -/
theorem loadShmConfigFromFile_save (h : HoldsLayout mem) (same : SameLayout mem mem') :
    loadShmConfigFromFile (saveShmConfigToFile mem).2 mem' =
      (if BlocksFit (configMemStart mem) (configMemEnd mem) then 0 else -1,
        restored mem (configMemStart mem) (configMemEnd mem) mem') := by
  have hbound := h.bound
  have hregion := h.region
  have htable := h.table
  have hheader := header_le (mapCount mem)
  have hfile : (saveShmConfigToFile mem).2 = bytesAt mem 0 (configMemEnd mem + 1) := by
    simp only [saveShmConfigToFile, Nat.mod_eq_of_lt hbound]
    rw [saveLoop_eq mem [] (by omega), List.nil_append]
  have hsize : sizeofShmMain ≤ configMemEnd mem + 1 := by
    simp only [sizeofShmMain]
    omega
  have hmaps : mapsLoop mem' (configMemEnd mem) (mapCount mem) 0
      (bytesAt mem (shmMapAt 0) (configMemEnd mem + 1 - sizeofShmMain)) = none := by
    refine mapsLoop_eq same (Nat.zero_add _) ?_
    simp only [shmMapAt, sizeofShmMain, sizeofShmMap] at *
    omega
  have hcopy := copyLoop_eq mem mem' hregion hbound
  simp only [loadShmConfigFromFile, hfile, same.configMemStart_eq, same.configMemEnd_eq,
    same.mapCount_eq, length_bytesAt, Nat.mod_eq_of_lt hbound, Nat.lt_irrefl, if_false,
    bytesAt_take mem 0 hsize, bytesAt_drop mem 0 hsize, bytesAt_drop mem 0 hregion,
    checkSfShmMain_eq same, ne_eq, not_true, Nat.zero_add]
  rw [if_neg (by rw [← List.length_eq_zero_iff, length_bytesAt]; decide)]
  simp only [shmMapAt, Nat.mul_zero, Nat.add_zero] at hmaps
  rw [hmaps]
  exact hcopy

/-- Saving and then loading under the same layout: both return 0 and every byte of the
region is restored exactly if the offset of the reader does not run over. -/
theorem save_load_iff (mem mem' : Memory) (h : HoldsLayout mem) (same : SameLayout mem mem') :
    ((saveShmConfigToFile mem).1 = 0 ∧
      (loadShmConfigFromFile (saveShmConfigToFile mem).2 mem').1 = 0 ∧
      ∀ a, configMemStart mem ≤ a → a ≤ configMemEnd mem →
        (loadShmConfigFromFile (saveShmConfigToFile mem).2 mem').2 a = mem a) ↔
    BlocksFit (configMemStart mem) (configMemEnd mem) := by
  rw [loadShmConfigFromFile_save h same]
  constructor
  · rintro ⟨-, hret, -⟩
    by_contra hfit
    simp [hfit] at hret
  · intro hfit
    refine ⟨rfl, by simp [hfit], fun a hle hge => ?_⟩
    exact if_pos ⟨hle, hge⟩

/-- The recorded end is not behind the maps. -/
theorem regionEnd_le {α : Type*} {reg : α → Registration} {start preOffset e : Nat}
    {rs : List α} (hpos : 0 < preOffset) (hlt : preOffset + totalLen reg rs < 2 ^ 32) :
    regionEnd reg start rs preOffset e + 1 ≤ max (e + 1) (preOffset + totalLen reg rs) := by
  induction rs generalizing preOffset e with
  | nil => exact Nat.le_max_left _ _
  | cons r rs ih =>
      rw [totalLen_cons, ← Nat.add_assoc] at hlt ⊢
      refine (ih (by omega) hlt).trans (Nat.max_le.mpr ⟨?_, Nat.le_max_right _ _⟩)
      split
      · omega
      · exact Nat.le_max_left _ _

/-- Every finished layout that ends below `2 ^ 32` is one that can be saved. -/
theorem Layout.holdsLayout {α : Type*} {reg : α → Registration} {rs : List α} {s : Segment α}
    (h : Layout reg s rs) (noWrap : NoWrap reg rs) : HoldsLayout s.mem := by
  obtain ⟨-, hstart, htotal⟩ := noWrap.shmLen_eq
  have htable : shmMapAt rs.length = 88 + 40 * rs.length := rfl
  have hpadding : paddingAfterShmMaps = 40 := rfl
  have hpos : 0 < mapsStart rs.length := by omega
  have hge := start_le_regionEnd (Nat.le_refl (mapsStart rs.length))
    (Nat.le_succ (mapsStart rs.length)) htotal
  have hle : regionEnd reg (mapsStart rs.length) rs (mapsStart rs.length)
      (mapsStart rs.length) + 1 ≤
      max (mapsStart rs.length + 1) (mapsStart rs.length + totalLen reg rs) :=
    regionEnd_le hpos htotal
  refine ⟨?_, ?_, ?_⟩
  · rw [h.mapCount, h.configMemStart, hstart]
    exact Nat.le_add_right _ _
  · rw [h.configMemStart, h.configMemEnd]
    exact hge
  · rw [h.configMemEnd]
    refine Nat.lt_of_le_of_lt hle (Nat.max_lt.mpr ⟨?_, htotal⟩)
    omega

/-- The configuration of the sample registrations when it is saved. -/
def savedContent (mem : Memory) : Memory := store mem 208 [1, 2, 3, 4, 5, 6, 7, 8]

/-- The same segment when the configuration has been changed. -/
def laterContent (mem : Memory) : Memory := store mem 208 [9, 9, 0]

theorem save_load_iff_sample : ∃ s,
    sfShmInit sampleBuild sampleReg 4 sampleNext (some true) = some (0, s) ∧
      BlocksFit (configMemStart (savedContent s.mem)) (configMemEnd (savedContent s.mem)) ∧
      (((saveShmConfigToFile (savedContent s.mem)).1 = 0 ∧
        (loadShmConfigFromFile (saveShmConfigToFile (savedContent s.mem)).2
          (laterContent s.mem)).1 = 0 ∧
        ∀ a, configMemStart (savedContent s.mem) ≤ a → a ≤ configMemEnd (savedContent s.mem) →
          (loadShmConfigFromFile (saveShmConfigToFile (savedContent s.mem)).2
            (laterContent s.mem)).2 a = savedContent s.mem a) ↔
      BlocksFit (configMemStart (savedContent s.mem)) (configMemEnd (savedContent s.mem))) := by
  obtain ⟨s, hrun, hmem⟩ := exists_sfShmInit sampleBuild sampleReg 4 sampleNext (some true)
    (fun mem => configMemStart mem = 208 && (configMemEnd mem = 215 && mapCount mem = 2))
    (by decide +kernel)
  simp only [Bool.and_eq_true, decide_eq_true_eq] at hmem
  have hfield : ∀ offset, offset + 4 ≤ 208 →
      u32At (savedContent s.mem) offset = u32At s.mem offset := fun offset hle =>
    u32At_congr fun i hi => store_of_lt _ (by omega)
  have hstart : configMemStart (savedContent s.mem) = 208 :=
    (hfield _ (by decide)).trans hmem.1
  have hend : configMemEnd (savedContent s.mem) = 215 := (hfield _ (by decide)).trans hmem.2.1
  have hcount : mapCount (savedContent s.mem) = 2 := (hfield _ (by decide)).trans hmem.2.2
  have same : SameLayout (savedContent s.mem) (laterContent s.mem) := by
    intro a ha
    rw [hcount] at ha
    have hlt : a < 208 := by
      simp only [sfShmMemVersionLen, shmMapAt, sizeofShmMain, sizeofShmMap] at ha
      omega
    exact (store_of_lt _ hlt).trans (store_of_lt _ hlt).symm
  refine ⟨s, hrun, ?_, save_load_iff (savedContent s.mem) (laterContent s.mem) ⟨?_, ?_, ?_⟩ same⟩
  · rw [hstart, hend]
    decide
  · rw [hstart, hcount]
    decide
  · rw [hstart, hend]
    decide
  · rw [hend]
    decide

/-- A configuration that ends three bytes below `2 ^ 32`, and one byte of statistics. -/
def largeReg : Bool → Registration
  | false => { sampleReg false with
      len := 4294967086
      len_lt := by decide
      init_lt := by simp [sampleReg] }
  | true => { sampleReg true with
      len := 1
      len_lt := by decide
      init_lt := by simp [sampleReg] }

/-- With that layout, loading what has just been saved fails. -/
theorem load_fails : ∃ s,
    sfShmInit sampleBuild largeReg 4 sampleNext (some true) = some (0, s) ∧
      HoldsLayout s.mem ∧
      (loadShmConfigFromFile (saveShmConfigToFile s.mem).2 s.mem).1 = -1 := by
  have hseg : Linked.Seg sampleNext (some true) [true, false] none := by simp [sampleNext]
  have noWrap : NoWrap largeReg [true, false] := by decide
  obtain ⟨s, cs, ss, hrun, hlayout, arranged⟩ :=
    sfShmInit_of_noWrap hseg (by decide) (Nat.le_refl 4) noWrap sampleBuild_versionOk
  obtain rfl : cs = [false] :=
    List.perm_singleton.mp (by simpa [largeReg, sampleReg] using arranged.configs)
  obtain rfl : ss = [true] := by simpa [largeReg, sampleReg] using arranged.stats
  have holds := hlayout.holdsLayout (noWrap.perm arranged.perm.symm)
  refine ⟨s, hrun, holds, ?_⟩
  have hstart : configMemStart s.mem = 208 := hlayout.configMemStart
  have hend : configMemEnd s.mem = 4294967293 := hlayout.configMemEnd.trans (by decide)
  have hfit : ¬BlocksFit 208 4294967293 := by decide
  rw [loadShmConfigFromFile_save holds fun _ _ => rfl, hstart, hend]
  simp only [hfit, if_false]

end Tapplet.Shm
