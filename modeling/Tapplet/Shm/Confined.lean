import Tapplet.Shm.Saved

/-!
# What loading a configuration overwrites

`load_shm_config_from_file` compares the file with the segment before it copies anything, so a
file that is rejected changes nothing. The copy reads whole blocks straight into the segment.
The last block is not cut at the end of the configuration, only at the end of the file: when the
file is longer than the configuration, what follows it in the segment is overwritten, unless the
blocks happen to end with the region.
-/

namespace Tapplet.Shm

variable {mem : Memory} {file : List UInt8}

/-- The checks of `load_shm_config_from_file`: the value returned when they reject the file. -/
def rejects (file : List UInt8) (mem : Memory) : Option Int :=
  if file.length < (configMemEnd mem + 1) % 2 ^ 32 then some (-2)
  else if file.take sizeofShmMain = [] then some (-1)
  else if (file.take sizeofShmMain).length < sizeofShmMain then some (-2)
  else if checkSfShmMain mem (structOf (file.take sizeofShmMain)) ≠ 0 then some (-2)
  else mapsLoop mem (configMemEnd mem) (mapCount mem) 0 (file.drop sizeofShmMain)

/-- The calls of `fread` into the segment that the copying loop makes: the offset in the segment
and the bytes that are read. -/
def copyReads (endOffset preOffset : Nat) (rest : List UInt8) : List (Nat × List UInt8) :=
  if preOffset ≤ endOffset then
    if rest = [] then []
    else
      (preOffset, rest.take shmCopyBytesEachTime) ::
        copyReads endOffset ((preOffset + shmCopyBytesEachTime) % 2 ^ 32)
          (rest.drop shmCopyBytesEachTime)
  else []
termination_by rest.length
decreasing_by
  have hpos := List.length_pos_iff.mpr ‹_›
  simp only [List.length_drop, shmCopyBytesEachTime]
  omega

/-- All reads into the segment that loading the file makes. -/
def loadReads (file : List UInt8) (mem : Memory) : List (Nat × List UInt8) :=
  if rejects file mem = none then
    copyReads (configMemEnd mem) (configMemStart mem) (file.drop (configMemStart mem))
  else []

/-- A read that stays inside the configuration. -/
def Confined (mem : Memory) (r : Nat × List UInt8) : Prop :=
  configMemStart mem ≤ r.1 ∧ r.1 + r.2.length ≤ configMemEnd mem + 1

/-! ## The reads are all that happens -/

theorem copyLoop_reads (endOffset preOffset : Nat) (rest : List UInt8) (mem : Memory) :
    (copyLoop endOffset preOffset rest mem).2 =
      (copyReads endOffset preOffset rest).foldl (fun m r => store m r.1 r.2) mem := by
  induction h : rest.length using Nat.strong_induction_on generalizing preOffset rest mem with
  | h n ih =>
      rw [copyLoop, copyReads]
      split
      next hmore =>
        split
        next => rfl
        next hne =>
          have hpos := List.length_pos_iff.mpr hne
          rw [List.foldl_cons]
          apply ih _ _ _ _ _ rfl
          simp only [List.length_drop, shmCopyBytesEachTime]
          omega
      next => rfl

/-- A file that is rejected leaves the segment as it is. -/
theorem load_of_rejects {ret : Int} (h : rejects file mem = some ret) :
    loadShmConfigFromFile file mem = (ret, mem) := by
  simp only [rejects] at h
  simp only [loadShmConfigFromFile]
  split at h
  next hlen => rw [if_pos hlen, Option.some.inj h]
  next hlen =>
  rw [if_neg hlen]
  split at h
  next hempty => rw [if_pos hempty, Option.some.inj h]
  next hempty =>
  rw [if_neg hempty]
  split at h
  next hmain => rw [if_pos hmain, Option.some.inj h]
  next hmain =>
  rw [if_neg hmain]
  split at h
  next hcheck => rw [if_pos hcheck, Option.some.inj h]
  next hcheck => rw [if_neg hcheck, h]

/-- A file that is not rejected is copied. -/
theorem load_of_accepts (h : rejects file mem = none) :
    loadShmConfigFromFile file mem = copyLoop (configMemEnd mem) (configMemStart mem)
      (file.drop (configMemStart mem)) mem := by
  simp only [rejects] at h
  simp only [loadShmConfigFromFile]
  split at h
  next => cases h
  next hlen =>
  rw [if_neg hlen]
  split at h
  next => cases h
  next hempty =>
  rw [if_neg hempty]
  split at h
  next => cases h
  next hmain =>
  rw [if_neg hmain]
  split at h
  next => cases h
  next hcheck => rw [if_neg hcheck, h]

/-- The segment afterwards is the one before with the reads in it. -/
theorem load_eq_reads (file : List UInt8) (mem : Memory) :
    (loadShmConfigFromFile file mem).2 =
      (loadReads file mem).foldl (fun m r => store m r.1 r.2) mem := by
  cases h : rejects file mem with
  | none =>
      rw [load_of_accepts h, copyLoop_reads, loadReads, if_pos h]
  | some ret =>
      have hsome : rejects file mem ≠ none := by simp [h]
      rw [load_of_rejects h, loadReads, if_neg hsome]
      rfl

/-! ## The reads of the copy -/

theorem copyReads_nil (endOffset preOffset : Nat) : copyReads endOffset preOffset [] = [] := by
  rw [copyReads, if_pos rfl, ite_self]

/-- From `preOffset` on the reads stay inside the region exactly when the file ends with it, or
the blocks do. -/
theorem copyReads_confined_iff {start endOffset preOffset : Nat} {rest : List UInt8}
    (hstart : start ≤ preOffset) (hpre : preOffset ≤ endOffset + 1) (hend : endOffset + 1 < 2 ^ 32)
    (hrest : endOffset + 1 ≤ preOffset + rest.length) :
    (∀ r ∈ copyReads endOffset preOffset rest,
        start ≤ r.1 ∧ r.1 + r.2.length ≤ endOffset + 1) ↔
      preOffset + rest.length ≤ endOffset + 1 ∨
        shmCopyBytesEachTime ∣ endOffset + 1 - preOffset := by
  induction h : rest.length using Nat.strong_induction_on generalizing preOffset rest with
  | h len ih =>
      subst h
      rw [copyReads]
      by_cases hdone : endOffset < preOffset
      · have hzero : endOffset + 1 - preOffset = 0 := by omega
        rw [if_neg (by omega), hzero]
        exact iff_of_true (by simp) (.inr (Nat.dvd_zero _))
      have hpos : 0 < rest.length := by omega
      rw [if_pos (by omega), if_neg (List.length_pos_iff.mp hpos), List.forall_mem_cons,
        List.length_take]
      by_cases hlast : endOffset + 1 < preOffset + shmCopyBytesEachTime
      · -- the last block is cut by the end of the file only
        have hnot : ¬shmCopyBytesEachTime ∣ endOffset + 1 - preOffset :=
          Nat.not_dvd_of_pos_of_lt (by omega) (by omega)
        rw [or_iff_left hnot]
        constructor
        · rintro ⟨⟨-, hle⟩, -⟩
          omega
        · intro hle
          have hdrop : rest.drop shmCopyBytesEachTime = [] := by
            rw [List.drop_eq_nil_iff]
            omega
          rw [hdrop, copyReads_nil]
          exact ⟨⟨hstart, by omega⟩, by simp⟩
      · have hdvd : shmCopyBytesEachTime ∣ endOffset + 1 - preOffset ↔
            shmCopyBytesEachTime ∣ endOffset + 1 - (preOffset + shmCopyBytesEachTime) := by
          have hle : shmCopyBytesEachTime ≤ endOffset + 1 - preOffset := by omega
          rw [← Nat.sub_sub, Nat.dvd_sub_iff_left hle (Nat.dvd_refl _)]
        have hlen := @List.length_drop _ shmCopyBytesEachTime rest
        have hblock : 0 < shmCopyBytesEachTime := by decide
        rw [Nat.mod_eq_of_lt (by omega), ih _ (by omega) (by omega) (by omega) (by omega) rfl,
          ← hdvd]
        constructor
        · rintro ⟨-, hle | hdiv⟩
          · exact .inl (by omega)
          · exact .inr hdiv
        · rintro (hle | hdiv)
          · exact ⟨⟨hstart, by omega⟩, .inl (by omega)⟩
          · exact ⟨⟨hstart, by omega⟩, .inr hdiv⟩

/-- Loading touches only the configuration, whatever the file holds, if and only if the file is
rejected, or it ends with the configuration, or the configuration is a whole number of blocks
long. A file that is rejected changes nothing in any case. -/
theorem load_confined_iff (h : HoldsLayout mem) (file : List UInt8) :
    ((∀ r ∈ loadReads file mem, Confined mem r) ∧
      ∀ ret, rejects file mem = some ret → loadShmConfigFromFile file mem = (ret, mem)) ↔
    rejects file mem ≠ none ∨ file.length ≤ configMemEnd mem + 1 ∨
      shmCopyBytesEachTime ∣ configMemEnd mem + 1 - configMemStart mem := by
  rw [and_iff_left fun ret hret => load_of_rejects hret]
  by_cases haccept : rejects file mem = none
  · have hlen : configMemEnd mem + 1 ≤ file.length := by
      rw [rejects, Nat.mod_eq_of_lt h.bound] at haccept
      split at haccept
      next => cases haccept
      next hlen => omega
    have hregion := h.region
    have hdrop := @List.length_drop _ (configMemStart mem) file
    rw [or_iff_right (not_not.mpr haccept), loadReads, if_pos haccept]
    refine (copyReads_confined_iff (Nat.le_refl _) h.region h.bound (by omega)).trans
      (or_congr_left ?_)
    omega
  · rw [loadReads, if_neg haccept]
    exact iff_of_true (by simp) (.inl haccept)

/-! ## A file that is too long -/

/-- The segment that start-up makes for the sample registrations holds a layout, and the file that
is saved from it is accepted, also with a byte behind it. -/
theorem exists_sampleSegment : ∃ s,
    sfShmInit sampleBuild sampleReg 4 sampleNext (some true) = some (0, s) ∧
      configMemStart s.mem = 208 ∧ configMemEnd s.mem = 215 ∧ mapCount s.mem = 2 ∧
      rejects (bytesAt s.mem 0 216 ++ [7]) s.mem = none ∧
      (bytesAt s.mem 0 216 ++ [7]).drop 208 = List.replicate 8 0 ++ [7] ∧ s.mem 216 = 0 := by
  obtain ⟨s, hrun, hmem⟩ := exists_sfShmInit sampleBuild sampleReg 4 sampleNext (some true)
    (fun mem => configMemStart mem = 208 && (configMemEnd mem = 215 && (mapCount mem = 2 &&
      (rejects (bytesAt mem 0 216 ++ [7]) mem = none &&
        ((bytesAt mem 0 216 ++ [7]).drop 208 = List.replicate 8 0 ++ [7] && mem 216 = 0)))))
    (by decide +kernel)
  simp only [Bool.and_eq_true, decide_eq_true_eq] at hmem
  exact ⟨s, hrun, hmem⟩

theorem load_confined_iff_saved : ∃ s,
    sfShmInit sampleBuild sampleReg 4 sampleNext (some true) = some (0, s) ∧
      (((∀ r ∈ loadReads (bytesAt s.mem 0 216) s.mem, Confined s.mem r) ∧
        ∀ ret, rejects (bytesAt s.mem 0 216) s.mem = some ret →
          loadShmConfigFromFile (bytesAt s.mem 0 216) s.mem = (ret, s.mem)) ↔
      rejects (bytesAt s.mem 0 216) s.mem ≠ none ∨
        (bytesAt s.mem 0 216).length ≤ configMemEnd s.mem + 1 ∨
        shmCopyBytesEachTime ∣ configMemEnd s.mem + 1 - configMemStart s.mem) := by
  obtain ⟨s, hrun, hstart, hend, hcount, -⟩ := exists_sampleSegment
  refine ⟨s, hrun, load_confined_iff ⟨?_, ?_, ?_⟩ _⟩
  · rw [hstart, hcount]
    decide
  · rw [hstart, hend]
    decide
  · rw [hend]
    decide

/-- The last byte of the file lands in the statistics, and the function returns 0. -/
theorem load_overwrites : ∃ s,
    sfShmInit sampleBuild sampleReg 4 sampleNext (some true) = some (0, s) ∧
      ¬(∀ r ∈ loadReads (bytesAt s.mem 0 216 ++ [7]) s.mem, Confined s.mem r) ∧
      (loadShmConfigFromFile (bytesAt s.mem 0 216 ++ [7]) s.mem).1 = 0 ∧
      configMemEnd s.mem = 215 ∧ s.mem 216 = 0 ∧
      (loadShmConfigFromFile (bytesAt s.mem 0 216 ++ [7]) s.mem).2 216 = 7 := by
  obtain ⟨s, hrun, hstart, hend, -, haccepted, hrest, hstat⟩ := exists_sampleSegment
  have hreads : loadReads (bytesAt s.mem 0 216 ++ [7]) s.mem =
      [(208, List.replicate 8 0 ++ [7])] := by
    rw [loadReads, if_pos haccepted, hstart, hend, hrest, copyReads, if_pos (by decide),
      if_neg (by decide)]
    exact congrArg (List.cons _) (copyReads_nil _ _)
  refine ⟨s, hrun, ?_, ?_, hend, hstat, ?_⟩
  · rw [hreads]
    intro h
    have hle := (h _ (List.mem_singleton_self _)).2
    rw [hend] at hle
    exact absurd hle (by decide)
  · rw [load_of_accepts haccepted, hstart, hend, hrest, copyLoop, if_pos (by decide),
      if_neg (by decide), copyLoop, if_neg (by decide)]
  · rw [load_eq_reads, hreads]
    rfl

end Tapplet.Shm
