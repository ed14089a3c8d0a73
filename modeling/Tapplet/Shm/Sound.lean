import Tapplet.Shm.Layout

/-!
# Soundness of the layout

After start-up returned 0 the maps lie one behind the other, behind the header and inside
the segment, configuration first. The recorded region of the configuration is right except
in two cases: without a statistics map its end is never recorded, and with a single byte of
configuration the recorded end equals the start, which the layout takes for not recorded
yet. `layout_sound_iff` gives the exact condition.

The configuration maps are sorted by name, so their places do not depend on the order in
which the plugins registered them.
-/

namespace Tapplet.Shm

open Linked

variable {α : Type*} [DecidableEq α] {reg : α → Registration} {fuel : Nat} {build : Build}
  {next : α → Option α} {head : Option α} {xs : List α}

/-- The layout of the registrations `xs` is sound; `rs` is the order of their maps. The segment
has `s.len` bytes. -/
structure Sound (reg : α → Registration) (xs : List α) (s : Segment α) (rs : List α) : Prop where
  registered : Seg s.registry.next s.registry.headNext rs none
  complete : rs.Perm xs
  count : mapCount s.mem = rs.length
  maps : ∀ i, ∀ h : i < rs.length,
    mapName s.mem i = (reg rs[i]).name.bytes ∧ mapLen s.mem i = (reg rs[i]).len
  contiguous : ∀ i, i + 1 < rs.length →
    mapOffset s.mem i + mapLen s.mem i = mapOffset s.mem (i + 1)
  disjoint : ∀ i j, i < j → j < rs.length →
    mapOffset s.mem i + mapLen s.mem i ≤ mapOffset s.mem j
  behindHeader : ∀ i < rs.length,
    sizeofShmMain + sizeofShmMap * rs.length ≤ mapOffset s.mem i
  inside : ∀ i < rs.length, mapOffset s.mem i + mapLen s.mem i ≤ s.len
  configFirst : ∀ i j, ∀ hi : i < rs.length, ∀ hj : j < rs.length,
    (reg rs[i]).memType = .config → (reg rs[j]).memType = .stat →
    mapOffset s.mem i + mapLen s.mem i ≤ mapOffset s.mem j
  region : ∀ a, (configMemStart s.mem ≤ a ∧ a ≤ configMemEnd s.mem) ↔
    ∃ i, ∃ h : i < rs.length, (reg rs[i]).memType = .config ∧
      mapOffset s.mem i ≤ a ∧ a < mapOffset s.mem i + mapLen s.mem i

/-- The registrations of one memory type. -/
def ofType (reg : α → Registration) (t : MemType) (xs : List α) : List α :=
  xs.filter fun x => (reg x).memType = t

/-- The end of the configuration gets recorded: there is a statistics map, and the
configuration is not a single byte; or it is one and only one statistics map may follow. -/
def EndRecorded (reg : α → Registration) (xs : List α) : Prop :=
  (ofType reg .stat xs ≠ [] ∧ totalLen reg (ofType reg .config xs) ≠ 1) ∨
    (totalLen reg (ofType reg .config xs) = 1 ∧ (ofType reg .stat xs).length ≤ 1)

omit [DecidableEq α]

theorem regionEnd_configs {start preOffset e : Nat} {cs ss : List α}
    (h : ∀ x ∈ cs, (reg x).memType = .config) :
    regionEnd reg start (cs ++ ss) preOffset e =
      regionEnd reg start ss (preOffset + totalLen reg cs) e := by
  induction cs generalizing preOffset with
  | nil => simp
  | cons c cs ih =>
      simp only [List.cons_append, regionEnd, h c (by simp), ne_eq, not_true, false_and, if_false]
      rw [ih fun x hx => h x (by simp [hx]), totalLen_cons, Nat.add_assoc]

/-- Once recorded, the end stays. -/
theorem regionEnd_of_ne {start preOffset e : Nat} {rs : List α} (h : e ≠ start) :
    regionEnd reg start rs preOffset e = e := by
  induction rs generalizing preOffset with
  | nil => rfl
  | cons r rs ih =>
      simp only [regionEnd, h, and_false, if_false]
      exact ih

/-- What is recorded as the end when the configuration maps are followed by `ss`. -/
theorem regionEnd_stats (reg : α → Registration) {start : Nat} (total : Nat) {ss : List α}
    (h : ∀ x ∈ ss, (reg x).memType = .stat) (nonzero : ∀ x ∈ ss, (reg x).len ≠ 0)
    (hstart : 0 < start) (hlt : start + total + totalLen reg ss < 2 ^ 32) :
    regionEnd reg start ss (start + total) start + 1 = start + total ↔
      (ss ≠ [] ∧ total ≠ 1) ∨ (total = 1 ∧ ss.length ≤ 1) := by
  have hend (pre : Nat) (h₁ : 0 < pre) (h₂ : pre < 2 ^ 32) :
    (pre + 2 ^ 32 - 1) % 2 ^ 32 = pre - 1 := by
    omega
  cases ss with
  | nil => simp [regionEnd, eq_comm]
  | cons x ss =>
      rw [totalLen_cons] at hlt
      simp only [regionEnd, h x (by simp), ne_eq, reduceCtorEq, not_false_iff, true_and, if_true,
        hend (start + total) (by omega) (by omega), List.cons_ne_nil, List.length_cons]
      by_cases htotal : total = 1
      · subst htotal
        cases ss with
        | nil => simp [regionEnd]
        | cons y ss =>
            have hx := nonzero x (by simp)
            rw [totalLen_cons] at hlt
            simp only [regionEnd, h y (by simp), ne_eq, reduceCtorEq, not_false_iff, true_and,
              Nat.add_sub_cancel, if_true, hend (start + 1 + (reg x).len) (by omega) (by omega)]
            rw [regionEnd_of_ne (by omega)]
            simp only [List.length_cons, not_true, false_or]
            omega
      · rw [regionEnd_of_ne (by omega)]
        simp only [htotal, not_false_iff, true_or, iff_true]
        omega

/-- A place below the total length lies in exactly the range of one entry. -/
theorem exists_take_iff (reg : α → Registration) (rs : List α) (a : Nat) :
    (∃ i, ∃ h : i < rs.length, totalLen reg (rs.take i) ≤ a ∧
      a < totalLen reg (rs.take i) + (reg rs[i]).len) ↔ a < totalLen reg rs := by
  induction rs generalizing a with
  | nil => simp
  | cons r rs ih =>
      rw [totalLen_cons]
      by_cases ha : a < (reg r).len
      · refine iff_of_true ⟨0, by simp, by simp, by simpa using ha⟩ (by omega)
      · have hsub : a < (reg r).len + totalLen reg rs ↔ a - (reg r).len < totalLen reg rs := by
          omega
        rw [hsub, ← ih]
        constructor
        · rintro ⟨i, hi, hle, hlt⟩
          cases i with
          | zero => exact absurd (by simpa using hlt) ha
          | succ i =>
              simp only [List.take_succ_cons, totalLen_cons, List.getElem_cons_succ] at hle hlt
              exact ⟨i, by simpa using hi, by omega, by omega⟩
        · rintro ⟨i, hi, hle, hlt⟩
          refine ⟨i + 1, by simpa using hi, ?_, ?_⟩ <;>
            simp only [List.take_succ_cons, totalLen_cons, List.getElem_cons_succ] <;> omega

theorem totalLen_take_le (rs : List α) (i : Nat) :
    totalLen reg (rs.take i) ≤ totalLen reg rs := by
  conv_rhs => rw [← List.take_append_drop i rs, totalLen_append]
  omega

theorem totalLen_take_succ (reg : α → Registration) {rs : List α} {i : Nat} (h : i < rs.length) :
    totalLen reg (rs.take (i + 1)) = totalLen reg (rs.take i) + (reg rs[i]).len := by
  rw [← List.take_concat_get' rs i h, totalLen_append]
  simp

theorem totalLen_take_mono {rs : List α} {i j : Nat} (h : i ≤ j) :
    totalLen reg (rs.take i) ≤ totalLen reg (rs.take j) := by
  have htake : rs.take i = (rs.take j).take i := by rw [List.take_take, Nat.min_eq_left h]
  rw [htake]
  exact totalLen_take_le _ i

variable {cs ss rs : List α} {s : Segment α}

/-- The places of the maps of a finished layout. -/
theorem Layout.mapOffset_eq (h : Layout reg s rs) {i : Nat} (hi : i < rs.length) :
    mapOffset s.mem i = mapsStart rs.length + totalLen reg (rs.take i) := by
  simpa using (h.placed i hi).2.1

theorem Layout.mapLen_eq (h : Layout reg s rs) {i : Nat} (hi : i < rs.length) :
    mapLen s.mem i = (reg rs[i]).len := by
  simpa using (h.placed i hi).2.2

theorem Layout.mapName_eq (h : Layout reg s rs) {i : Nat} (hi : i < rs.length) :
    mapName s.mem i = (reg rs[i]).name.bytes := by
  simpa using (h.placed i hi).1

/-- The maps lie one behind the other. -/
theorem Layout.contiguous (h : Layout reg s rs) {i : Nat} (hi : i + 1 < rs.length) :
    mapOffset s.mem i + mapLen s.mem i = mapOffset s.mem (i + 1) := by
  rw [h.mapOffset_eq (Nat.lt_of_succ_lt hi), h.mapLen_eq (Nat.lt_of_succ_lt hi),
    h.mapOffset_eq hi, totalLen_take_succ reg (Nat.lt_of_succ_lt hi), Nat.add_assoc]

theorem Layout.disjoint (h : Layout reg s rs) {i j : Nat} (hij : i < j) (hj : j < rs.length) :
    mapOffset s.mem i + mapLen s.mem i ≤ mapOffset s.mem j := by
  have hsucc := totalLen_take_succ reg (Nat.lt_trans hij hj)
  have hmono : totalLen reg (rs.take (i + 1)) ≤ totalLen reg (rs.take j) := totalLen_take_mono hij
  rw [h.mapOffset_eq (Nat.lt_trans hij hj), h.mapLen_eq (Nat.lt_trans hij hj),
    h.mapOffset_eq hj]
  omega

theorem Layout.inside (h : Layout reg s rs) (noWrap : NoWrap reg rs) {i : Nat}
    (hi : i < rs.length) : mapOffset s.mem i + mapLen s.mem i ≤ s.len := by
  have htake : totalLen reg (rs.take (i + 1)) ≤ totalLen reg rs := totalLen_take_le _ _
  rw [totalLen_take_succ reg hi] at htake
  rw [h.mapOffset_eq hi, h.mapLen_eq hi, h.len, noWrap.shmLen_eq.1]
  omega

/-- The configuration maps cover the bytes from the start on, up to their total length. -/
theorem Layout.config_iff (h : Layout reg s (cs ++ ss)) (arranged : Arranged reg xs cs ss)
    (a : Nat) :
    (∃ i, ∃ hi : i < (cs ++ ss).length, (reg (cs ++ ss)[i]).memType = .config ∧
      mapOffset s.mem i ≤ a ∧ a < mapOffset s.mem i + mapLen s.mem i) ↔
    mapsStart (cs ++ ss).length ≤ a ∧ a < mapsStart (cs ++ ss).length + totalLen reg cs := by
  obtain ⟨start, hstart⟩ : ∃ start, start = mapsStart (cs ++ ss).length := ⟨_, rfl⟩
  have hcover := exists_take_iff reg cs (a - start)
  constructor
  · rintro ⟨i, hi, hconfig, hle, hlt⟩
    have hics : i < cs.length := by
      by_contra hge
      rw [List.getElem_append_right (Nat.le_of_not_lt hge)] at hconfig
      rw [arranged.mem_stat (List.getElem_mem _)] at hconfig
      cases hconfig
    rw [h.mapOffset_eq hi, ← hstart, List.take_append_of_le_length (Nat.le_of_lt hics)] at hle hlt
    rw [h.mapLen_eq hi, List.getElem_append_left hics] at hlt
    have hlt' := hcover.mp ⟨i, hics, by omega, by omega⟩
    omega
  · rw [← hstart]
    rintro ⟨hle, hlt⟩
    obtain ⟨i, hi, hge, hlt'⟩ := hcover.mpr (by omega)
    have hi' : i < (cs ++ ss).length := by
      rw [List.length_append]
      omega
    refine ⟨i, hi', ?_, ?_⟩
    · rw [List.getElem_append_left hi]
      exact arranged.mem_config (List.getElem_mem _)
    · rw [h.mapOffset_eq hi', h.mapLen_eq hi', ← hstart, List.getElem_append_left hi,
        List.take_append_of_le_length (Nat.le_of_lt hi)]
      omega

/-- The recorded end is at most one byte before the start. -/
theorem start_le_regionEnd {start preOffset e : Nat} {rs : List α} (hpre : start ≤ preOffset)
    (he : start ≤ e + 1) (hlt : preOffset + totalLen reg rs < 2 ^ 32) :
    start ≤ regionEnd reg start rs preOffset e + 1 := by
  induction rs generalizing preOffset e with
  | nil => exact he
  | cons r rs ih =>
      rw [totalLen_cons] at hlt
      refine ih (by omega) ?_ (by omega)
      split <;> omega

/-- A finished layout is sound exactly if the end of the configuration gets recorded. -/
theorem Layout.sound_iff (h : Layout reg s (cs ++ ss)) (arranged : Arranged reg xs cs ss)
    (noWrap : NoWrap reg xs) (nonzero : ∀ x ∈ xs, (reg x).len ≠ 0) :
    (∃ rs, Sound reg xs s rs) ↔ EndRecorded reg xs := by
  obtain ⟨rs, hrs⟩ : ∃ rs, rs = cs ++ ss := ⟨_, rfl⟩
  have perm : rs.Perm xs := hrs ▸ arranged.perm
  have noWrap' : NoWrap reg rs := noWrap.perm perm.symm
  obtain ⟨-, hstart, htotal⟩ := noWrap'.shmLen_eq
  have hpos : 0 < mapsStart rs.length := by
    have hheader := header_le rs.length
    omega
  have hsplit : totalLen reg rs = totalLen reg cs + totalLen reg ss := by
    rw [hrs, totalLen_append]
  have hend : Shm.configMemEnd s.mem =
      regionEnd reg (mapsStart rs.length) ss (mapsStart rs.length + totalLen reg cs)
        (mapsStart rs.length) := by
    rw [h.configMemEnd, ← hrs, hrs, regionEnd_configs fun x hx => arranged.mem_config hx]
  have hge : mapsStart rs.length ≤ Shm.configMemEnd s.mem + 1 := by
    rw [hend]
    exact start_le_regionEnd (by omega) (by omega) (by omega)
  have hrecorded : Shm.configMemEnd s.mem + 1 = mapsStart rs.length + totalLen reg cs ↔
      EndRecorded reg xs := by
    have hiff := regionEnd_stats reg (totalLen reg cs) (fun x hx => arranged.mem_stat hx)
      (fun x hx => nonzero x (arranged.perm.mem_iff.mp (by simp [hx]))) hpos
      (show mapsStart rs.length + totalLen reg cs + totalLen reg ss < 2 ^ 32 by omega)
    rw [← hend] at hiff
    have hconfigs : totalLen reg (ofType reg .config xs) = totalLen reg cs :=
      (totalLen_perm arranged.configs).symm
    rw [hiff, EndRecorded, hconfigs, ofType, ← arranged.stats]
  have hregion := h.config_iff arranged
  rw [← hrs] at h hregion
  rw [← hrecorded]
  constructor
  · rintro ⟨rs', sound⟩
    obtain rfl : rs' = rs := sound.registered.unique h.lists.seg
    have hboth (a : Nat) : (mapsStart rs'.length ≤ a ∧ a ≤ Shm.configMemEnd s.mem) ↔
        mapsStart rs'.length ≤ a ∧ a < mapsStart rs'.length + totalLen reg cs := by
      rw [← hregion a, ← h.configMemStart]
      exact sound.region a
    have h₁ := hboth (Shm.configMemEnd s.mem)
    have h₂ := hboth (mapsStart rs'.length + totalLen reg cs)
    have h₃ := hboth (mapsStart rs'.length + totalLen reg cs - 1)
    omega
  · intro hrec
    refine ⟨rs, h.lists.seg, perm, h.mapCount, fun i hi => ⟨h.mapName_eq hi, h.mapLen_eq hi⟩,
      fun i hi => h.contiguous hi, fun i j hij hj => h.disjoint hij hj, ?_,
      fun i hi => h.inside noWrap' hi, ?_, ?_⟩
    · intro i hi
      rw [h.mapOffset_eq hi, hstart]
      simp only [shmMapAt]
      omega
    · intro i j hi hj hconfig hstat
      refine h.disjoint ?_ hj
      subst hrs
      by_contra hij
      rcases Nat.lt_or_ge j cs.length with hjc | hjc
      · rw [List.getElem_append_left hjc, arranged.mem_config (List.getElem_mem _)] at hstat
        cases hstat
      · rw [List.getElem_append_right (by omega), arranged.mem_stat (List.getElem_mem _)]
          at hconfig
        cases hconfig
    · intro a
      rw [hregion a, h.configMemStart]
      omega

/-- The places of a sound layout. -/
theorem Sound.mapOffset_eq (h : Sound reg xs s rs) {i : Nat} (hi : i < rs.length) :
    mapOffset s.mem i = mapOffset s.mem 0 + totalLen reg (rs.take i) := by
  induction i with
  | zero => simp
  | succ i ih =>
      rw [← h.contiguous i hi, ih (Nat.lt_of_succ_lt hi), (h.maps i (Nat.lt_of_succ_lt hi)).2,
        totalLen_take_succ reg (Nat.lt_of_succ_lt hi), Nat.add_assoc]

/-- In a segment of the length that is asked for, maps that lie one behind the other end below
`2 ^ 32` only if nothing wraps. This needs no knowledge of the run: whatever the maps have stored
over the table cannot make up for the missing room. -/
theorem Sound.noWrap (h : Sound reg xs s rs) (hlen : s.len = shmLen reg xs % 2 ^ 32) :
    NoWrap reg xs := by
  rw [← shmLen_perm h.complete] at hlen
  refine NoWrap.perm ?_ h.complete
  rcases Nat.eq_zero_or_pos rs.length with hnil | hpos
  · rw [List.length_eq_zero_iff.mp hnil]
    simp [NoWrap, sizeofShmMain, sizeofShmMap, paddingAfterShmMaps]
  · have hlast : rs.length - 1 < rs.length := Nat.sub_lt hpos Nat.one_pos
    have hinside := h.inside _ hlast
    have htotal := totalLen_take_succ reg hlast
    rw [Nat.sub_add_cancel hpos, List.take_length] at htotal
    rw [h.mapOffset_eq hlast, (h.maps _ hlast).2] at hinside
    have hbehind := h.behindHeader 0 hpos
    have hlt : s.len < 2 ^ 32 := hlen ▸ Nat.mod_lt _ (by decide)
    simp only [NoWrap, shmLen, sizeofShmMain, sizeofShmMap, paddingAfterShmMaps] at *
    omega

/-- Start-up returned 0: the layout is sound exactly if the header, the table of maps and the
maps end below `2 ^ 32` and the registrations let the end of the configuration be recorded. -/
theorem layout_sound_iff [DecidableEq α] (h : Seg next head xs none) (nodup : xs.Nodup)
    (nonzero : ∀ x ∈ xs, (reg x).len ≠ 0) (hfuel : 2 * xs.length ≤ fuel)
    (hrun : sfShmInit build reg fuel next head = some (0, s)) :
    (∃ rs, Sound reg xs s rs) ↔ NoWrap reg xs ∧ EndRecorded reg xs := by
  have hlen := (of_sfShmInit h (by omega) hrun).1
  constructor
  · rintro ⟨rs, sound⟩
    have noWrap := sound.noWrap hlen
    obtain ⟨cs, ss, hlayout, arranged⟩ := layout_of_sfShmInit h nodup hfuel noWrap hrun
    exact ⟨noWrap, (hlayout.sound_iff arranged noWrap nonzero).mp ⟨rs, sound⟩⟩
  · rintro ⟨noWrap, hrec⟩
    obtain ⟨cs, ss, hlayout, arranged⟩ := layout_of_sfShmInit h nodup hfuel noWrap hrun
    exact (hlayout.sound_iff arranged noWrap nonzero).mpr hrec

/-- The build of the examples. -/
def sampleBuild : Build := ⟨List.replicate 11 49, []⟩

theorem sampleBuild_versionOk : VersionOk sampleBuild :=
  show sfShmMemVersionMinLen ≤ strlen (strncpy sfShmMemVersionLen (List.replicate 11 49)) by decide

/-- One configuration map of 8 bytes, and one statistics map of 4 bytes. -/
def sampleReg : Bool → Registration
  | false => ⟨⟨[99], by simp, by decide⟩, .config, 8, none, by decide, by simp⟩
  | true => ⟨⟨[115], by simp, by decide⟩, .stat, 4, none, by decide, by simp⟩

/-- The statistics map is registered last, so it comes first in the list. -/
def sampleNext : Bool → Option Bool
  | true => some false
  | false => none

theorem layout_sound_iff_sample : ∃ s,
    sfShmInit sampleBuild sampleReg 4 sampleNext (some true) = some (0, s) ∧
      ((∃ rs, Sound sampleReg [true, false] s rs) ↔
        NoWrap sampleReg [true, false] ∧ EndRecorded sampleReg [true, false]) := by
  have hseg : Seg sampleNext (some true) [true, false] none := by simp [sampleNext]
  obtain ⟨s, -, -, hrun, -⟩ := sfShmInit_of_noWrap hseg (by decide) (Nat.le_refl 4)
    (show NoWrap sampleReg [true, false] by decide) sampleBuild_versionOk
  exact ⟨s, hrun, layout_sound_iff hseg (by decide) (by decide) (Nat.le_refl 4) hrun⟩

/-- A single configuration map and no statistics: the recorded region is one byte long. -/
theorem region_truncated : ∃ s,
    sfShmInit sampleBuild sampleReg 2 sampleNext (some false) = some (0, s) ∧
      ¬∃ rs, Sound sampleReg [false] s rs := by
  have hseg : Seg sampleNext (some false) [false] none := by simp [sampleNext]
  have noWrap : NoWrap sampleReg [false] := by decide
  obtain ⟨s, cs, ss, hrun, hlayout, arranged⟩ :=
    sfShmInit_of_noWrap hseg (by decide) (Nat.le_refl 2) noWrap sampleBuild_versionOk
  refine ⟨s, hrun, ?_⟩
  rw [hlayout.sound_iff arranged noWrap (by decide)]
  simp [EndRecorded, ofType, sampleReg, totalLen]

/-- Both segments hold the configuration maps of `xs` in the same places of the table, with
the same offset and length. -/
def SameConfig (reg : α → Registration) (xs : List α) (s₁ s₂ : Segment α) : Prop :=
  ∀ x ∈ xs, (reg x).memType = .config →
    ∃ i, i < mapCount s₁.mem ∧ i < mapCount s₂.mem ∧
      mapName s₁.mem i = (reg x).name.bytes ∧ mapName s₂.mem i = (reg x).name.bytes ∧
      mapLen s₁.mem i = (reg x).len ∧ mapLen s₂.mem i = (reg x).len ∧
      mapOffset s₁.mem i = mapOffset s₂.mem i

/-- The configuration maps do not depend on the order of registration: the sort returns the
name-sorted list of the nodes it is given, with its last node as the tail, and start-up gives
each configuration map the same place if the header, the table and the maps end below
`2 ^ 32`. -/
theorem config_layout_order_independent [DecidableEq α] (reg : α → Registration)
    (build : Build) (fuel : Nat) :
    (∀ (next : α → Option α) (head tail : Option α) (xs : List α), Seg next head xs none →
      (xs.map fun x => (reg x).name).Nodup → 2 * xs.length ≤ fuel →
      ∃ next' zs, sortShmConfigRegByName reg fuel next head none tail =
          some (next', zs.head?, if xs = [] then tail else zs.getLast?) ∧
        Seg next' zs.head? zs none ∧ zs.Perm xs ∧ NameSorted reg zs) ∧
    (∀ (next₁ next₂ : α → Option α) (head₁ head₂ : Option α) (xs ys : List α) (s₁ : Segment α),
      Seg next₁ head₁ xs none → Seg next₂ head₂ ys none → xs.Perm ys →
      (xs.map fun x => (reg x).name).Nodup → 2 * xs.length ≤ fuel → NoWrap reg xs →
      sfShmInit build reg fuel next₁ head₁ = some (0, s₁) →
      ∃ s₂, sfShmInit build reg fuel next₂ head₂ = some (0, s₂) ∧ SameConfig reg xs s₁ s₂) := by
  constructor
  · intro next head tail xs hseg names hfuel
    have hempty : Seg next (none : Option α) [] none := rfl
    obtain ⟨next', zs, hrun, hzs, perm, -, hsorted⟩ :=
      sortShmConfigRegByName_spec reg hseg hempty
        (by simpa using names.of_map)
        (show ([] : List α) ≠ [] → tail = none from fun h => absurd rfl h)
        (by simpa using hfuel)
    rw [List.append_nil] at perm hsorted
    refine ⟨next', zs, ?_, hzs, perm, hsorted names List.Pairwise.nil⟩
    have hnil : zs = [] ↔ xs = [] := by
      rw [← List.length_eq_zero_iff, ← List.length_eq_zero_iff, perm.length_eq]
    simp only [hrun, hnil]
  · intro next₁ next₂ head₁ head₂ xs ys s₁ h₁ h₂ perm names hfuel noWrap hrun
    have names' : (ys.map fun x => (reg x).name).Nodup := (perm.map _).nodup_iff.mp names
    have hfuel' : 2 * ys.length ≤ fuel := perm.length_eq ▸ hfuel
    have hversion := (of_sfShmInit h₁ (by omega) hrun).2
    obtain ⟨cs₁, ss₁, hlayout₁, arranged₁⟩ :=
      layout_of_sfShmInit h₁ names.of_map hfuel noWrap hrun
    obtain ⟨s₂, cs₂, ss₂, hrun₂, hlayout₂, arranged₂⟩ :=
      sfShmInit_of_noWrap h₂ names'.of_map hfuel' (noWrap.perm perm) hversion
    refine ⟨s₂, hrun₂, ?_⟩
    have hcs : cs₁ = cs₂ := (arranged₁.sorted names).eq_of_perm (arranged₂.sorted names')
      (arranged₁.configs.trans ((perm.filter _).trans arranged₂.configs.symm))
    subst hcs
    have hlen : (cs₁ ++ ss₁).length = (cs₁ ++ ss₂).length := by
      rw [arranged₁.perm.length_eq, arranged₂.perm.length_eq, perm.length_eq]
    intro x hx hconfig
    obtain ⟨i, hi, hget⟩ := List.getElem_of_mem
      (arranged₁.configs.mem_iff.mpr (List.mem_filter.mpr ⟨hx, by simpa using hconfig⟩))
    have hi₁ : i < (cs₁ ++ ss₁).length := by
      rw [List.length_append]
      omega
    have hi₂ : i < (cs₁ ++ ss₂).length := hlen ▸ hi₁
    refine ⟨i, hlayout₁.mapCount ▸ hi₁, hlayout₂.mapCount ▸ hi₂, ?_⟩
    rw [hlayout₁.mapName_eq hi₁, hlayout₂.mapName_eq hi₂, hlayout₁.mapLen_eq hi₁,
      hlayout₂.mapLen_eq hi₂, hlayout₁.mapOffset_eq hi₁, hlayout₂.mapOffset_eq hi₂]
    simp only [List.getElem_append_left hi, List.take_append_of_le_length (Nat.le_of_lt hi), hget,
      hlen, and_self]

/-- Three registrations: two configuration maps and one statistics map. -/
def threeReg : Fin 3 → Registration
  | 0 => { sampleReg false with name := ⟨[98], by simp, by decide⟩ }
  | 1 => ⟨⟨[97], by simp, by decide⟩, .config, 4, none, by decide, by simp⟩
  | 2 => sampleReg true

/-- The list `0`, `2`, `1`. -/
def threeNext : Fin 3 → Option (Fin 3)
  | 0 => some 2
  | 1 => none
  | 2 => some 1

/-- The same registrations in the other order. -/
def threeNext' : Fin 3 → Option (Fin 3)
  | 0 => none
  | 1 => some 2
  | 2 => some 0

theorem config_layout_order_independent_sample : ∃ s₁ s₂,
    sfShmInit sampleBuild threeReg 6 threeNext (some 0) = some (0, s₁) ∧
      sfShmInit sampleBuild threeReg 6 threeNext' (some 1) = some (0, s₂) ∧
      SameConfig threeReg [0, 2, 1] s₁ s₂ := by
  have h₁ : Seg threeNext (some 0) [0, 2, 1] none := by simp [threeNext]
  have h₂ : Seg threeNext' (some 1) [1, 2, 0] none := by simp [threeNext']
  have noWrap : NoWrap threeReg [0, 2, 1] := by decide
  obtain ⟨s₁, -, -, hrun, -⟩ :=
    sfShmInit_of_noWrap h₁ (by decide) (Nat.le_refl 6) noWrap sampleBuild_versionOk
  obtain ⟨s₂, hrun₂, hsame⟩ := (config_layout_order_independent threeReg sampleBuild 6).2
    threeNext threeNext' (some 0) (some 1) [0, 2, 1] [1, 2, 0] s₁ h₁ h₂ (by decide) (by decide)
    (Nat.le_refl 6) noWrap hrun
  exact ⟨s₁, s₂, hrun, hrun₂, hsame⟩

/-- One configuration map, and three statistics maps whose lengths wrap: the first of them is
nearly as long as all offsets, and its init function stores one byte. -/
def wrapReg : Fin 4 → Registration
  | 0 => sampleReg false
  | 1 => ⟨⟨[65], by simp, by decide⟩, .stat, 2 ^ 32 - 176, some [(0, 1)], by decide, by simp⟩
  | 2 => ⟨⟨[66], by simp, by decide⟩, .stat, 8, none, by decide, by simp⟩
  | 3 => ⟨⟨[67], by simp, by decide⟩, .stat, 1160, none, by decide, by simp⟩

/-- The list `0`, `1`, `2`, `3`. -/
def wrapNext : Fin 4 → Option (Fin 4)
  | 0 => some 1
  | 1 => some 2
  | 2 => some 3
  | 3 => none

/-- The list `0`, `2`, `1`, `3`. -/
def wrapNext' : Fin 4 → Option (Fin 4)
  | 0 => some 2
  | 1 => some 3
  | 2 => some 1
  | 3 => none

/-- A run of start-up can be computed: it returns 0 and the bytes it leaves satisfy `p`. -/
theorem exists_sfShmInit [DecidableEq α] (build : Build) (reg : α → Registration) (fuel : Nat)
    (next : α → Option α) (head : Option α) (p : Memory → Bool)
    (h : (sfShmInit build reg fuel next head).any (fun res => res.1 = 0 && p res.2.mem) = true) :
    ∃ s, sfShmInit build reg fuel next head = some (0, s) ∧ p s.mem = true := by
  obtain ⟨⟨ret, s⟩, hrun, hp⟩ := (Option.any_eq_true _ _).mp h
  rw [Bool.and_eq_true, decide_eq_true_eq] at hp
  obtain ⟨rfl, hp⟩ := hp
  exact ⟨s, hrun, hp⟩

/-- With lengths that wrap, the place of the configuration map depends on the order: in the first
order the second statistics map lies over its entry of the table. -/
theorem config_layout_overwritten : ∃ s₁ s₂,
    Seg wrapNext (some 0) [0, 1, 2, 3] none ∧ Seg wrapNext' (some 0) [0, 2, 1, 3] none ∧
      ((List.map (fun x => (wrapReg x).name) [0, 1, 2, 3])).Nodup ∧
      sfShmInit sampleBuild wrapReg 8 wrapNext (some 0) = some (0, s₁) ∧
      sfShmInit sampleBuild wrapReg 8 wrapNext' (some 0) = some (0, s₂) ∧
      ¬SameConfig wrapReg [0, 1, 2, 3] s₁ s₂ := by
  obtain ⟨s₁, hrun₁, hlost⟩ := exists_sfShmInit sampleBuild wrapReg 8 wrapNext (some 0)
    (fun mem => mapCount mem = 4 && (List.range 4).all fun i => mapLen mem i != 8)
    (by decide +kernel)
  obtain ⟨s₂, hrun₂, -⟩ := exists_sfShmInit sampleBuild wrapReg 8 wrapNext' (some 0)
    (fun _ => true) (by decide +kernel)
  rw [Bool.and_eq_true, decide_eq_true_eq, List.all_eq_true] at hlost
  refine ⟨s₁, s₂, by simp [wrapNext], by simp [wrapNext'], by decide, hrun₁, hrun₂, fun hsame => ?_⟩
  obtain ⟨i, hi, -, -, -, hlen, -⟩ := hsame 0 (by simp) rfl
  rw [hlost.1] at hi
  have hne := hlost.2 i (List.mem_range.mpr hi)
  rw [hlen] at hne
  exact absurd hne (by decide)

end Tapplet.Shm
