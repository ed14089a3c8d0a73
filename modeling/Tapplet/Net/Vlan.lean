import Tapplet.Net.Decoding

/-!
# The VLAN tags

`parse_vlan_hdr_only` walks over the tags of a frame and counts them in eight bits. It is
compared with the stack of tags that is in the packet.
-/

namespace Tapplet.Net

/-- Only where the rest is longer than a tag does the loop go on. -/
theorem lt_of_not_le_four {w : Wdata} (h : ¬ w.currentLength ≤ 4) :
    4 < w.currentLength.toNat := by
  rw [UInt16.le_iff_toNat_le] at h
  exact Nat.lt_of_not_le h

theorem advance_four {w : Wdata} (h : 4 ≤ w.currentLength.toNat) :
    (w.advance 4).currentLength.toNat = w.currentLength.toNat - 4 :=
  Wdata.advance_length (l := 4) h

/-- The loop of `parse_vlan_hdr_only`. There is no type when it returns from inside the loop. -/
def vlanLoop (d : Decoding) (layerCnt : UInt8) : Option (UInt16 × UInt8) × Decoding :=
  if d.wdata.currentLength ≤ 4 then (none, d)
  else
    let d' := (d.read 2 2).advance 4 VLAN_HEADER_LEN
    if ¬ IsTag d.wdata.current.tagType then (some (d.wdata.current.tagType, layerCnt + 1), d')
    else vlanLoop d' (layerCnt + 1)
termination_by d.wdata.currentLength.toNat
decreasing_by
  rename_i hlength _
  have hlt := lt_of_not_le_four hlength
  rw [Decoding.advance_wdata, Decoding.read_wdata, advance_four (Nat.le_of_lt hlt)]
  omega

/-- `parse_vlan_hdr_only` -/
def parseVlanHdrOnly (d : Decoding) : UInt16 × Decoding :=
  let offset := d.wdata.currentData
  match vlanLoop d 0 with
  | (none, d') => (ETHER_INVALID_TYPE, d')
  | (some (ethType, layerCnt), d') =>
    (ethType, if layerCnt ≠ 0 then d'.update (·.updateVlan offset layerCnt) else d')

/-- So many tags follow each other, and the last one announces something else. -/
inductive TagStack : Bytes → Nat → UInt16 → Prop where
  | last {p : Bytes} (h : ¬ IsTag p.tagType) : TagStack p 1 p.tagType
  | outer {p : Bytes} {tags : Nat} {type : UInt16} (h : IsTag p.tagType)
      (hrest : TagStack (p.skip VLAN_HEADER_LEN) tags type) : TagStack p (tags + 1) type

theorem TagStack.pos {p : Bytes} {tags : Nat} {type : UInt16} (h : TagStack p tags type) :
    0 < tags := by
  cases h with
  | last => exact Nat.one_pos
  | outer => exact Nat.succ_pos _

/-- A packet has one stack only. -/
theorem TagStack.unique {p : Bytes} {tags tags' : Nat} {type type' : UInt16}
    (h : TagStack p tags type) (h' : TagStack p tags' type') : tags = tags' ∧ type = type' := by
  induction h generalizing tags' type' with
  | last hnot =>
      cases h' with
      | last => exact ⟨rfl, rfl⟩
      | outer htag => exact absurd htag hnot
  | outer htag _ ih =>
      cases h' with
      | last hnot => exact absurd htag hnot
      | outer _ hrest =>
          obtain ⟨rfl, rfl⟩ := ih hrest
          exact ⟨rfl, rfl⟩

/-- The window has moved over the tags. -/
structure Crossed (w w' : Wdata) (tags : Nat) : Prop where
  current : w'.current = w.current.skip (VLAN_HEADER_LEN * tags)
  offset : w'.currentData = w.currentData + UInt16.ofNat (VLAN_HEADER_LEN * tags)
  length : w'.currentLength.toNat + VLAN_HEADER_LEN * tags = w.currentLength.toNat

/-- One more tag in front. -/
theorem Crossed.outer {w w' : Wdata} {tags : Nat} (hlength : 4 ≤ w.currentLength.toNat)
    (h : Crossed (w.advance 4) w' tags) : Crossed w w' (tags + 1) where
  current := by
    rw [h.current]
    funext i
    have hplace : 4 + (VLAN_HEADER_LEN * tags + i) = VLAN_HEADER_LEN * (tags + 1) + i := by
      rw [VLAN_HEADER_LEN]
      omega
    exact congrArg w.current hplace
  offset := by
    have hsplit : VLAN_HEADER_LEN * (tags + 1) = 4 + VLAN_HEADER_LEN * tags := by
      rw [VLAN_HEADER_LEN]
      omega
    rw [h.offset, hsplit, UInt16.ofNat_add, ← UInt16.add_assoc]
    rfl
  length := by
    have hrest := h.length
    rw [advance_four hlength, VLAN_HEADER_LEN] at hrest
    rw [VLAN_HEADER_LEN]
    omega

theorem Crossed.one {w : Wdata} (hlength : 4 ≤ w.currentLength.toNat) :
    Crossed w (w.advance 4) 1 where
  current := rfl
  offset := rfl
  length := by
    rw [advance_four hlength, VLAN_HEADER_LEN]
    omega

/-- A type that the loop finds is the one behind the stack. -/
theorem vlanLoop_some {d : Decoding} {layerCnt layers : UInt8} {type : UInt16}
    (h : (vlanLoop d layerCnt).1 = some (type, layers)) :
    ∃ tags, TagStack d.wdata.current tags type ∧
      VLAN_HEADER_LEN * tags < d.wdata.currentLength.toNat ∧
      layers = layerCnt + UInt8.ofNat tags ∧
      Crossed d.wdata (vlanLoop d layerCnt).2.wdata tags := by
  fun_induction vlanLoop d layerCnt with
  | case1 => exact absurd h (by simp)
  | case2 d layerCnt hlength d' hlast =>
      have hlt := lt_of_not_le_four hlength
      obtain ⟨rfl, rfl⟩ : d.wdata.current.tagType = type ∧ layerCnt + 1 = layers := by
        simpa using h
      exact ⟨1, .last hlast, hlt, rfl, Crossed.one (Nat.le_of_lt hlt)⟩
  | case3 d layerCnt hlength d' htag ih =>
      have hlt := lt_of_not_le_four hlength
      obtain ⟨tags, hstack, hfits, hlayers, hcrossed⟩ := ih h
      have hrest := advance_four (Nat.le_of_lt hlt)
      refine ⟨tags + 1, .outer (Decidable.not_not.mp htag) hstack, ?_, ?_,
        hcrossed.outer (Nat.le_of_lt hlt)⟩
      · have hfits' : VLAN_HEADER_LEN * tags < d.wdata.currentLength.toNat - 4 :=
          Nat.lt_of_lt_of_eq hfits hrest
        rw [VLAN_HEADER_LEN] at hfits' ⊢
        omega
      · rw [hlayers, Nat.add_comm, UInt8.ofNat_add, ← UInt8.add_assoc]
        rfl

/-- Where the loop finds none, the stack goes on to the end of the packet or beyond. -/
theorem vlanLoop_none {d : Decoding} {layerCnt : UInt8} (h : (vlanLoop d layerCnt).1 = none)
    {tags : Nat} {type : UInt16} (hstack : TagStack d.wdata.current tags type) :
    d.wdata.currentLength.toNat ≤ VLAN_HEADER_LEN * tags := by
  fun_induction vlanLoop d layerCnt generalizing tags type with
  | case1 d layerCnt hlength =>
      have hpos := hstack.pos
      rw [UInt16.le_iff_toNat_le] at hlength
      simp only [VLAN_HEADER_LEN, UInt16.reduceToNat] at hlength ⊢
      omega
  | case2 => exact absurd h (by simp)
  | case3 d layerCnt hlength d' htag ih =>
      have hlt := lt_of_not_le_four hlength
      have hrest := advance_four (Nat.le_of_lt hlt)
      cases hstack with
      | last hnot => exact absurd hnot htag
      | outer _ hinner =>
          have hle : d.wdata.currentLength.toNat - 4 ≤ VLAN_HEADER_LEN * _ :=
            Nat.le_trans (Nat.le_of_eq hrest.symm) (ih h hinner)
          rw [VLAN_HEADER_LEN] at hle ⊢
          omega

/-- Something of the packet is left, found or not. -/
theorem vlanLoop_pos (d : Decoding) (layerCnt : UInt8) (h : 0 < d.wdata.currentLength.toNat) :
    0 < (vlanLoop d layerCnt).2.wdata.currentLength.toNat := by
  fun_induction vlanLoop d layerCnt with
  | case1 => exact h
  | case2 d layerCnt hlength d' hlast =>
      have hlt := lt_of_not_le_four hlength
      have hrest := advance_four (Nat.le_of_lt hlt)
      exact Nat.lt_of_lt_of_eq (Nat.sub_pos_of_lt hlt) hrest.symm
  | case3 d layerCnt hlength d' htag ih =>
      have hlt := lt_of_not_le_four hlength
      have hrest := advance_four (Nat.le_of_lt hlt)
      exact ih (Nat.lt_of_lt_of_eq (Nat.sub_pos_of_lt hlt) hrest.symm)

/-- The loop leaves the rest of the metadata alone. -/
theorem vlanLoop_ipWdataCnt (d : Decoding) (layerCnt : UInt8) :
    (vlanLoop d layerCnt).2.wdata.ipWdataCnt = d.wdata.ipWdataCnt := by
  fun_induction vlanLoop d layerCnt with
  | case1 => rfl
  | case2 => rfl
  | case3 d layerCnt hlength d' htag ih => exact ih

/-- The loop reads a tag only after it has seen that there is one. -/
theorem vlanLoop_inside (d : Decoding) (layerCnt : UInt8) :
    (vlanLoop d layerCnt).2.Inside ↔ d.Inside := by
  have hstep : ∀ {d : Decoding}, ¬ d.wdata.currentLength ≤ 4 →
      (((d.read 2 2).advance 4 VLAN_HEADER_LEN).Inside ↔ d.Inside) := by
    intro d hlength
    have hlt := lt_of_not_le_four hlength
    simp only [Decoding.inside_advance, Decoding.inside_read, Decoding.read_wdata,
      VLAN_HEADER_LEN, UInt16.reduceToNat]
    exact ⟨fun h => h.1.1, fun h => ⟨⟨h, by omega⟩, by omega, Nat.le_refl _⟩⟩
  fun_induction vlanLoop d layerCnt with
  | case1 => exact Iff.rfl
  | case2 d layerCnt hlength d' hlast => exact hstep hlength
  | case3 d layerCnt hlength d' htag ih => exact ih.trans (hstep hlength)

theorem parseVlanHdrOnly_inside (d : Decoding) :
    (parseVlanHdrOnly d).2.Inside ↔ d.Inside := by
  have h := vlanLoop_inside d 0
  rw [parseVlanHdrOnly]
  split
  next hloop => rwa [hloop] at h
  next hloop =>
    rw [hloop] at h
    split
    · rwa [Decoding.inside_update]
    · exact h

theorem parseVlanHdrOnly_ipWdataCnt (d : Decoding) :
    (parseVlanHdrOnly d).2.wdata.ipWdataCnt = d.wdata.ipWdataCnt := by
  have h := vlanLoop_ipWdataCnt d 0
  rw [parseVlanHdrOnly]
  split
  next hloop => rwa [hloop] at h
  next hloop =>
    rw [hloop] at h
    split
    · exact h
    · exact h

/-! ## Exactness -/

/-- The metadata of a frame with that many tags: where the first one is, and how many. -/
structure Recorded (w w' : Wdata) (tags : Nat) : Prop where
  first : w'.vlanWdatas.offset = w.currentData
  count : w'.vlanWdatas.innerLayerCount.toNat = tags
  layer : w'.vlanWdataCnt = 1

/-- The parser goes over all tags of a stack that lies in the packet, and over nothing else,
finds the type behind them and records them. Otherwise it reports no type. -/
structure VlanExact (d : Decoding) : Prop where
  found : ∀ tags type, TagStack d.wdata.current tags type →
    VLAN_HEADER_LEN * tags ≤ d.wdata.currentLength.toNat →
    (parseVlanHdrOnly d).1 = type ∧ Crossed d.wdata (parseVlanHdrOnly d).2.wdata tags ∧
      Recorded d.wdata (parseVlanHdrOnly d).2.wdata tags
  ended : (∀ tags type, TagStack d.wdata.current tags type →
      d.wdata.currentLength.toNat < VLAN_HEADER_LEN * tags) →
    (parseVlanHdrOnly d).1 = ETHER_INVALID_TYPE

/-- The stack can be counted in eight bits and the frame goes on behind it. -/
def TagsCountable (d : Decoding) : Prop :=
  ∀ tags type, TagStack d.wdata.current tags type →
    VLAN_HEADER_LEN * tags ≤ d.wdata.currentLength.toNat →
    tags < 256 ∧ VLAN_HEADER_LEN * tags < d.wdata.currentLength.toNat

/-- What is recorded does not move the window. -/
theorem Crossed.updateVlan {w w' : Wdata} {tags : Nat} (h : Crossed w w' tags) (offset : UInt16)
    (layerCnt : UInt8) : Crossed w (w'.updateVlan offset layerCnt) tags :=
  ⟨h.current, h.offset, h.length⟩

/-- A stack with something behind it is crossed, however many tags it has. -/
theorem parseVlanHdrOnly_crossed {d : Decoding} {tags : Nat} {type : UInt16}
    (hstack : TagStack d.wdata.current tags type)
    (hfits : VLAN_HEADER_LEN * tags < d.wdata.currentLength.toNat) :
    (parseVlanHdrOnly d).1 = type ∧ Crossed d.wdata (parseVlanHdrOnly d).2.wdata tags := by
  rw [parseVlanHdrOnly]
  split
  next d' hloop =>
    have hnone := vlanLoop_none (congrArg Prod.fst hloop) hstack
    omega
  next ethType layers d' hloop =>
    obtain ⟨tags', hstack', _, _, hcrossed⟩ := vlanLoop_some (congrArg Prod.fst hloop)
    obtain ⟨rfl, rfl⟩ := hstack.unique hstack'
    rw [hloop] at hcrossed
    refine ⟨rfl, ?_⟩
    show Crossed d.wdata (if _ then _ else _ : Decoding).wdata tags
    split
    · exact hcrossed.updateVlan ..
    · exact hcrossed

/-- If eight bits are enough the tags are recorded. -/
theorem parseVlanHdrOnly_recorded {d : Decoding} {tags : Nat} {type : UInt16}
    (hstack : TagStack d.wdata.current tags type) (hcount : tags < 256)
    (hfits : VLAN_HEADER_LEN * tags < d.wdata.currentLength.toNat) :
    Recorded d.wdata (parseVlanHdrOnly d).2.wdata tags := by
  have hcnt : (0 + UInt8.ofNat tags).toNat = tags := by
    rw [UInt8.zero_add]
    exact UInt8.toNat_ofNat_of_lt' hcount
  rw [parseVlanHdrOnly]
  split
  next d' hloop =>
    have hnone := vlanLoop_none (congrArg Prod.fst hloop) hstack
    omega
  next ethType layers d' hloop =>
    obtain ⟨tags', hstack', _, hlayers, _⟩ := vlanLoop_some (congrArg Prod.fst hloop)
    obtain ⟨rfl, rfl⟩ := hstack.unique hstack'
    have hne : layers ≠ 0 := by
      intro hzero
      have hpos := hstack.pos
      rw [← hlayers, hzero] at hcnt
      exact absurd hcnt (Nat.ne_of_lt hpos)
    rw [if_pos hne]
    refine ⟨rfl, ?_, rfl⟩
    rw [← hcnt, ← hlayers]
    rfl

/-- Without the whole stack there is no type. -/
theorem parseVlanHdrOnly_ended {d : Decoding}
    (h : ∀ tags type, TagStack d.wdata.current tags type →
      d.wdata.currentLength.toNat ≤ VLAN_HEADER_LEN * tags) :
    (parseVlanHdrOnly d).1 = ETHER_INVALID_TYPE := by
  rw [parseVlanHdrOnly]
  split
  next => rfl
  next hloop =>
    obtain ⟨tags, hstack, hfits, _⟩ := vlanLoop_some (congrArg Prod.fst hloop)
    exact absurd hfits (Nat.not_lt_of_le (h tags _ hstack))

/-- A frame that ends with its last tag is not crossed. -/
theorem not_crossed_of_ends {d : Decoding} {tags : Nat} {type : UInt16}
    (hstack : TagStack d.wdata.current tags type)
    (hends : d.wdata.currentLength.toNat = VLAN_HEADER_LEN * tags) :
    ¬ Crossed d.wdata (parseVlanHdrOnly d).2.wdata tags := by
  intro hcrossed
  have hpos := hstack.pos
  have hleft := vlanLoop_pos d 0 (by rw [hends, VLAN_HEADER_LEN]; omega)
  have hlength := hcrossed.length
  rw [parseVlanHdrOnly] at hlength
  split at hlength
  next d' hloop =>
    rw [hloop] at hleft
    exact absurd hlength (Nat.ne_of_gt (by rw [hends]; exact Nat.lt_add_of_pos_left hleft))
  next hloop =>
    obtain ⟨tags', hstack', hfits, _⟩ := vlanLoop_some (congrArg Prod.fst hloop)
    obtain ⟨rfl, _⟩ := hstack.unique hstack'
    omega

/-- Parsing is exact if and only if the stack can be counted in eight bits and the frame does not
end with it. -/
theorem vlanExact_iff (d : Decoding) : VlanExact d ↔ TagsCountable d := by
  constructor
  · intro h tags type hstack hfits
    obtain ⟨_, hcrossed, hrecorded⟩ := h.found tags type hstack hfits
    refine ⟨hrecorded.count ▸ UInt8.toNat_lt _, Nat.lt_of_le_of_ne hfits fun hends => ?_⟩
    exact not_crossed_of_ends hstack hends.symm hcrossed
  · intro h
    refine ⟨fun tags type hstack hfits => ?_, fun hended => ?_⟩
    · obtain ⟨hcount, hlt⟩ := h tags type hstack hfits
      obtain ⟨htype, hcrossed⟩ := parseVlanHdrOnly_crossed hstack hlt
      exact ⟨htype, hcrossed, parseVlanHdrOnly_recorded hstack hcount hlt⟩
    · exact parseVlanHdrOnly_ended fun tags type hstack => Nat.le_of_lt (hended tags type hstack)

/-- So many 802.1Q tags with an IPv4 packet behind them. -/
def taggedFrame (tags : Nat) : Bytes := fun i =>
  if i + 4 < 4 * tags then if i % 4 = 2 then 0x81 else 0 else if i + 2 = 4 * tags then 8 else 0

theorem taggedFrame_stack (tags : Nat) :
    TagStack (taggedFrame (tags + 1)) (tags + 1) ETHER_IPV4_NET_ORDER := by
  induction tags with
  | zero => exact .last (p := taggedFrame 1) (by decide)
  | succ tags ih =>
      have htype : (taggedFrame (tags + 2)).tagType = ETHER_VLAN_NET_ORDER := by
        have hlow : taggedFrame (tags + 2) 2 = 0x81 := by
          rw [taggedFrame, if_pos (by omega), if_pos (by omega)]
        have hhigh : taggedFrame (tags + 2) (2 + 1) = 0 := by
          rw [taggedFrame, if_pos (by omega), if_neg (by omega)]
        rw [Bytes.tagType, Bytes.u16, hlow, hhigh]
        rfl
      have hskip : (taggedFrame (tags + 2)).skip VLAN_HEADER_LEN = taggedFrame (tags + 1) := by
        funext i
        have hmod : (4 + i) % 4 = i % 4 := by omega
        have hbefore : 4 + i + 4 < 4 * (tags + 2) ↔ i + 4 < 4 * (tags + 1) := by omega
        have hlast : 4 + i + 2 = 4 * (tags + 2) ↔ i + 2 = 4 * (tags + 1) := by omega
        simp only [Bytes.skip_apply, taggedFrame, VLAN_HEADER_LEN, hmod, hbefore, hlast]
      exact .outer (.inl htype) (hskip ▸ ih)

/-- The frame with that many tags, right behind its Ethernet header. -/
def taggedDecoding (tags : Nat) : Decoding :=
  .start (taggedFrame tags) 14 (UInt16.ofNat (4 * tags + 20))

/-- Of 256 tags none is counted. -/
theorem tags_wrap : ¬ VlanExact (taggedDecoding 256) := by
  intro h
  have hfits : VLAN_HEADER_LEN * 256 ≤ (taggedDecoding 256).wdata.currentLength.toNat := by decide
  obtain ⟨_, _, hrecorded⟩ := h.found 256 _ (taggedFrame_stack 255) hfits
  have hlt : 256 < 2 ^ 8 :=
    Nat.lt_of_le_of_lt (Nat.le_of_eq hrecorded.count.symm) (UInt8.toNat_lt _)
  exact absurd hlt (by decide)

end Tapplet.Net
