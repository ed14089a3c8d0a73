import Tapplet.Shm.Registry

/-!
# The bytes of the segment

The shared memory segment is an array of bytes. It starts with the header `sf_shm_main_t` and
the array of `sf_shm_map_t` behind it; their fields are read and written at the offsets they
have in the C structures. The fields share the array with the maps themselves, so a store into
a map may reach the header.
-/

namespace Tapplet.Shm

/-- The bytes of the segment, from `start_ptr` on. -/
abbrev Memory := Nat → UInt8

/-- The `n` bytes at `offset`. -/
def bytesAt (mem : Memory) (offset n : Nat) : List UInt8 := (List.range' offset n).map mem

/-- Store `bytes` from `offset` on. -/
def store (mem : Memory) (offset : Nat) (bytes : List UInt8) : Memory :=
  fun a => if offset ≤ a ∧ a < offset + bytes.length then bytes.getD (a - offset) 0 else mem a

/-- A `uint32_t` in memory, little endian. -/
def u32At (mem : Memory) (offset : Nat) : Nat :=
  (mem offset).toNat + 2 ^ 8 * (mem (offset + 1)).toNat + 2 ^ 16 * (mem (offset + 2)).toNat +
    2 ^ 24 * (mem (offset + 3)).toNat

/-- The bytes of a `uint32_t`. -/
def u32Bytes (v : Nat) : List UInt8 :=
  [UInt8.ofNat v, UInt8.ofNat (v / 2 ^ 8), UInt8.ofNat (v / 2 ^ 16), UInt8.ofNat (v / 2 ^ 24)]

/-- Store a `uint32_t`. -/
def storeU32 (mem : Memory) (offset v : Nat) : Memory := store mem offset (u32Bytes v)

/-- `sf_memset_zero` -/
def sfMemsetZero (mem : Memory) (offset count : Nat) : Memory :=
  fun a => if offset ≤ a ∧ a < offset + count then 0 else mem a

/-! ## The fields -/

/-- `sizeof(sf_shm_main_t)` -/
def sizeofShmMain : Nat := 88

/-- `sizeof(sf_shm_map_t)` -/
def sizeofShmMap : Nat := 40

/-- `SF_SHM_MEM_VERSION_LEN` -/
def sfShmMemVersionLen : Nat := 32

/-- `SF_SHM_MEM_DEVICE_TYPE_LEN` -/
def sfShmMemDeviceTypeLen : Nat := 31

/-! The offsets of the fields of `sf_shm_main_t`. -/

def versionAt : Nat := 0

def deviceTypeNameAt : Nat := 32

def syncLockAt : Nat := 63

def statusAt : Nat := 64

def usedMemAt : Nat := 68

def freeMemAt : Nat := 72

def configMemStartAt : Nat := 76

def configMemEndAt : Nat := 80

def mapCountAt : Nat := 84

/-- `sf_shm_main_t.version` -/
def version (mem : Memory) : List UInt8 := bytesAt mem versionAt sfShmMemVersionLen

/-- `sf_shm_main_t.config_mem_start` -/
def configMemStart (mem : Memory) : Nat := u32At mem configMemStartAt

/-- `sf_shm_main_t.config_mem_end` -/
def configMemEnd (mem : Memory) : Nat := u32At mem configMemEndAt

/-- `sf_shm_main_t.map_count` -/
def mapCount (mem : Memory) : Nat := u32At mem mapCountAt

/-- The offset of `shm_maps[i]`. -/
def shmMapAt (i : Nat) : Nat := sizeofShmMain + sizeofShmMap * i

/-- The offset of `shm_maps[i].offset`. -/
def mapOffsetAt (i : Nat) : Nat := shmMapAt i + sfShmMapNameLen

/-- The offset of `shm_maps[i].len`. -/
def mapLenAt (i : Nat) : Nat := shmMapAt i + sfShmMapNameLen + 4

/-- The C string in `shm_maps[i].name`. -/
def mapName (mem : Memory) (i : Nat) : List UInt8 :=
  (bytesAt mem (shmMapAt i) sfShmMapNameLen).takeWhile (· ≠ 0)

/-- `shm_maps[i].offset` -/
def mapOffset (mem : Memory) (i : Nat) : Nat := u32At mem (mapOffsetAt i)

/-- `shm_maps[i].len` -/
def mapLen (mem : Memory) (i : Nat) : Nat := u32At mem (mapLenAt i)

/-! ## Reading bytes -/

variable {mem mem' : Memory}

@[simp] theorem length_bytesAt (mem : Memory) (offset n : Nat) :
    (bytesAt mem offset n).length = n := by
  simp [bytesAt]

theorem bytesAt_add (mem : Memory) (offset m n : Nat) :
    bytesAt mem offset (m + n) = bytesAt mem offset m ++ bytesAt mem (offset + m) n := by
  simp only [bytesAt, ← List.map_append, Nat.add_comm m n]
  rw [Nat.add_comm n m, ← List.range'_append_1]

theorem bytesAt_take (mem : Memory) (offset : Nat) {m n : Nat} (h : m ≤ n) :
    (bytesAt mem offset n).take m = bytesAt mem offset m := by
  obtain ⟨k, rfl⟩ := Nat.exists_eq_add_of_le h
  rw [bytesAt_add, List.take_left' (length_bytesAt mem offset m)]

theorem bytesAt_drop (mem : Memory) (offset : Nat) {m n : Nat} (h : m ≤ n) :
    (bytesAt mem offset n).drop m = bytesAt mem (offset + m) (n - m) := by
  obtain ⟨k, rfl⟩ := Nat.exists_eq_add_of_le h
  rw [bytesAt_add, List.drop_left' (length_bytesAt mem offset m), Nat.add_sub_cancel_left]

theorem bytesAt_congr {offset n : Nat}
    (h : ∀ a, offset ≤ a → a < offset + n → mem' a = mem a) :
    bytesAt mem' offset n = bytesAt mem offset n := by
  refine List.map_congr_left fun a ha => ?_
  rw [List.mem_range'_1] at ha
  exact h a ha.1 ha.2

theorem getD_bytesAt (mem : Memory) (offset : Nat) {i n : Nat} (h : i < n) :
    (bytesAt mem offset n).getD i 0 = mem (offset + i) := by
  simp [bytesAt, h]

theorem u32At_congr {a b : Nat} (h : ∀ i < 4, mem' (a + i) = mem (b + i)) :
    u32At mem' a = u32At mem b := by
  have h0 : mem' a = mem b := h 0 (by decide)
  simp only [u32At]
  rw [h0, h 1 (by decide), h 2 (by decide), h 3 (by decide)]

/-! ## What a store leaves -/

theorem store_of_lt (bytes : List UInt8) {offset a : Nat} (h : a < offset) :
    store mem offset bytes a = mem a :=
  if_neg (by omega)

theorem store_of_ge {bytes : List UInt8} {offset a : Nat} (h : offset + bytes.length ≤ a) :
    store mem offset bytes a = mem a :=
  if_neg (by omega)

/-- Reading back what was stored. -/
theorem bytesAt_store (mem : Memory) (offset : Nat) (bytes : List UInt8) :
    bytesAt (store mem offset bytes) offset bytes.length = bytes := by
  refine List.ext_getElem (length_bytesAt _ _ _) fun i hi hi' => ?_
  simp [bytesAt, store, hi']

theorem storeU32_of_lt (v : Nat) {offset a : Nat} (h : a < offset) :
    storeU32 mem offset v a = mem a :=
  store_of_lt _ h

theorem storeU32_of_ge (v : Nat) {offset a : Nat} (h : offset + 4 ≤ a) :
    storeU32 mem offset v a = mem a :=
  store_of_ge h

/-- A `uint32_t` is stored modulo `2 ^ 32`. -/
theorem u32At_storeU32 (mem : Memory) (offset v : Nat) :
    u32At (storeU32 mem offset v) offset = v % 2 ^ 32 := by
  simp only [u32At, storeU32, store, u32Bytes, List.length_cons, List.length_nil]
  simp only [Nat.le_refl, true_and, Nat.le_add_right, Nat.lt_add_right_iff_pos,
    Nat.add_lt_add_iff_left, Nat.sub_self, Nat.add_sub_cancel_left, Nat.reduceAdd,
    Nat.reduceLT, if_true, List.getD_cons_zero, List.getD_cons_succ, UInt8.toNat_ofNat']
  omega

theorem sfMemsetZero_of_lt (count : Nat) {offset a : Nat} (h : a < offset) :
    sfMemsetZero mem offset count a = mem a :=
  if_neg (by omega)

/-! ## Entries of the table -/

theorem header_le (n : Nat) : 88 ≤ shmMapAt n := Nat.le_add_right _ _

theorem shmMapAt_succ (i : Nat) : shmMapAt (i + 1) = shmMapAt i + 40 := by
  simp only [shmMapAt, sizeofShmMap]
  omega

theorem shmMapAt_mono {i j : Nat} (h : i ≤ j) : shmMapAt i ≤ shmMapAt j := by
  simp only [shmMapAt, sizeofShmMap]
  omega

/-- An entry whose bytes are the same reads the same. -/
theorem entry_congr {mem mem' : Memory} {i : Nat}
    (h : ∀ a, shmMapAt i ≤ a → a < shmMapAt (i + 1) → mem' a = mem a) :
    mapName mem' i = mapName mem i ∧ mapOffset mem' i = mapOffset mem i ∧
      mapLen mem' i = mapLen mem i := by
  rw [shmMapAt_succ] at h
  refine ⟨?_, ?_, ?_⟩
  · have hname : sfShmMapNameLen ≤ 40 := by decide
    rw [mapName, bytesAt_congr fun a h₁ h₂ => h a h₁ (by omega), mapName]
  · refine u32At_congr fun j hj => h _ ?_ ?_ <;> simp only [mapOffsetAt, sfShmMapNameLen] <;> omega
  · refine u32At_congr fun j hj => h _ ?_ ?_ <;> simp only [mapLenAt, sfShmMapNameLen] <;> omega

/-- The string that `strcpy` has put into `shm_maps[i].name`. -/
theorem mapName_store (mem : Memory) (i : Nat) (name : Name) :
    mapName (store mem (shmMapAt i) (name.bytes ++ [0])) i = name.bytes := by
  obtain ⟨n, hn⟩ : ∃ n, n = name.bytes.length + 1 := ⟨_, rfl⟩
  have hle : n ≤ sfShmMapNameLen := hn ▸ name.terminated
  obtain ⟨m, hm⟩ := Nat.exists_eq_add_of_le hle
  have hstored : bytesAt (store mem (shmMapAt i) (name.bytes ++ [0])) (shmMapAt i) n =
      name.bytes ++ [0] := by
    have h := bytesAt_store mem (shmMapAt i) (name.bytes ++ [0])
    rwa [List.length_append, List.length_singleton, ← hn] at h
  have hne : ∀ b ∈ name.bytes, decide (b ≠ 0) = true := fun b hb =>
    decide_eq_true (name.nonzero b hb)
  rw [mapName, hm, bytesAt_add, hstored, List.append_assoc,
    List.takeWhile_append_of_pos hne]
  simp

end Tapplet.Shm
