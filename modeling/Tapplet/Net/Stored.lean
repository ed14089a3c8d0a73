import Tapplet.Acl.Rte
import Tapplet.Net.Frame

/-!
# The metadata in memory

A header field is loaded as a number and written to the metadata as it was loaded. Its bytes there
are the bytes of the packet.
-/

namespace Tapplet.Net

/-! ## Numbers -/

/-- A number of two halves. -/
theorem or_shiftLeft {k a b : Nat} (ha : a < 2 ^ k) (hb : b < 2 ^ k) :
    a ||| b <<< k % 2 ^ (k + k) = a + b * 2 ^ k := by
  have hlt : b <<< k < 2 ^ (k + k) := by
    rw [Nat.shiftLeft_eq, Nat.pow_add]
    exact Nat.mul_lt_mul_of_pos_right hb (Nat.two_pow_pos k)
  rw [Nat.mod_eq_of_lt hlt, Nat.or_comm, ← Nat.shiftLeft_add_eq_or_of_lt ha, Nat.shiftLeft_eq,
    Nat.add_comm]

theorem toNat_join16 (a b : UInt8) :
    (a.toUInt16 ||| b.toUInt16 <<< 8).toNat = a.toNat + b.toNat * 256 := by
  rw [UInt16.toNat_or, UInt16.toNat_shiftLeft, UInt8.toNat_toUInt16, UInt8.toNat_toUInt16]
  exact or_shiftLeft a.toNat_lt b.toNat_lt

theorem toNat_join32 (a b : UInt16) :
    (a.toUInt32 ||| b.toUInt32 <<< 16).toNat = a.toNat + b.toNat * 65536 := by
  rw [UInt32.toNat_or, UInt32.toNat_shiftLeft, UInt16.toNat_toUInt32, UInt16.toNat_toUInt32]
  exact or_shiftLeft a.toNat_lt b.toNat_lt

theorem toNat_join64 (a b : UInt32) :
    (a.toUInt64 ||| b.toUInt64 <<< 32).toNat = a.toNat + b.toNat * 4294967296 := by
  have h32 : (32 : UInt64).toNat % 64 = 32 := by decide
  have hjoin := or_shiftLeft a.toNat_lt b.toNat_lt
  rw [UInt64.toNat_or, UInt64.toNat_shiftLeft, UInt32.toNat_toUInt64, UInt32.toNat_toUInt64, h32]
  exact hjoin

/-- The bytes of a number in memory, the low byte first. -/
def bytes16 (x : UInt16) : Vector UInt8 2 := #v[x.toUInt8, (x >>> 8).toUInt8]

def bytes32 (x : UInt32) : Vector UInt8 4 := bytes16 x.toUInt16 ++ bytes16 (x >>> 16).toUInt16

def bytes64 (x : UInt64) : Vector UInt8 8 := bytes32 x.toUInt32 ++ bytes32 (x >>> 32).toUInt32

theorem bytes16_join (a b : UInt8) : bytes16 (a.toUInt16 ||| b.toUInt16 <<< 8) = #v[a, b] := by
  have hjoin := toNat_join16 a b
  have ha : a.toNat < 256 := a.toNat_lt
  have hb : b.toNat < 256 := b.toNat_lt
  generalize a.toUInt16 ||| b.toUInt16 <<< 8 = x at hjoin
  have hlow : x.toUInt8 = a := by
    rw [← UInt8.toNat_inj, UInt16.toNat_toUInt8, hjoin]
    omega
  have hhigh : (x >>> 8).toUInt8 = b := by
    rw [← UInt8.toNat_inj, UInt16.toNat_toUInt8, UInt16.toNat_shiftRight, hjoin,
      Nat.shiftRight_eq_div_pow]
    show (a.toNat + b.toNat * 256) / 256 % 256 = b.toNat
    omega
  rw [bytes16, hlow, hhigh]

theorem bytes32_join (a b : UInt16) :
    bytes32 (a.toUInt32 ||| b.toUInt32 <<< 16) = bytes16 a ++ bytes16 b := by
  have hjoin := toNat_join32 a b
  have ha : a.toNat < 65536 := a.toNat_lt
  have hb : b.toNat < 65536 := b.toNat_lt
  generalize a.toUInt32 ||| b.toUInt32 <<< 16 = x at hjoin
  have hlow : x.toUInt16 = a := by
    rw [← UInt16.toNat_inj, UInt32.toNat_toUInt16, hjoin]
    omega
  have hhigh : (x >>> 16).toUInt16 = b := by
    rw [← UInt16.toNat_inj, UInt32.toNat_toUInt16, UInt32.toNat_shiftRight, hjoin,
      Nat.shiftRight_eq_div_pow]
    show (a.toNat + b.toNat * 65536) / 65536 % 65536 = b.toNat
    omega
  rw [bytes32, hlow, hhigh]

theorem bytes64_join (a b : UInt32) :
    bytes64 (a.toUInt64 ||| b.toUInt64 <<< 32) = bytes32 a ++ bytes32 b := by
  have hjoin := toNat_join64 a b
  have ha : a.toNat < 4294967296 := a.toNat_lt
  have hb : b.toNat < 4294967296 := b.toNat_lt
  generalize a.toUInt64 ||| b.toUInt64 <<< 32 = x at hjoin
  have hlow : x.toUInt32 = a := by
    rw [← UInt32.toNat_inj, UInt64.toNat_toUInt32, hjoin]
    omega
  have hhigh : (x >>> 32).toUInt32 = b := by
    rw [← UInt32.toNat_inj, UInt64.toNat_toUInt32, UInt64.toNat_shiftRight, hjoin,
      Nat.shiftRight_eq_div_pow]
    show (a.toNat + b.toNat * 4294967296) / 4294967296 % 4294967296 = b.toNat
    omega
  rw [bytes64, hlow, hhigh]

/-- So many bytes behind the pointer. -/
def Bytes.load (p : Bytes) (n : Nat) : Vector UInt8 n := .ofFn fun i => p i

theorem Bytes.load_append (p : Bytes) (m n : Nat) :
    p.load m ++ (p.skip m).load n = p.load (m + n) := by
  apply Vector.ext
  intro i hi
  simp only [load, Vector.getElem_append, Vector.getElem_ofFn, skip_apply]
  split
  next => rfl
  next hge => rw [Nat.add_sub_cancel' (Nat.le_of_not_lt hge)]

theorem Bytes.load_of_starts {p : Bytes} {n : Nat} {v : Vector UInt8 n}
    (h : p.Starts v.toList) : p.load n = v := by
  apply Vector.ext
  intro i hi
  rw [load, Vector.getElem_ofFn, starts_getElem h i (by rwa [Vector.length_toList]),
    Vector.getElem_toList]

theorem bytes16_u16 (p : Bytes) (i : Nat) : bytes16 (p.u16 i) = (p.skip i).load 2 := by
  rw [Bytes.u16, bytes16_join]
  apply Vector.ext
  intro j hj
  rw [Bytes.load, Vector.getElem_ofFn, Bytes.skip_apply]
  cases j with
  | zero => rfl
  | succ j =>
      cases j with
      | zero => rfl
      | succ j => omega

theorem bytes32_u32 (p : Bytes) (i : Nat) : bytes32 (p.u32 i) = (p.skip i).load 4 := by
  rw [Bytes.u32, bytes32_join, bytes16_u16, bytes16_u16, ← Bytes.skip_skip]
  exact Bytes.load_append _ 2 2

theorem bytes64_u64 (p : Bytes) (i : Nat) : bytes64 (p.u64 i) = (p.skip i).load 8 := by
  rw [Bytes.u64, bytes64_join, bytes32_u32, bytes32_u32, ← Bytes.skip_skip]
  exact Bytes.load_append _ 4 4

theorem netToHost16_join (a b : UInt8) :
    netToHost16 (loadType a b) = UInt16.ofNat (256 * a.toNat + b.toNat) := by
  have ha : a.toNat < 256 := a.toNat_lt
  have hb : b.toNat < 256 := b.toNat_lt
  have hjoin : (loadType a b).toNat = a.toNat + b.toNat * 256 := toNat_join16 a b
  generalize loadType a b = x at hjoin
  have hhigh : x.toNat >>> 8 = b.toNat := by
    rw [hjoin, Nat.shiftRight_eq_div_pow]
    omega
  have hlow : x.toNat <<< 8 % 65536 = a.toNat <<< 8 := by
    rw [hjoin, Nat.shiftLeft_eq, Nat.shiftLeft_eq]
    omega
  rw [← UInt16.toNat_inj, netToHost16, UInt16.toNat_or, UInt16.toNat_shiftRight,
    UInt16.toNat_shiftLeft, UInt16.toNat_ofNat']
  show x.toNat >>> 8 ||| x.toNat <<< 8 % 65536 = (256 * a.toNat + b.toNat) % 65536
  rw [hhigh, hlow, Nat.or_comm, ← Nat.shiftLeft_add_eq_or_of_lt hb, Nat.shiftLeft_eq]
  omega

/-! ## The metadata in memory -/

/-- An address in memory. An IPv4 address is written over a cleared one. -/
def IpAddr.stored : IpAddr → Acl.IpAddr
  | .v4 addr => Acl.IpAddr.setAddrV4 (.replicate 16 0) (bytes32 addr)
  | .v6 upper lower => bytes64 upper ++ bytes64 lower

def IpWdata.stored (w : IpWdata) : Acl.IpWdata where
  offset := w.offset
  version := w.version
  protocol := w.protocol
  headerLen := w.headerLen
  payloadLen := w.payloadLen
  sip := w.sip.stored
  dip := w.dip.stored
  isFrag := if w.isFrag then 1 else 0
  reassOver := 0

def L4Wdata.stored (w : L4Wdata) : Acl.L4Wdata :=
  ⟨w.offset, bytes16 w.sport, bytes16 w.dport, w.headerLen⟩

/-- The metadata by which the packet is classified. -/
def Wdata.stored (w : Wdata) (cachelineBytes : Vector UInt8 64) : Acl.SfWdata :=
  ⟨cachelineBytes, w.ipWdata.stored, w.l4Wdata.stored⟩

end Tapplet.Net
