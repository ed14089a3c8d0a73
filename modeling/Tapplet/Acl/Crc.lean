import Tapplet.Acl.Basic
import Mathlib.Logic.Function.Iterate

/-!
# The hash function without processor support

`sf_crc32_gen` of `sf_crc_nshell.h`, which the store uses where the processor has no
instruction for it: CRC-32, four bytes at a time. The table of the source is the one its
header describes; here its entries are computed from the polynomial.
-/

namespace Tapplet.Acl

/-- One bit of the reflected polynomial division. -/
def crcShift (crc : UInt32) : UInt32 :=
  if crc &&& 1 = 1 then (crc >>> 1) ^^^ 0xEDB88320 else crc >>> 1

/-- `sf_crc32_table[slice][index]`. -/
def sfCrc32Table : Nat → UInt32 → UInt32
  | 0, index => crcShift^[8] index
  | slice + 1, index =>
      let crc := sfCrc32Table slice index
      (crc >>> 8) ^^^ (crcShift^[8] (crc &&& 0xff))

/-- Four bytes of memory as a little-endian word. -/
def leWord (a b c d : UInt8) : UInt32 :=
  a.toUInt32 ||| (b.toUInt32 <<< 8) ||| (c.toUInt32 <<< 16) ||| (d.toUInt32 <<< 24)

/-- The two loops of `sf_crc32_gen`. -/
def sfCrc32Loop : List UInt8 → UInt32 → UInt32
  | a :: b :: c :: d :: rest, crc =>
      let d1 := leWord a b c d ^^^ crc
      sfCrc32Loop rest (sfCrc32Table 0 ((d1 >>> 24) &&& 0xff) ^^^
        sfCrc32Table 1 ((d1 >>> 16) &&& 0xff) ^^^ sfCrc32Table 2 ((d1 >>> 8) &&& 0xff) ^^^
        sfCrc32Table 3 (d1 &&& 0xff))
  | rest, crc =>
      rest.foldl (fun crc d => sfCrc32Table 0 ((crc ^^^ d.toUInt32) &&& 0xff) ^^^ (crc >>> 8)) crc

def sfCrc32Gen (data : List UInt8) : UInt32 := sfCrc32Loop data 0xffffffff ^^^ 0xffffffff

example : sfCrc32Table 0 1 = 0x77073096 ∧ sfCrc32Table 3 255 = 0xde0506f1 := by decide +kernel

/-! ## Two configurations of one bucket -/

/-- The addresses of the two configurations below. -/
def sampleInetPton (isIpv6 : Bool) (address : String) : Option (List UInt8) :=
  if isIpv6 then none
  else if address = "10.0.0.1" then some [10, 0, 0, 1]
  else if address = "10.0.0.2" then some [10, 0, 0, 2]
  else if address = "10.0.168.212" then some [10, 0, 168, 212]
  else none

def sampleEnv : Env := ⟨sfCrc32Gen, sampleInetPton⟩

/-- All traffic between two hosts. -/
def hostRule (sip dip : String) : RuleCfg := ⟨0, 0, 65535, 0, 65535, 0, 255, sip, 32, dip, 32⟩

def ruleA : RuleCfg := hostRule "10.0.0.1" "10.0.0.2"
def ruleB : RuleCfg := hostRule "10.0.0.1" "10.0.168.212"

end Tapplet.Acl
