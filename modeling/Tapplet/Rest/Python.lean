import Tapplet.Lib.Dict
import Mathlib.Algebra.GroupWithZero.Nat

/-!
# Values of the REST server

The values that `json.loads` makes of a request body, the exceptions that the handlers run
into, and the operations of Python that decide between a value and an exception. A string is
the list of its code points, since it may hold surrogates, which no encoded text has.
-/

namespace Tapplet.Rest

/-- The exceptions that the handlers can raise. -/
inductive Exc where
  | attributeError
  | typeError
  | valueError
  | keyError
  | overflowError
  | unicodeEncodeError
  | argumentError
deriving DecidableEq

abbrev PyStr := List Nat

/-- A literal of the source. -/
def py (s : String) : PyStr := s.toList.map Char.toNat

/-- A `float`: what is before the point, and whether there is nothing behind it. -/
inductive PyFloat where
  | finite (trunc : Int) (isInteger : Bool)
  | infinite
  | nan

/-- The integer that a float equals. -/
def PyFloat.integral : PyFloat → Option Int
  | .finite i true => some i
  | _ => none

/-- `int` of a float. -/
def PyFloat.toInt : PyFloat → Except Exc Int
  | .finite i _ => .ok i
  | .infinite => .error .overflowError
  | .nan => .error .valueError

/-- The value of a JSON text. An object lists its members as they stand in the text. -/
inductive Json where
  | null
  | bool (b : Bool)
  | int (i : Int)
  | float (f : PyFloat)
  | str (s : PyStr)
  | array (items : List Json)
  | object (members : List (PyStr × Json))

/-- The dictionary of an object; no other value has `keys`. -/
def Json.dict : Json → Except Exc (Dict PyStr Json)
  | .object members => .ok (Dict.ofEntries members)
  | _ => .error .attributeError

/-- `isinstance(v, dict)` -/
def Json.isDict : Json → Bool
  | .object _ => true
  | _ => false

/-- What Python leaves to the tables of Unicode and to its version: the value of a decimal
digit, and how many digits `int` takes. -/
structure Python where
  decimal : Nat → Option Nat
  intMaxStrDigits : Option Nat
  decimal_ascii : ∀ c < 128, decimal c = if 48 ≤ c ∧ c ≤ 57 then some (c - 48) else none

variable (p : Python)

/-- `str.isdecimal` -/
def isdecimal (s : PyStr) : Bool := s ≠ [] && s.all fun c => (p.decimal c).isSome

/-- `int` of a string of decimal digits. -/
def int (s : PyStr) : Except Exc Nat :=
  if p.intMaxStrDigits.any (· < s.length) then .error .valueError
  else .ok (s.foldl (fun n c => n * 10 + (p.decimal c).getD 0) 0)

/-- The first group of the first match of `group_(\d+)`. -/
def findGroup : PyStr → Option PyStr
  | [] => none
  | c :: cs =>
      let digits := ((c :: cs).drop 6).takeWhile fun c => (p.decimal c).isSome
      if (py "group_").isPrefixOf (c :: cs) ∧ digits ≠ [] then some digits else findGroup cs

/-- `bytes(s, "utf-8")`: a surrogate cannot be encoded. -/
def utf8 (s : PyStr) : Except Exc String :=
  if s.all fun c => c.isValidChar then .ok (String.ofList (s.map Char.ofNat))
  else .error .unicodeEncodeError

/-- Assigning to a `c_ushort` or `c_ubyte` of `w` bits: an integer is cut to its low bits. -/
def cUint (w : Nat) : Json → Except Exc (BitVec w)
  | .int i => .ok (BitVec.ofInt w i)
  | .bool b => .ok (if b then 1 else 0)
  | _ => .error .typeError

/-- What a C function reads of a `char` array: the bytes before the first 0. -/
def cString (s : String) : String := String.ofList (s.toList.takeWhile (· ≠ '\x00'))

/-! ## Numbers as text -/

/-- `int` takes at least 640 digits, if it has a limit. -/
def TakesDigits : Prop := ∀ n ∈ p.intMaxStrDigits, 640 ≤ n

theorem py_append (s t : String) : py (s ++ t) = py s ++ py t := by
  rw [py, String.toList_append, List.map_append]
  rfl

theorem py_toString (n : Nat) : py (toString n) = (Nat.toDigits 10 n).map Char.toNat := by
  rw [py]
  exact congrArg (List.map Char.toNat) Nat.toList_repr

theorem range_of_isDigit {c : Char} (h : c.isDigit = true) : 48 ≤ c.toNat ∧ c.toNat ≤ 57 := by
  obtain ⟨hle, hge⟩ := Bool.and_eq_true_iff.mp h
  exact ⟨UInt32.le_iff_toNat_le.mp (of_decide_eq_true hle),
    UInt32.le_iff_toNat_le.mp (of_decide_eq_true hge)⟩

theorem decimal_of_isDigit {c : Char} (h : c.isDigit = true) :
    p.decimal c.toNat = some (c.toNat - 48) := by
  have hrange := range_of_isDigit h
  rw [p.decimal_ascii _ (by omega), if_pos hrange]

theorem range_of_mem_toString {n c : Nat} (h : c ∈ py (toString n)) : 48 ≤ c ∧ c ≤ 57 := by
  rw [py_toString] at h
  obtain ⟨c, hc, rfl⟩ := List.mem_map.mp h
  exact range_of_isDigit (Nat.isDigit_of_mem_toDigits (by decide) (by decide) hc)

/-- The text of a number is made of decimal digits. -/
theorem decimal_toString {n c : Nat} (h : c ∈ py (toString n)) : (p.decimal c).isSome := by
  have hrange := range_of_mem_toString h
  rw [p.decimal_ascii _ (by omega), if_pos hrange]
  rfl

theorem py_toString_ne_nil (n : Nat) : py (toString n) ≠ [] := by
  rw [py_toString, Ne, List.map_eq_nil_iff]
  exact Nat.toDigits_ne_nil

theorem isdecimal_toString (n : Nat) : isdecimal p (py (toString n)) = true := by
  rw [isdecimal, Bool.and_eq_true, decide_eq_true_eq, List.all_eq_true]
  exact ⟨py_toString_ne_nil n, fun c hc => decimal_toString p hc⟩

theorem foldl_decimal_toString (n : Nat) :
    (py (toString n)).foldl (fun m c => m * 10 + (p.decimal c).getD 0) 0 = n := by
  rw [py_toString, List.foldl_map]
  refine Eq.trans ?_ Nat.ofDigitChars_ten_toDigits
  rw [Nat.ofDigitChars_eq_foldl]
  refine List.foldl_ext _ _ _ fun m c hc => ?_
  rw [decimal_of_isDigit p (Nat.isDigit_of_mem_toDigits (by decide) (by decide) hc), Nat.mul_comm]
  rfl

/-- If `int` takes the text of a number, it gives the number. -/
theorem int_toString_ok {n m : Nat} (h : int p (py (toString n)) = .ok m) : m = n := by
  rw [int, foldl_decimal_toString] at h
  split at h
  · cases h
  · exact (Except.ok.inj h).symm

theorem int_toString (digits : TakesDigits p) {n : Nat} (hn : n < 10 ^ 10) :
    int p (py (toString n)) = .ok n := by
  have hlen : (py (toString n)).length ≤ 10 := by
    rw [py_toString, List.length_map]
    exact (Nat.length_toDigits_le_iff (by decide) (by decide)).mpr hn
  have hlimit : ¬p.intMaxStrDigits.any (· < (py (toString n)).length) = true := by
    intro h
    obtain ⟨limit, hlimit, hlt⟩ := (Option.any_eq_true ..).mp h
    have hle := digits limit hlimit
    have hlt := of_decide_eq_true hlt
    omega
  rw [int, if_neg hlimit, foldl_decimal_toString]

theorem toString_injective {m n : Nat} (h : py (toString m) = py (toString n)) : m = n := by
  rw [py_toString, py_toString] at h
  have hchars := (List.map_injective_iff.mpr fun _ _ => Char.toNat_inj.mp) h
  rw [← Nat.ofDigitChars_ten_toDigits (n := m), hchars, Nat.ofDigitChars_ten_toDigits]

end Tapplet.Rest
