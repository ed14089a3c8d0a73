import Tapplet.Acl.Read

/-!
# Addresses as text

A C library that meets what is relied on: an IPv4 address is four decimal numbers, an IPv6
address eight groups of four hexadecimal digits, or `::` when it is zero. `inet_ntop` writes such
texts, and `inet_pton` reads what it writes.
-/

namespace Tapplet.Acl

/-- The text of a list of parts. -/
def joinParts (sep : Char) (parts : List (List Char)) : String :=
  String.ofList ([sep].intercalate parts)

/-- The parts of a text, when there are `n` of them. -/
def splitParts (sep : Char) (n : Nat) (s : String) : Option (List (List Char)) :=
  let parts := s.toList.splitOn sep
  if parts.length = n then some parts else none

def decimalText (b : UInt8) : List Char := Nat.toDigits 10 b.toNat

/-- A decimal number below 256 without leading zeros. -/
def decimalByte (cs : List Char) : Option UInt8 :=
  let n := cs.foldl (fun n c => n * 10 + (c.toNat - 48)) 0
  if n < 256 ∧ Nat.toDigits 10 n = cs then some (UInt8.ofNat n) else none

def hexText (b : UInt8) : List Char := [Nat.digitChar (b.toNat / 16), Nat.digitChar (b.toNat % 16)]

def hexDigit (c : Char) : Option Nat := (List.range 16).find? fun d => Nat.digitChar d = c

def hexByte (c d : Char) : Option UInt8 := do
  let high ← hexDigit c
  let low ← hexDigit d
  some (UInt8.ofNat (high * 16 + low))

/-- The bytes of an IPv6 address, two by two. -/
def groups : List UInt8 → List (List Char)
  | a :: b :: rest => (hexText a ++ hexText b) :: groups rest
  | _ => []

def groupBytes : List Char → Option (List UInt8)
  | [c, d, c', d'] => do
      let a ← hexByte c d
      let b ← hexByte c' d'
      some [a, b]
  | _ => none

def inetNtop (isIpv6 : Bool) (a : List UInt8) : String :=
  if isIpv6 then if a = .replicate 16 0 then "::" else joinParts ':' (groups a)
  else joinParts '.' (a.map decimalText)

def inetPton (isIpv6 : Bool) (s : String) : Option (List UInt8) :=
  if isIpv6 then
    if s = "::" then some (.replicate 16 0)
    else (splitParts ':' 8 s).bind fun parts => (parts.mapM groupBytes).map List.flatten
  else (splitParts '.' 4 s).bind fun parts => parts.mapM decimalByte

/-! ## Parts -/

theorem splitParts_join {sep : Char} {parts : List (List Char)} (hsep : ∀ p ∈ parts, sep ∉ p)
    (hne : parts ≠ []) : splitParts sep parts.length (joinParts sep parts) = some parts := by
  simp only [splitParts, joinParts, String.toList_ofList, List.splitOn_intercalate sep hsep hne,
    if_true]

/-- A property of all bytes, by the numbers below 256. -/
theorem forall_uint8 {p : UInt8 → Prop} (h : ∀ n < 256, p (UInt8.ofNat n)) (b : UInt8) : p b := by
  have hb := h b.toNat b.toNat_lt
  rwa [UInt8.ofNat_toNat] at hb

theorem decimalByte_text (b : UInt8) : decimalByte (decimalText b) = some b := by
  revert b
  apply forall_uint8
  decide +kernel

theorem hexByte_text (b : UInt8) :
    hexByte (Nat.digitChar (b.toNat / 16)) (Nat.digitChar (b.toNat % 16)) = some b := by
  revert b
  apply forall_uint8
  decide +kernel

/-- The characters that the parts are made of. -/
theorem decimalText_chars (b : UInt8) :
    (decimalText b).length ≤ 3 ∧ ∀ c ∈ decimalText b, c.isDigit = true := by
  constructor
  · apply (Nat.length_toDigits_le_iff (by decide) (by decide)).mpr
    exact b.toNat_lt.trans (by decide)
  · intro c hc
    exact Nat.isDigit_of_mem_toDigits (by decide) (by decide) hc

def hexDigits : List Char := (List.range 16).map Nat.digitChar

theorem hexText_chars (b : UInt8) : ∀ c ∈ hexText b, c ∈ hexDigits := by
  have hb := b.toNat_lt
  have hdigit (d : Nat) (hd : d < 16) : Nat.digitChar d ∈ hexDigits :=
    List.mem_map_of_mem (List.mem_range.mpr hd)
  simp only [hexText, List.forall_mem_cons]
  exact ⟨hdigit _ (by omega), hdigit _ (by omega), by simp⟩

/-! ## Joined parts -/

section Join

variable {sep : Char} {p : Char → Prop}

/-- What holds of the separator and of the characters of the parts holds of the text. -/
theorem forall_mem_join {parts : List (List Char)} (hsep : p sep)
    (hparts : ∀ part ∈ parts, ∀ c ∈ part, p c) : ∀ c ∈ [sep].intercalate parts, p c := by
  induction parts with
  | nil =>
      intro c hc
      cases hc
  | cons part parts ih =>
      have hpart := hparts part List.mem_cons_self
      have ih := ih fun q hq => hparts q (List.mem_cons_of_mem _ hq)
      intro c hc
      by_cases hnil : parts = []
      · rw [hnil, List.intercalate_singleton] at hc
        exact hpart c hc
      · rw [List.intercalate_cons_of_ne_nil hnil] at hc
        simp only [List.mem_append, List.mem_singleton] at hc
        obtain (hc | rfl) | hc := hc
        · exact hpart c hc
        · exact hsep
        · exact ih c hc

theorem length_join_le {parts : List (List Char)} {k : Nat} (h : ∀ part ∈ parts, part.length ≤ k) :
    ([sep].intercalate parts).length ≤ parts.length * (k + 1) := by
  induction parts with
  | nil => exact Nat.zero_le _
  | cons part parts ih =>
      have hpart := h part List.mem_cons_self
      have ih := ih fun q hq => h q (List.mem_cons_of_mem _ hq)
      rw [List.length_cons, Nat.add_one_mul]
      by_cases hnil : parts = []
      · rw [hnil, List.intercalate_singleton]
        omega
      · rw [List.intercalate_cons_of_ne_nil hnil, List.length_append, List.length_append,
          List.length_singleton]
        omega

end Join

/-- Characters of ASCII take a byte each. -/
theorem utf8ByteSize_ascii {cs : List Char} (h : ∀ c ∈ cs, c.utf8Size = 1) :
    (String.ofList cs).utf8ByteSize = cs.length := by
  induction cs with
  | nil => rfl
  | cons c cs ih =>
      rw [String.ofList_cons, String.utf8ByteSize_append, String.utf8ByteSize_singleton,
        h c List.mem_cons_self, ih fun d hd => h d (List.mem_cons_of_mem _ hd), List.length_cons,
        Nat.add_comm]

/-- A character of ASCII that does not end a string. -/
def IsAddressChar (c : Char) : Prop := c.val ≤ 127 ∧ c ≠ '\x00'

theorem IsAddressChar.utf8Size {c : Char} (h : IsAddressChar c) : c.utf8Size = 1 :=
  Char.utf8Size_eq_one_iff.mpr h.1

theorem isAddressChar_of_digit {c : Char} (h : c.isDigit = true) : IsAddressChar c := by
  obtain ⟨-, hle⟩ := Bool.and_eq_true_iff.mp h
  constructor
  · exact UInt32.le_trans (of_decide_eq_true hle) (by decide)
  · rintro rfl
    exact absurd h (by decide)

theorem isAddressChar_of_hex : ∀ c ∈ hexDigits, IsAddressChar c := by
  have hdigit : ∀ d < 16, (Nat.digitChar d).val ≤ 127 ∧ Nat.digitChar d ≠ '\x00' := by decide
  intro c hc
  obtain ⟨d, hd, rfl⟩ := List.mem_map.mp hc
  exact hdigit d (List.mem_range.mp hd)

/-! ## IPv4 -/

theorem mapM_decimalByte (a : List UInt8) : (a.map decimalText).mapM decimalByte = some a := by
  induction a with
  | nil => rfl
  | cons b a ih => simp only [List.map_cons, List.mapM_cons, decimalByte_text, ih]; rfl

theorem dot_not_mem {a : List UInt8} : ∀ p ∈ a.map decimalText, '.' ∉ p := by
  intro p hp hdot
  obtain ⟨b, -, rfl⟩ := List.mem_map.mp hp
  exact absurd ((decimalText_chars b).2 _ hdot) (by decide)

/-! ## IPv6 -/

theorem length_groups (a : List UInt8) : (groups a).length = a.length / 2 := by
  induction a using groups.induct with
  | case1 b c rest ih =>
      simp only [groups, List.length_cons, ih]
      omega
  | case2 a h =>
      rw [groups.eq_2 a h]
      cases a with
      | nil => rfl
      | cons b rest =>
          cases rest with
          | nil => simp
          | cons c rest => exact absurd rfl (h b c rest)

theorem mapM_groupBytes {a : List UInt8} (h : a.length % 2 = 0) :
    ((groups a).mapM groupBytes).map List.flatten = some a := by
  induction a using groups.induct with
  | case1 b c rest ih =>
      simp only [List.length_cons] at h
      have ih := ih (by omega)
      obtain ⟨parts, hparts, hflat⟩ := Option.map_eq_some_iff.mp ih
      have hgroup : groupBytes (hexText b ++ hexText c) = some [b, c] := by
        show (do
          let x ← hexByte _ _
          let y ← hexByte _ _
          some [x, y]) = _
        rw [hexByte_text, hexByte_text]
        rfl
      rw [groups, List.mapM_cons, hgroup, hparts]
      show some ([b, c] ++ parts.flatten) = some (b :: c :: rest)
      rw [hflat]
      rfl
  | case2 a hne =>
      cases a with
      | nil => rfl
      | cons b rest =>
          cases rest with
          | nil => cases h
          | cons c rest => exact absurd rfl (hne b c rest)

/-- A group is four hexadecimal digits. -/
theorem groups_chars (a : List UInt8) :
    ∀ p ∈ groups a, p.length = 4 ∧ ∀ c ∈ p, c ∈ hexDigits := by
  induction a using groups.induct with
  | case1 b c rest ih =>
      intro p hp
      obtain rfl | hp := List.mem_cons.mp hp
      · refine ⟨rfl, fun d hd => ?_⟩
        obtain hd | hd := List.mem_append.mp hd
        · exact hexText_chars b d hd
        · exact hexText_chars c d hd
      · exact ih p hp
  | case2 a hne =>
      intro p hp
      rw [groups.eq_2 a hne] at hp
      cases hp

/-! ## The library -/

theorem inetNtop_chars (f : Bool) (a : List UInt8) :
    ∀ c ∈ (inetNtop f a).toList, IsAddressChar c := by
  cases f with
  | false =>
      rw [inetNtop, if_neg (by decide), joinParts, String.toList_ofList]
      refine forall_mem_join ⟨by decide, by decide⟩ fun part hpart c hc => ?_
      obtain ⟨b, -, rfl⟩ := List.mem_map.mp hpart
      exact isAddressChar_of_digit ((decimalText_chars b).2 c hc)
  | true =>
      rw [inetNtop, if_pos rfl]
      split
      · intro c hc
        obtain rfl | rfl := List.mem_pair.mp hc <;> exact ⟨by decide, by decide⟩
      · rw [joinParts, String.toList_ofList]
        exact forall_mem_join ⟨by decide, by decide⟩ fun part hpart c hc =>
          isAddressChar_of_hex c ((groups_chars a part hpart).2 c hc)

theorem inetNtop_length {f : Bool} {a : List UInt8} (h : a.length = if f then 16 else 4) :
    (inetNtop f a).toList.length < 46 := by
  cases f with
  | false =>
      rw [inetNtop, if_neg (by decide), joinParts, String.toList_ofList]
      refine (length_join_le (k := 3) fun part hpart => ?_).trans_lt ?_
      · obtain ⟨b, -, rfl⟩ := List.mem_map.mp hpart
        exact (decimalText_chars b).1
      · rw [List.length_map, h]
        decide
  | true =>
      rw [inetNtop, if_pos rfl]
      split
      · decide
      · rw [joinParts, String.toList_ofList]
        refine (length_join_le (k := 4) fun part hpart => ?_).trans_lt ?_
        · exact (groups_chars a part hpart).1.le
        · rw [length_groups, h]
          decide

theorem inetPton_ntop {f : Bool} {a : List UInt8} (h : a.length = if f then 16 else 4) :
    inetPton f (inetNtop f a) = some a := by
  cases f with
  | false =>
      have hlen : (a.map decimalText).length = 4 := by rw [List.length_map, h]; rfl
      have hsplit := splitParts_join (dot_not_mem (a := a)) (List.ne_nil_of_length_pos (by omega))
      rw [hlen] at hsplit
      show (splitParts '.' 4 (joinParts '.' (a.map decimalText))).bind _ = _
      rw [hsplit]
      exact mapM_decimalByte a
  | true =>
      have hlen : (groups a).length = 8 := by rw [length_groups, h]; rfl
      have hsplit : splitParts ':' (groups a).length (joinParts ':' (groups a)) =
          some (groups a) := by
        refine splitParts_join (fun p hp hcolon => ?_) (List.ne_nil_of_length_pos (by omega))
        exact absurd ((groups_chars a p hp).2 _ hcolon) (by decide)
      rw [hlen] at hsplit
      rw [inetNtop, if_pos rfl, inetPton, if_pos rfl]
      split
      next hzero => rw [if_pos rfl, hzero]
      next =>
        have hne : joinParts ':' (groups a) ≠ "::" := by
          intro heq
          rw [heq] at hsplit
          cases hsplit
        rw [if_neg hne, hsplit]
        exact mapM_groupBytes (by rw [h]; rfl)

/-- The text of an IPv6 address has no dot in it. -/
theorem inetPton_false_ntop_true (a : List UInt8) : inetPton false (inetNtop true a) = none := by
  have hdot : '.' ∉ [':'].intercalate (groups a) :=
    fun h => forall_mem_join (p := fun c => c ≠ '.') (by decide) (fun part hpart c hc => by
      rintro rfl
      exact absurd ((groups_chars a part hpart).2 _ hc) (by decide)) _ h rfl
  have hsplit : splitParts '.' 4 (inetNtop true a) = none := by
    have hone : [[':'].intercalate (groups a)] = _ :=
      (List.splitOn_intercalate '.' (by simpa using hdot) (List.cons_ne_nil _ _)).symm
    rw [List.intercalate_singleton] at hone
    rw [inetNtop, if_pos rfl]
    split
    · rfl
    · rw [splitParts, joinParts, String.toList_ofList, ← hone]
      rfl
  rw [inetPton, if_neg (by decide), hsplit]
  rfl

theorem decimalBytes_length {parts : List (List Char)} {a : List UInt8}
    (h : parts.mapM decimalByte = some a) : a.length = parts.length := by
  induction parts generalizing a with
  | nil => cases h; rfl
  | cons p parts ih =>
      rw [List.mapM_cons] at h
      obtain ⟨b, -, h⟩ := Option.bind_eq_some_iff.mp h
      obtain ⟨rest, hrest, h⟩ := Option.bind_eq_some_iff.mp h
      cases h
      rw [List.length_cons, List.length_cons, ih hrest]

theorem groupBytes_length {parts : List (List Char)} {a : List (List UInt8)}
    (h : parts.mapM groupBytes = some a) : a.flatten.length = 2 * parts.length := by
  induction parts generalizing a with
  | nil => cases h; rfl
  | cons p parts ih =>
      rw [List.mapM_cons] at h
      obtain ⟨b, hb, h⟩ := Option.bind_eq_some_iff.mp h
      obtain ⟨rest, hrest, h⟩ := Option.bind_eq_some_iff.mp h
      cases h
      have htwo : b.length = 2 := by
        unfold groupBytes at hb
        split at hb
        next =>
          obtain ⟨x, -, hb⟩ := Option.bind_eq_some_iff.mp hb
          obtain ⟨y, -, hb⟩ := Option.bind_eq_some_iff.mp hb
          cases hb
          rfl
        next => cases hb
      rw [List.flatten_cons, List.length_append, htwo, ih hrest, List.length_cons]
      omega

theorem splitParts_length {sep : Char} {n : Nat} {s : String} {parts : List (List Char)}
    (h : splitParts sep n s = some parts) : parts.length = n := by
  simp only [splitParts] at h
  split at h
  next hlen =>
    cases h
    exact hlen
  next => cases h

/-- The library meets what is relied on. -/
theorem addressText (hash : List UInt8 → UInt32) : AddressText ⟨hash, inetPton⟩ inetNtop where
  length := by
    intro f s a h
    cases f with
    | false =>
        obtain ⟨parts, hparts, h⟩ := Option.bind_eq_some_iff.mp h
        exact (decimalBytes_length h).trans (splitParts_length hparts)
    | true =>
        have h : inetPton true s = some a := h
        rw [inetPton, if_pos rfl] at h
        split at h
        · obtain rfl := Option.some.inj h
          rfl
        · obtain ⟨parts, hparts, h⟩ := Option.bind_eq_some_iff.mp h
          obtain ⟨a', ha, rfl⟩ := Option.map_eq_some_iff.mp h
          rw [groupBytes_length ha, splitParts_length hparts]
          rfl
  pton_ntop _ _ h := inetPton_ntop h
  family a _ := inetPton_false_ntop_true a
  size f a h := by
    rw [← String.ofList_toList (s := inetNtop f a),
      utf8ByteSize_ascii fun c hc => (inetNtop_chars f a c hc).utf8Size]
    exact inetNtop_length h
  noNul f a _ hzero := (inetNtop_chars f a _ hzero).2 rfl

end Tapplet.Acl
