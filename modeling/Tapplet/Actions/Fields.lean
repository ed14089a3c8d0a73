import Tapplet.Actions.Content
import Tapplet.Lib.Fallible

/-!
# The texts of an action

An action is shown with the names of its interfaces, MAC and IP addresses, and numbers. Each
of these is read back as it was shown, and whatever is read lies in the range of its field.
-/

namespace Tapplet.Actions

open Rest Fallible

variable {env : Env} {id : Int}

theorem raises_ok {α : Type} {x : Except Exc α} {a : α} :
    raises x = .ok a ↔ x = .ok a := mapError_ok

/-! ## Numbers -/

theorem cInt_eq {i : Int} (hle : 0 ≤ i) (hlt : i < 2 ^ 31) : cInt i = i := by
  rw [cInt, Int.bmod_def]
  omega

/-- A small number is passed as it is. -/
theorem cArg_eq {i : Int} (hle : 0 ≤ i) (hlt : i < 2 ^ 31) : cArg i = .ok i := by
  rw [cArg, if_pos (by omega), cInt_eq hle hlt]

theorem cArg_valid {i : Int} (h : isValidActionId i = true) : cArg i = .ok i := by
  have hmax : MAX_ACTION_NUM < 2 ^ 31 := by decide
  obtain ⟨hpos, hle⟩ := isValidActionId_iff.mp h
  exact cArg_eq (by omega) (by omega)

theorem readNumber_ok {format : String} {v : Json} {lo hi : Int} {n : Nat} (hlo : 0 ≤ lo)
    (h : readNumber env id format v lo hi = .ok n) : lo ≤ n ∧ n ≤ hi := by
  rw [readNumber] at h
  split at h
  next => cases h
  next =>
    obtain ⟨i, -, h⟩ := bind_ok h
    split at h
    next => cases h
    next hrange =>
      cases h
      omega

/-- A number of the range is read as it is shown. -/
theorem readNumber_int (format : String) {n : Nat} {lo hi : Int} (h : lo ≤ n ∧ n ≤ hi) :
    readNumber env id format (.int n) lo hi = .ok n := by
  have hdigit : strIsdigit env (.int n) = true := decide_eq_true (Int.natCast_nonneg n)
  rw [readNumber, if_neg (by rw [hdigit]; exact Bool.noConfusion)]
  show (if (n : Int) < lo ∨ n > hi then _ else Except.ok (n : Int).toNat) = _
  rw [if_neg (by omega), Int.toNat_natCast]

theorem isdigit_toString (n : Nat) : isdigit env (py (toString n)) = true := by
  rw [isdigit, Bool.and_eq_true, decide_eq_true_eq, List.all_eq_true]
  refine ⟨py_toString_ne_nil n, fun c hc => ?_⟩
  exact env.chars.digit_of_decimal c (decimal_toString env.rest.python hc)

/-- A text without spaces is not stripped. -/
theorem strip_eq {space : Nat → Bool} {s : PyStr} (h : ∀ c ∈ s, space c = false) :
    ((s.dropWhile space).reverse.dropWhile space).reverse = s := by
  have hdrop (t : PyStr) (ht : ∀ c ∈ t, space c = false) : t.dropWhile space = t := by
    apply List.dropWhile_eq_self_iff.mpr
    intro hlen
    rw [ht _ (List.getElem_mem hlen)]
    exact Bool.false_ne_true
  rw [hdrop s h, hdrop s.reverse (by simpa using h), List.reverse_reverse]

/-- In a number's text there is nothing to strip, and no sign or underscore. -/
theorem intStr_toString_eq (n : Nat) :
    intStr env (py (toString n)) = (int env.rest.python (py (toString n))).map Int.ofNat := by
  have hrange {c : Nat} (hc : c ∈ py (toString n)) := range_of_mem_toString hc
  have hhead {c : Nat} (hc : c < 48) : (py (toString n)).head? ≠ some c := by
    intro h
    have hle := hrange (List.mem_of_mem_head? h)
    omega
  have hunderscore : 95 ∉ py (toString n) := by
    intro h
    have hle := hrange h
    omega
  have hfilter : (py (toString n)).filter (· ≠ 95) = py (toString n) := by
    apply List.filter_eq_self.mpr
    intro c hc
    exact decide_eq_true fun h => hunderscore (h ▸ hc)
  have hall : ([py (toString n)].all (isdecimal env.rest.python)) = true := by
    rw [List.all_cons, isdecimal_toString]
    rfl
  simp only [intStr, strip_eq fun c hc =>
    env.chars.space_of_decimal c (decimal_toString env.rest.python hc)]
  have hsign : ¬((py (toString n)).head? = some 43 ∨ (py (toString n)).head? = some 45) :=
    not_or.mpr ⟨hhead (by decide), hhead (by decide)⟩
  rw [if_neg hsign, List.splitOn_eq_singleton hunderscore, if_pos hall, hfilter]
  simp only [if_neg (hhead (show 45 < 48 by decide))]
  rfl

/-- `int` of a number's text. -/
theorem intStr_toString (digits : TakesDigits env.rest.python) {n : Nat} (hn : n < 10 ^ 10) :
    intStr env (py (toString n)) = .ok n := by
  rw [intStr_toString_eq, int_toString _ digits hn]
  rfl

theorem intStr_toString_ok {n : Nat} {i : Int} (h : intStr env (py (toString n)) = .ok i) :
    i = n := by
  rw [intStr_toString_eq] at h
  cases hint : int env.rest.python (py (toString n)) with
  | error e =>
      rw [hint] at h
      cases h
  | ok m =>
      rw [hint] at h
      obtain rfl := int_toString_ok _ hint
      exact (Except.ok.inj h).symm

/-! ## Interfaces -/

theorem interfaceName_injective {i j : Nat} (h : interfaceName i = interfaceName j) : i = j := by
  rw [interfaceName, interfaceName, py_append, py_append] at h
  exact toString_injective (List.append_cancel_left h)

/-- The index of an interface that exists. -/
def ValidInterface (env : Env) (i : Nat) : Prop := 1 ≤ i ∧ i ≤ env.interfacesCnt

theorem ValidInterface.toNat_ofNat {i : Nat} (h : ValidInterface env i) :
    (UInt8.ofNat i).toNat = i := by
  have hle := env.interfacesCnt_le
  have hmax : MAX_INTERFACE_CNT = 63 := rfl
  rw [UInt8.toNat_ofNat']
  exact Nat.mod_eq_of_lt (by have := h.2; omega)

theorem readInterface_ok {v : Json} {i : Nat} (h : readInterface env id v = .ok i) :
    ValidInterface env i := by
  rw [readInterface] at h
  obtain ⟨j, hj, h⟩ := bind_ok h
  have hj := raises_ok.mp hj
  split at h
  next => cases h
  next hne =>
    cases h
    cases v with
    | str name =>
        have hj := Except.ok.inj hj
        cases hfind : (List.range' 1 env.interfacesCnt).find? fun i => interfaceName i = name with
        | none =>
            rw [hfind] at hj
            exact absurd hj.symm hne
        | some k =>
            rw [hfind] at hj
            obtain rfl : k = i := hj
            have hmem := List.mem_range'_1.mp (List.mem_of_find?_eq_some hfind)
            exact ⟨hmem.1, by omega⟩
    | array items => cases hj
    | object members => cases hj
    | null => exact absurd (Except.ok.inj hj).symm hne
    | bool b => exact absurd (Except.ok.inj hj).symm hne
    | int n => exact absurd (Except.ok.inj hj).symm hne
    | float n => exact absurd (Except.ok.inj hj).symm hne

/-- An interface is found under the name that it is shown with. -/
theorem readInterface_name {i : Nat} (h : ValidInterface env i) :
    readInterface env id (.str (transInterfaceIndexToName env i)) = .ok i := by
  have hfind : (List.range' 1 env.interfacesCnt).find?
      (fun j => interfaceName j = interfaceName i) = some i := by
    apply List.find?_range'_eq_some.mpr
    refine ⟨decide_eq_true rfl, List.mem_range'_1.mpr ⟨h.1, by have := h.2; omega⟩, ?_⟩
    intro j _ hj
    have hne : interfaceName j ≠ interfaceName i := mt interfaceName_injective (by omega)
    simp [hne]
  have hname : transInterfaceNameToIndex env (.str (interfaceName i)) = .ok i := by
    rw [transInterfaceNameToIndex, hfind]
    rfl
  rw [transInterfaceIndexToName, if_pos (show 1 ≤ i ∧ i ≤ env.interfacesCnt from h), readInterface,
    hname]
  exact if_neg (Nat.ne_of_gt h.1)

/-! ## MAC addresses -/

/-- A digit of a MAC address stands for its value. -/
theorem hexDigit : ∀ n < 16, isHex (Nat.digitChar n).toNat = true ∧
    hexValue (Nat.digitChar n).toNat = n ∧ (Nat.digitChar n).toNat ≠ 58 := by
  decide

theorem length_splitOn_of_matchesMac {n : Nat} {s : PyStr} (h : matchesMac n s = true) :
    (s.splitOn 58).length = n + 1 := by
  have hne {a : Nat} (ha : isHex a = true) : a ≠ 58 := by
    rintro rfl
    cases ha
  fun_induction matchesMac n s with
  | case1 a b =>
      obtain ⟨ha, hb⟩ := Bool.and_eq_true_iff.mp h
      rw [List.splitOn_eq_singleton]
      · rfl
      · simp [(hne ha).symm, (hne hb).symm]
  | case2 n a b rest ih =>
      obtain ⟨hab, hrest⟩ := Bool.and_eq_true_iff.mp h
      obtain ⟨ha, hb⟩ := Bool.and_eq_true_iff.mp hab
      have hnot : 58 ∉ [a, b] := by simp [(hne ha).symm, (hne hb).symm]
      show (([a, b] ++ 58 :: rest).splitOn 58).length = _
      rw [List.splitOn_append_cons_self_of_not_mem hnot, List.length_cons, ih hrest]
  | case3 n s _ _ => cases h

theorem length_transMacToBytes {s : PyStr} (h : matchesMac 5 s = true) :
    (transMacToBytes s).length = 6 := by
  rw [transMacToBytes, List.length_map, length_splitOn_of_matchesMac h]

theorem checkMacSting_ok {v : Json} (h : checkMacSting v = .ok true) :
    ∃ s, v = .str s ∧ matchesMac 5 s = true := by
  cases v with
  | str s => exact ⟨s, rfl, Except.ok.inj h⟩
  | null => cases h
  | bool b => cases h
  | int i => cases h
  | float i => cases h
  | array items => cases h
  | object members => cases h

/-- The two digits of a byte. -/
def macByte (b : UInt8) : PyStr :=
  [(Nat.digitChar (b.toNat / 16)).toNat, (Nat.digitChar (b.toNat % 16)).toNat]

theorem macByte_hex (b : UInt8) : ∀ c ∈ macByte b, isHex c = true ∧ c ≠ 58 := by
  have hlt := b.toNat_lt
  have hhigh := hexDigit (b.toNat / 16) (by omega)
  have hlow := hexDigit (b.toNat % 16) (Nat.mod_lt _ (by decide))
  intro c hc
  obtain rfl | rfl := List.mem_pair.mp hc
  · exact ⟨hhigh.1, hhigh.2.2⟩
  · exact ⟨hlow.1, hlow.2.2⟩

/-- A MAC address is read as it is shown. -/
theorem transMacToBytes_text {bytes : List UInt8} (h : bytes ≠ []) :
    transMacToBytes (transUbytesToMacAddr bytes) = bytes := by
  have hbyte (b : UInt8) :
      UInt8.ofNat ((macByte b).foldl (fun n c => n * 16 + hexValue c) 0) = b := by
    have hlt := b.toNat_lt
    have hhigh := hexDigit (b.toNat / 16) (by omega)
    have hlow := hexDigit (b.toNat % 16) (Nat.mod_lt _ (by decide))
    show UInt8.ofNat ((0 * 16 + hexValue _) * 16 + hexValue _) = b
    rw [hhigh.2.1, hlow.2.1, show (0 * 16 + b.toNat / 16) * 16 + b.toNat % 16 = b.toNat by omega]
    exact UInt8.ofNat_toNat
  have hsplit : (transUbytesToMacAddr bytes).splitOn 58 = bytes.map macByte := by
    apply List.splitOn_intercalate
    · intro l hl hmem
      obtain ⟨b, -, rfl⟩ := List.mem_map.mp hl
      exact (macByte_hex b 58 hmem).2 rfl
    · exact mt List.map_eq_nil_iff.mp h
  rw [transMacToBytes, hsplit, List.map_map]
  exact (List.map_congr_left fun b _ => hbyte b).trans (List.map_id bytes)

theorem matchesMac_text {n : Nat} {bytes : List UInt8} (h : bytes.length = n + 1) :
    matchesMac n (transUbytesToMacAddr bytes) = true := by
  have hhigh (b : UInt8) : isHex (Nat.digitChar (b.toNat / 16)).toNat = true :=
    (macByte_hex b _ List.mem_cons_self).1
  have hlow (b : UInt8) : isHex (Nat.digitChar (b.toNat % 16)).toNat = true :=
    (macByte_hex b _ (List.mem_cons_of_mem _ List.mem_cons_self)).1
  induction n generalizing bytes with
  | zero =>
      obtain ⟨b, rfl⟩ := List.length_eq_one_iff.mp h
      show (isHex _ && isHex _) = true
      rw [hhigh, hlow]
      rfl
  | succ n ih =>
      cases bytes with
      | nil => cases h
      | cons b bytes =>
          cases bytes with
          | nil => cases h
          | cons c bytes =>
              have hrest := ih (Nat.succ.inj h)
              show (isHex _ && isHex _ && matchesMac n _) = true
              rw [hhigh, hlow]
              exact hrest

/-! ## Encapsulations -/

/-- The bytes of an address in a field of 16 bytes. -/
def dipField (bytes : List UInt8) : List UInt8 := bytes ++ .replicate (16 - bytes.length) 0

theorem tranUbytesToIp_dipField {f : Bool} {bytes : List UInt8}
    (h : bytes.length = if f then 16 else 4) :
    tranUbytesToIp env (dipField bytes) (if f then 6 else 4) =
      .str (py (env.inetNtop f bytes)) := by
  cases f with
  | false =>
      show Json.str (py (env.inetNtop false ((dipField bytes).take 4))) = _
      rw [dipField, List.take_left' (show bytes.length = 4 from h)]
  | true =>
      show Json.str (py (env.inetNtop true ((dipField bytes).take 16))) = _
      rw [dipField, List.take_left' (show bytes.length = 16 from h)]

/-- A DSCP in its place. -/
theorem dscp_shift {n : Nat} (h : n ≤ 63) : (UInt8.ofNat (n <<< 2) >>> 2).toNat = n := by
  have hshift : n <<< 2 = n * 4 := Nat.shiftLeft_eq n 2
  have hbyte : (UInt8.ofNat (n * 4)).toNat = n * 4 := by
    rw [UInt8.toNat_ofNat']
    exact Nat.mod_eq_of_lt (show n * 4 < 256 by omega)
  rw [UInt8.toNat_shiftRight, hshift, hbyte]
  show (n * 4) >>> 2 = n
  rw [Nat.shiftRight_eq_div_pow]
  omega

end Tapplet.Actions
