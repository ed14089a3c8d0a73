import Mathlib.Tactic.FinCases
import Tapplet.Intf.Document

/-!
# Writing the document of an interface

A document that was read is written to an interface, key by key. What each key leaves is said by a
function on the interface, and what the document leaves by all of them, one after the other.
-/

namespace Tapplet.Intf

open Rest Actions Fallible

variable {env : Env} {i : Nat}

theorem setAt_eq (h : InArray i) (s : Conf) (f : Interface → Interface × Int) :
    setAt s i f = (Function.update s i (f (s i)).1, (f (s i)).2) := by
  rw [setAt, outside_eq h]
  rfl

/-- The write is accepted and leaves `f` of the interface. -/
def Leaves (write : Conf → Written) (i : Nat) (f : Interface → Interface) : Prop :=
  ∀ s, write s = (Function.update s i (f (s i)), .ok .ok)

theorem writeKeys_leaves {α : Type} {write : Conf → PyStr → Json → Written}
    {entry : α → PyStr × Json} {effect : α → Interface → Interface} {l : List α}
    (h : ∀ a ∈ l, Leaves (fun s => write s (entry a).1 (entry a).2) i (effect a)) :
    Leaves (fun s => writeKeys write s (l.map entry)) i
      fun x => l.foldl (fun x a => effect a x) x := by
  intro s
  induction l generalizing s with
  | nil => simp [writeKeys]
  | cons a l ih =>
      have hhead := h a List.mem_cons_self s
      have htail := ih fun a' ha' => h a' (List.mem_cons_of_mem _ ha')
      dsimp only at hhead htail ⊢
      rw [List.map_cons, writeKeys, hhead]
      dsimp only
      rw [htail, Function.update_self, Function.update_idem, List.foldl_cons]

/-- Entries, each with what it leaves. -/
theorem writeEntries_leaves {write : Conf → PyStr → Json → Written}
    (entries : List ((PyStr × Json) × (Interface → Interface)))
    (h : ∀ e ∈ entries, Leaves (fun s => write s e.1.1 e.1.2) i e.2) :
    Leaves (fun s => writeKeys write s (entries.map Prod.fst)) i
      fun x => entries.foldl (fun x e => e.2 x) x :=
  writeKeys_leaves h

/-! ## Numbers -/

theorem uint8_toNat (x : UInt8) : uint8 x.toNat = x := by
  have hlt := x.toNat_lt
  rw [uint8, ← UInt8.toNat_inj]
  simp only [UInt8.ofInt, UInt8.toNat_ofNat']
  omega

theorem cArg_nat {n : Nat} (h : n < 2 ^ 31) : cArg n = .ok (n : Int) :=
  cArg_eq (Int.natCast_nonneg n) (by exact_mod_cast h)

theorem writeNumber_uint8 (s : Conf) (x : UInt8) (set : Int → Conf × Int) :
    writeNumber env s (.int x.toNat) set = .ofResult (set x.toNat) := by
  have hlt := x.toNat_lt
  have harg : cArg x.toNat = .ok x.toNat := cArg_nat (by omega)
  have hpassed : pyInt env (.int x.toNat) >>= cArg = .ok x.toNat := (bind_of_ok rfl _).trans harg
  rw [writeNumber, mapError_ok.mpr hpassed]

theorem writeNumber_leaves (h : InArray i) (x : UInt8) (f : Interface → UInt8 → Interface) :
    Leaves (fun s => writeNumber env s (.int x.toNat) fun value => setNumber s i value f) i
      (f · x) := by
  intro s
  dsimp only
  rw [writeNumber_uint8, setNumber, setAt_eq h, uint8_toNat]
  rfl

/-! ## Texts -/

theorem encodeUtf8_text {text : String} (h : '\x00' ∉ text.toList) :
    encodeUtf8 (.str (py text)) = .ok text := by
  rw [encodeUtf8, utf8_py, Except.map, cString_of_noNul h]
  rfl

theorem writeText_text (s : Conf) {text : String} (h : '\x00' ∉ text.toList)
    (set : String → Conf × Int) : writeText s (.str (py text)) set = .ofResult (set text) := by
  rw [writeText, encodeUtf8_text h]

/-- A setter of a text that is accepted. -/
theorem writeText_leaves (h : InArray i) {text : String} (hzero : '\x00' ∉ text.toList)
    {body : String → Interface → Interface × Int} {f : Interface → Interface}
    (hbody : ∀ x, body text x = (f x, 0)) :
    Leaves (fun s => writeText s (.str (py text)) fun text => setAt s i (body text)) i f := by
  intro s
  dsimp only
  rw [writeText_text s hzero, setAt_eq h, hbody]
  rfl

theorem zero_mem_bytes {text : String} (h : '\x00' ∈ text.toList) :
    0 ∈ text.toByteArray.data.toList := by
  rw [← String.utf8Encode_toList, List.utf8Encode, List.data_toByteArray]
  simp only [List.mem_flatMap]
  exact ⟨_, h, by decide⟩

/-- An alias is stored as it was read. -/
theorem toString?_eq_some {a : Alias} {name : String} (h : a.toString? = some name) :
    '\x00' ∉ name.toList ∧ Alias.strncpy name.toByteArray.data.toList = a := by
  rw [Alias.toString?, String.fromUTF8?] at h
  split at h
  next hvalid =>
    obtain rfl := Option.some.inj h
    have hbytes : (String.fromUTF8 ⟨a.text.toArray⟩ hvalid).toByteArray.data.toList = a.text := rfl
    refine ⟨?_, ?_⟩
    · intro hzero
      have hmem := zero_mem_bytes hzero
      rw [hbytes] at hmem
      exact a.zero_notMem hmem
    · rw [hbytes, a.strncpy_text]
  next => cases h

/-! ### MAC addresses -/

theorem scanHex2_hexText (b : UInt8) (rest : List Char) :
    scanHex2 (Acl.hexText b ++ rest) = some (b.toUInt32, rest) := by
  have hb := b.toNat_lt
  have hspace : ∀ n < 16, (decide (Nat.digitChar n = ' ' ∨ 9 ≤ (Nat.digitChar n).toNat ∧
      (Nat.digitChar n).toNat ≤ 13)) = false := by decide
  have hhigh : b.toNat / 16 < 16 := by omega
  have hlow : b.toNat % 16 < 16 := by omega
  obtain ⟨hhex, hvalue⟩ := hexDigit _ hhigh
  obtain ⟨hhex', hvalue'⟩ := hexDigit _ hlow
  have hbyte : UInt32.ofNat (16 * (b.toNat / 16) + b.toNat % 16) = b.toUInt32 := by
    rw [Nat.div_add_mod, ← UInt8.toNat_toUInt32, UInt32.ofNat_toNat]
  show scanHex2 (Nat.digitChar (b.toNat / 16) :: Nat.digitChar (b.toNat % 16) :: rest) = _
  rw [scanHex2, List.dropWhile_cons_of_neg (by rw [hspace _ hhigh]; decide)]
  simp only [hhex, hhex', hvalue, hvalue', if_true, hbyte]

theorem zero_notMem_join {sep : Char} {parts : List (List Char)} (hsep : '\x00' ≠ sep)
    (hparts : ∀ part ∈ parts, '\x00' ∉ part) : '\x00' ∉ (Acl.joinParts sep parts).toList := by
  rw [Acl.joinParts, String.toList_ofList]
  intro h
  exact Acl.forall_mem_join (p := (· ≠ '\x00')) hsep.symm
    (fun part hpart c hc hzero => hparts part hpart (hzero ▸ hc)) _ h rfl

theorem and_0xff (b : UInt8) : b &&& 0xff = b := by
  revert b
  apply Acl.forall_uint8
  decide +kernel

/-- `sscanf` reads what `sprintf` wrote. -/
theorem scanMac_macText (mac : Fin 6 → UInt8) (temp : Nat → UInt32) :
    (scanMac 6 0 (macText mac).toList temp).1 = 6 ∧
      ∀ k : Fin 6, ((scanMac 6 0 (macText mac).toList temp).2 k &&& 0xff).toUInt8 = mac k := by
  have htext : (macText mac).toList = Acl.hexText (mac 0) ++ ':' :: (Acl.hexText (mac 1) ++ ':' ::
      (Acl.hexText (mac 2) ++ ':' :: (Acl.hexText (mac 3) ++ ':' :: (Acl.hexText (mac 4) ++ ':' ::
        (Acl.hexText (mac 5) ++ []))))) := by
    simp [macText, Acl.joinParts, List.ofFn_succ, List.intercalate]
  rw [htext]
  simp only [scanMac, scanHex2_hexText]
  refine ⟨trivial, ?_⟩
  intro k
  fin_cases k <;> simp [and_0xff]

theorem hexText_noZero (b : UInt8) : '\x00' ∉ Acl.hexText b := by
  intro h
  exact absurd (Acl.hexText_chars b _ h) (by decide)

theorem decimalText_noZero (b : UInt8) : '\x00' ∉ Acl.decimalText b := by
  intro h
  exact absurd ((Acl.decimalText_chars b).2 _ h) (by decide)

theorem setMac_leaves (h : InArray i) (mac : Fin 6 → UInt8) :
    Leaves (fun s => writeText s (.str (py (macText mac))) (setInterfaceMacAddr env s i)) i
      fun x => { x with mac := mac } := by
  apply writeText_leaves h
  · apply zero_notMem_join (by decide)
    intro part hpart
    obtain ⟨b, -, rfl⟩ := List.mem_map.mp hpart
    exact hexText_noZero b
  · intro x
    obtain ⟨hcount, hmac⟩ := scanMac_macText mac
      fun k => if h : k < 6 then env.temp i ⟨k, h⟩ else 0
    simp only [hcount, hmac]
    rfl

/-- An address whose text `inet_pton` reads. -/
theorem setIp_leaves (h : InArray i) {n : Nat} {isIpv6 : Bool} {a : Fin n → UInt8} {text : String}
    (hzero : '\x00' ∉ text.toList)
    (hpton : env.rest.acl.inetPton isIpv6 text = some (List.ofFn a))
    (f : Interface → (Fin n → UInt8) → Interface) :
    Leaves (fun s => writeText s (.str (py text)) fun text => setIp env s i isIpv6 text f) i
      (f · a) := by
  apply writeText_leaves h hzero
  intro x
  rw [hpton]
  have hbytes : (fun k : Fin n => (List.ofFn a).getD k 0) = a := by
    funext k
    simp
  simp only [hbytes]

theorem setIpv4_leaves (reads : Reads env) (h : InArray i) (a : Fin 4 → UInt8)
    (f : Interface → (Fin 4 → UInt8) → Interface) :
    Leaves (fun s => writeText s (.str (py (dottedText a))) fun text =>
      setIp env s i false text f) i (f · a) := by
  apply setIp_leaves h _ (reads.dotted a)
  apply zero_notMem_join (by decide)
  intro part hpart
  obtain ⟨b, -, rfl⟩ := List.mem_map.mp hpart
  exact decimalText_noZero b

theorem setIpv6_leaves (reads : Reads env) (h : InArray i) (a : Fin 16 → UInt8)
    (f : Interface → (Fin 16 → UInt8) → Interface) :
    Leaves (fun s => writeText s (.str (py (env.inetNtop true (List.ofFn a)))) fun text =>
      setIp env s i true text f) i (f · a) := by
  have hlength : (List.ofFn a).length = if true then 16 else 4 := List.length_ofFn
  exact setIp_leaves h (reads.text.noNul true _ hlength) (reads.text.pton_ntop true _ hlength) f

/-! ## Rules -/

/-- The interface with this action for a rule. -/
def Interface.setRule (x : Interface) (r : Nat) (action : UInt8) : Interface :=
  { x with ruleToAction := fun k => if k.val + 1 = r then action else x.ruleToAction k }

theorem setIngressRuleToAction_eq (h : InArray i) {r : Nat} (hr : 1 ≤ r ∧ r ≤ MAX_ACL_RULE_COUNT)
    {action : UInt8} (haction : action.toNat ≤ MAX_ACTION_COUNT) (s : Conf) :
    setIngressRuleToAction s i r action.toNat
      = (Function.update s i ((s i).setRule r action), 0) := by
  have hint : 1 ≤ (r : Int) ∧ (r : Int) ≤ MAX_ACL_RULE_COUNT := by omega
  have hindex : ((r : Int) - 1).toNat = r - 1 := by omega
  rw [setIngressRuleToAction, setAt_eq h]
  simp only [dif_pos hint, uint8_toNat, if_neg (Nat.not_lt.mpr haction), hindex]
  congr
  funext k
  rw [Function.update_apply]
  have hk : k = ⟨r - 1, by omega⟩ ↔ k.val + 1 = r := by
    rw [Fin.ext_iff]
    dsimp only
    omega
  simp only [hk]

theorem ruleArgs_eq (digits : TakesDigits env.rest.python) {r : Nat} (hr : r < 2 ^ 31)
    (action : UInt8) :
    ruleArgs env (py (toString r)) (.int action.toNat) = .ok (r, action.toNat) := by
  have hlt := action.toNat_lt
  have hrule : intStr env.toEnv (py (toString r)) = .ok r :=
    intStr_toString digits (hr.trans (by decide))
  have hr' : cArg r = .ok r := cArg_nat hr
  have haction : cArg action.toNat = .ok action.toNat := cArg_nat (by omega)
  rw [ruleArgs]
  refine (bind_of_ok hrule _).trans ?_
  refine (bind_of_ok (a := (action.toNat : Int)) rfl _).trans ?_
  refine (bind_of_ok hr' _).trans ?_
  exact bind_of_ok haction _

theorem writeRule_leaves (digits : TakesDigits env.rest.python) (h : InArray i) {r : Nat}
    (hr : 1 ≤ r ∧ r ≤ MAX_ACL_RULE_COUNT) {action : UInt8}
    (haction : action.toNat ≤ MAX_ACTION_COUNT) :
    Leaves (fun s => writeRule env i s (py (toString r)) (.int action.toNat)) i
      (·.setRule r action) := by
  intro s
  have hmax : MAX_ACL_RULE_COUNT = 4096 := rfl
  have hargs := ruleArgs_eq digits (show r < 2 ^ 31 by omega) action
  dsimp only
  rw [writeRule, mapError_ok.mpr hargs]
  dsimp only
  rw [setIngressRuleToAction_eq h hr haction]
  rfl

/-- The rules are set to 0, one after the other. -/
theorem clearRules_eq (h : InArray i) {rules : List Nat}
    (hrules : ∀ r ∈ rules, 1 ≤ r ∧ r ≤ MAX_ACL_RULE_COUNT) :
    Leaves (fun s => clearRules i s rules) i
      fun x => rules.foldl (fun x r => x.setRule r 0) x := by
  intro s
  dsimp only
  induction rules generalizing s with
  | nil => simp [clearRules]
  | cons r rules ih =>
      have hset := setIngressRuleToAction_eq h (hrules r List.mem_cons_self)
        (show (0 : UInt8).toNat ≤ MAX_ACTION_COUNT from Nat.zero_le _) s
      rw [show (((0 : UInt8).toNat : Nat) : Int) = 0 from rfl] at hset
      rw [clearRules, hset]
      dsimp only
      rw [if_neg (by decide), ih fun r' h' => hrules r' (List.mem_cons_of_mem _ h'),
        Function.update_self, Function.update_idem, List.foldl_cons]

/-- What setting rules, one after the other, leaves. -/
theorem foldl_setRule (action : Nat → UInt8) (rules : List Nat) (x : Interface) :
    rules.foldl (fun x r => x.setRule r (action r)) x =
      { x with
        ruleToAction := fun k => if k.val + 1 ∈ rules then action (k.val + 1) else
          x.ruleToAction k } := by
  induction rules generalizing x with
  | nil => rfl
  | cons r rules ih =>
      rw [List.foldl_cons, ih]
      simp only [Interface.setRule, List.mem_cons]
      congr
      funext k
      by_cases hmem : k.val + 1 ∈ rules
      · simp [hmem]
      · by_cases hk : k.val + 1 = r
        · simp [hk]
        · simp [hmem, hk]

/-- The rules that have an action. -/
def Interface.ruled (x : Interface) (rules : List Nat) : List Nat := rules.filter (x.rule · ≠ 0)

theorem mem_ruled {x : Interface} {rules : List Nat} {r : Nat} :
    r ∈ x.ruled rules ↔ r ∈ rules ∧ x.rule r ≠ 0 := by
  rw [Interface.ruled, List.mem_filter, decide_eq_true_iff]

theorem rulesDoc_eq (x : Interface) (rules : List Nat) :
    rulesDoc x rules
      = (x.ruled rules).map fun r => (py (toString r), (.int (x.rule r).toNat : Json)) := by
  rw [rulesDoc, Interface.ruled, ← List.filterMap_eq_map, List.filterMap_filter]
  congr
  funext r
  by_cases hzero : x.rule r = 0
  · simp [hzero]
  · simp [hzero]

theorem nodup_rulesDoc (x : Interface) {rules : List Nat} (h : rules.Nodup) :
    (Dict.keys (rulesDoc x rules)).Nodup := by
  rw [rulesDoc_eq, Dict.keys, List.map_map]
  exact (h.filter _).map fun _ _ heq => toString_injective heq

/-- The rules that `rule_to_action` can give an action. -/
def shownRules : List Nat := List.range' 1 getMaxRuleId

theorem shownRules_le {r : Nat} (h : r ∈ shownRules) : 1 ≤ r ∧ r ≤ MAX_ACL_RULE_COUNT := by
  have hmem := List.mem_range'_1.mp h
  have hshown : getMaxRuleId = 2048 := rfl
  have hmax : MAX_ACL_RULE_COUNT = 4096 := rfl
  omega

/-- What writing the rules of `x` leaves of other ones. Without any all are cleared, and else those
that have no action are left as they are. -/
def Interface.overwrite (x : Interface) (old : Fin MAX_ACL_RULE_COUNT → UInt8)
    (k : Fin MAX_ACL_RULE_COUNT) : UInt8 :=
  if x.ruled shownRules = [] then if k.val + 1 ∈ shownRules then 0 else old k
  else if k.val + 1 ∈ x.ruled shownRules then x.rule (k.val + 1) else old k

/-- The actions of the interface are numbers of actions. -/
def Interface.ActionsOk (x : Interface) : Prop :=
  ∀ k, (x.ruleToAction k).toNat ≤ MAX_ACTION_COUNT

theorem Interface.ActionsOk.rule_le {x : Interface} (h : x.ActionsOk) (r : Nat) :
    (x.rule r).toNat ≤ MAX_ACTION_COUNT := by
  unfold Interface.rule
  split
  next => exact h _
  next => exact Nat.zero_le _

theorem writeRules_leaves (digits : TakesDigits env.rest.python) (h : InArray i) {x : Interface}
    (hactions : x.ActionsOk) :
    Leaves (fun s => updateSingleIngressConfigInternal env i s (py "rule_to_action")
      (.object (rulesDoc x shownRules))) i
      fun y => { y with ruleToAction := x.overwrite y.ruleToAction } := by
  intro s
  simp only [updateSingleIngressConfigInternal, py_inj, rulesDoc_eq]
  unfold Interface.overwrite
  cases hruled : x.ruled shownRules with
  | nil =>
      have hcleared := clearRules_eq h (fun r hr => shownRules_le hr) s
      dsimp only at hcleared
      rw [foldl_setRule fun _ => 0] at hcleared
      exact hcleared
  | cons r rules =>
      have hnodup : (Dict.keys (rulesDoc x shownRules)).Nodup :=
        nodup_rulesDoc x List.nodup_range'
      rw [rulesDoc_eq, hruled] at hnodup
      have hle : ∀ r' ∈ r :: rules, 1 ≤ r' ∧ r' ≤ MAX_ACL_RULE_COUNT := by
        intro r' hr'
        rw [← hruled] at hr'
        exact shownRules_le (mem_ruled.mp hr').1
      have hleaves : Leaves (fun s => writeKeys (writeRule env i) s
          ((r :: rules).map fun r => (py (toString r), .int (x.rule r).toNat))) i
          fun y => (r :: rules).foldl (fun y r => y.setRule r (x.rule r)) y := by
        apply writeKeys_leaves
        intro r' hr'
        exact writeRule_leaves digits h (hle r' hr') (hactions.rule_le r')
      have hentries := Dict.ofEntries_of_nodup hnodup
      have hwritten := hleaves s
      dsimp only at hwritten
      rw [foldl_setRule x.rule] at hwritten
      rw [← hentries] at hwritten
      exact hwritten

theorem succ_mem_shownRules {k : Nat} : k + 1 ∈ shownRules ↔ k < getMaxRuleId := by
  rw [shownRules, List.mem_range'_1]
  omega

theorem Interface.rule_succ (x : Interface) (k : Fin MAX_ACL_RULE_COUNT) :
    x.rule (k.val + 1) = x.ruleToAction k := by
  rw [Interface.rule, dif_pos ⟨Nat.le_add_left 1 _, k.isLt⟩]
  rfl

/-- Without any rule that has an action, the rules that are shown have none. -/
theorem Interface.ruleToAction_of_ruled {x : Interface} (hnone : x.ruled shownRules = [])
    {k : Fin MAX_ACL_RULE_COUNT} (hk : k.val < getMaxRuleId) : x.ruleToAction k = 0 := by
  by_contra hne
  have hmem : k.val + 1 ∈ x.ruled shownRules :=
    mem_ruled.mpr ⟨succ_mem_shownRules.mpr hk, by rwa [Interface.rule_succ]⟩
  rw [hnone] at hmem
  cases hmem

/-- Rules that have the actions of `x`, or none, get the actions of `x`. -/
theorem Interface.overwrite_eq {x : Interface} {old : Fin MAX_ACL_RULE_COUNT → UInt8}
    (h : ∀ k, old k = x.ruleToAction k ∨ old k = 0) (k : Fin MAX_ACL_RULE_COUNT) :
    x.overwrite old k = if k.val < getMaxRuleId then x.ruleToAction k else old k := by
  simp only [Interface.overwrite, mem_ruled, succ_mem_shownRules, Interface.rule_succ]
  by_cases hk : k.val < getMaxRuleId
  · by_cases hnone : x.ruled shownRules = []
    · simp [hk, hnone, Interface.ruleToAction_of_ruled hnone hk]
    · by_cases hzero : x.ruleToAction k = 0
      · have hold := h k
        rw [hzero, or_self] at hold
        simp [hk, hzero, hold]
      · simp [hk, hnone, hzero]
  · simp [hk]

/-! ## Documents -/

theorem writeIngress_leaves (digits : TakesDigits env.rest.python) (h : InArray i) {x : Interface}
    (hactions : x.ActionsOk) :
    Leaves (fun s => writeDict (updateSingleIngressConfigInternal env i) s
      (.object (ingressDoc x))) i
      fun y => { y with
        aclRuleGroup := x.aclRuleGroup
        defaultActionId := x.defaultActionId
        ruleToAction := x.overwrite y.ruleToAction } := by
  have hnodup : (Dict.keys (ingressDoc x)).Nodup := by
    simp [ingressDoc, py_inj]
  simp only [writeDict, Dict.ofEntries_of_nodup hnodup]
  apply writeEntries_leaves
    [((py "acl_rule_group", .int x.aclRuleGroup.toNat),
        fun y => { y with aclRuleGroup := x.aclRuleGroup }),
      ((py "default_action_id", .int x.defaultActionId.toNat),
        fun y => { y with defaultActionId := x.defaultActionId }),
      ((py "rule_to_action", .object (rulesDoc x shownRules)),
        fun y => { y with ruleToAction := x.overwrite y.ruleToAction })]
  simp only [List.forall_mem_cons]
  refine ⟨?_, ?_, ?_, ?_⟩
  · intro s
    simp only [updateSingleIngressConfigInternal, if_true]
    exact writeNumber_leaves h x.aclRuleGroup (fun y v => { y with aclRuleGroup := v }) s
  · intro s
    simp only [updateSingleIngressConfigInternal, py_inj, String.reduceEq, if_false, if_true]
    exact writeNumber_leaves h x.defaultActionId (fun y v => { y with defaultActionId := v }) s
  · exact writeRules_leaves digits h hactions
  · intro e he
    cases he

theorem ipReassSetMaxLayer_eq (s : Conf) (i : Nat) (layers : UInt8) :
    ipReassSetMaxLayer s i layers.toNat
      = (Function.update s i { s i with ipReassLayers := layers }, 0) := by
  rw [ipReassSetMaxLayer, Int.toNat_natCast, uint8_toNat]

theorem ipReassSetReassOutput_eq (s : Conf) (i : Nat) {enable : UInt8} (hle : enable ≤ 1) :
    ipReassSetReassOutput s i enable.toNat
      = (Function.update s i { s i with ipReassOutputEnable := enable }, 0) := by
  have hle' := UInt8.le_iff_toNat_le.mp hle
  rw [UInt8.toNat_one] at hle'
  have henable : (if (enable.toNat : Int) ≠ 0 then (1 : UInt8) else 0) = enable := by
    rw [← UInt8.toNat_inj]
    split
    next hne => rw [UInt8.toNat_one]; omega
    next heq => rw [UInt8.toNat_zero]; omega
  rw [ipReassSetReassOutput, Int.toNat_natCast, henable]

theorem writeIpReass_leaves {x : Interface} (hle : x.ipReassOutputEnable ≤ 1) :
    Leaves (fun s => writeDict (updateSingleIpReassConfigInternal env i) s
      (.object (ipReassDoc x))) i
      fun y => { y with
        ipReassLayers := x.ipReassLayers, ipReassOutputEnable := x.ipReassOutputEnable } := by
  have hnodup : (Dict.keys (ipReassDoc x)).Nodup := by
    simp [ipReassDoc, py_inj]
  simp only [writeDict, Dict.ofEntries_of_nodup hnodup]
  apply writeEntries_leaves
    [((py "ip_reass_layers", .int x.ipReassLayers.toNat),
        fun y => { y with ipReassLayers := x.ipReassLayers }),
      ((py "ip_reass_output_enable", .int x.ipReassOutputEnable.toNat),
        fun y => { y with ipReassOutputEnable := x.ipReassOutputEnable })]
  simp only [List.forall_mem_cons]
  refine ⟨?_, ?_, ?_⟩
  · intro s
    simp only [updateSingleIpReassConfigInternal, if_true]
    rw [writeNumber_uint8, ipReassSetMaxLayer_eq]
    rfl
  · intro s
    simp only [updateSingleIpReassConfigInternal, py_inj, String.reduceEq, if_false, if_true]
    rw [writeNumber_uint8, ipReassSetReassOutput_eq s i hle]
    rfl
  · intro e he
    cases he

/-- The type is found under its name, unless the name is written in another way. -/
theorem intfTypeOf_typeName {t : UInt8} {type : String} (htype : typeName t = some type)
    (hne : t ≠ 1) : intfTypeOf (.str (py type)) = .ok t.toNat := by
  rw [typeName] at htype
  split at htype
  next ht => cases htype; subst ht; rfl
  split at htype
  next ht => cases htype; subst ht; rfl
  split at htype
  next ht => cases htype; subst ht; rfl
  split at htype
  next ht => cases htype; subst ht; rfl
  next => cases htype

/-- What every interface is like: the type has a name, the actions are numbers of actions, and the
output of the reassembly is on or off. -/
structure Interface.Stored (x : Interface) : Prop where
  type_le : x.interfaceType ≤ 4
  actions : x.ActionsOk
  output_le : x.ipReassOutputEnable ≤ 1

theorem writeDocument_leaves (digits : TakesDigits env.rest.python) (reads : Reads env)
    (h : InArray i) {x : Interface} (stored : x.Stored) {name type : String}
    (hname : x.aliasName.toString? = some name) (htype : typeName x.interfaceType = some type)
    (hne : x.interfaceType ≠ 1) :
    Leaves (fun s => writeDict (updateSingleInterfaceConfigInternal env i) s
      (.object (interfaceDoc env i x name type))) i
      fun y => { x with ruleToAction := x.overwrite y.ruleToAction } := by
  have hnodup : (Dict.keys (interfaceDoc env i x name type)).Nodup := nodup_interfaceConfigKeys
  obtain ⟨hzero, halias⟩ := toString?_eq_some hname
  simp only [writeDict, Dict.ofEntries_of_nodup hnodup]
  apply writeEntries_leaves
    [((py "admin_status", .int x.adminStatus.toNat),
        fun y => { y with adminStatus := x.adminStatus }),
      ((py "port_id", .int i), id),
      ((py "alias", .str (py name)), fun y => { y with aliasName := x.aliasName }),
      ((py "interface_type", .str (py type)),
        fun y => { y with interfaceType := x.interfaceType }),
      ((py "mac", .str (py (macText x.mac))), fun y => { y with mac := x.mac }),
      ((py "ipaddr_mask", .int x.ipaddrMask.toNat),
        fun y => { y with ipaddrMask := x.ipaddrMask }),
      ((py "ipv4_addr", .str (py (dottedText x.ipv4Addr))),
        fun y => { y with ipv4Addr := x.ipv4Addr }),
      ((py "ipv6_addr", .str (py (env.inetNtop true (List.ofFn x.ipv6Addr)))),
        fun y => { y with ipv6Addr := x.ipv6Addr }),
      ((py "ipv4_gateway", .str (py (dottedText x.ipv4Gateway))),
        fun y => { y with ipv4Gateway := x.ipv4Gateway }),
      ((py "ipv6_gateway", .str (py (env.inetNtop true (List.ofFn x.ipv6Gateway)))),
        fun y => { y with ipv6Gateway := x.ipv6Gateway }),
      ((py "ingress_config", .object (ingressDoc x)),
        fun y => { y with
          aclRuleGroup := x.aclRuleGroup
          defaultActionId := x.defaultActionId
          ruleToAction := x.overwrite y.ruleToAction }),
      ((py "ip_reass_config", .object (ipReassDoc x)),
        fun y => { y with
          ipReassLayers := x.ipReassLayers, ipReassOutputEnable := x.ipReassOutputEnable })]
  simp only [List.forall_mem_cons]
  refine ⟨?_, ?_, ?_, ?_, ?_, ?_, ?_, ?_, ?_, ?_, ?_, ?_, ?_⟩
  · intro s
    simp only [updateSingleInterfaceConfigInternal, if_true]
    exact writeNumber_leaves h x.adminStatus (fun y v => { y with adminStatus := v }) s
  · intro s
    simp [updateSingleInterfaceConfigInternal, py_inj]
  · intro s
    simp only [updateSingleInterfaceConfigInternal, py_inj, String.reduceEq, if_false, if_true]
    rw [writeText_text s hzero, setInterfaceAliasName, setAt_eq h, halias]
    rfl
  · intro s
    simp only [updateSingleInterfaceConfigInternal, py_inj, String.reduceEq, if_false, if_true,
      intfTypeOf_typeName htype hne]
    rw [setInterfaceInterfaceType, setNumber, setAt_eq h, uint8_toNat]
    rfl
  · intro s
    simp only [updateSingleInterfaceConfigInternal, py_inj, String.reduceEq, if_false, if_true]
    exact setMac_leaves h x.mac s
  · intro s
    simp only [updateSingleInterfaceConfigInternal, py_inj, String.reduceEq, if_false, if_true]
    exact writeNumber_leaves h x.ipaddrMask (fun y v => { y with ipaddrMask := v }) s
  · intro s
    simp only [updateSingleInterfaceConfigInternal, py_inj, String.reduceEq, if_false, if_true]
    exact setIpv4_leaves reads h x.ipv4Addr (fun y a => { y with ipv4Addr := a }) s
  · intro s
    simp only [updateSingleInterfaceConfigInternal, py_inj, String.reduceEq, if_false, if_true]
    exact setIpv6_leaves reads h x.ipv6Addr (fun y a => { y with ipv6Addr := a }) s
  · intro s
    simp only [updateSingleInterfaceConfigInternal, py_inj, String.reduceEq, if_false, if_true]
    exact setIpv4_leaves reads h x.ipv4Gateway (fun y a => { y with ipv4Gateway := a }) s
  · intro s
    simp only [updateSingleInterfaceConfigInternal, py_inj, String.reduceEq, if_false, if_true]
    exact setIpv6_leaves reads h x.ipv6Gateway (fun y a => { y with ipv6Gateway := a }) s
  · intro s
    simp only [updateSingleInterfaceConfigInternal, py_inj, String.reduceEq, if_false, if_true]
    exact writeIngress_leaves digits h stored.actions s
  · intro s
    simp only [updateSingleInterfaceConfigInternal, py_inj, String.reduceEq, if_false, if_true]
    exact writeIpReass_leaves stored.output_le s
  · intro e he
    cases he

end Tapplet.Intf
