import Tapplet.Actions.RoundTrip
import Tapplet.Intf.Stored

/-!
# The configuration of the interfaces that is saved and restored

`conf_interfaces.py` saves what `get_interfaces_config` returns and restores it with
`update_interface_config`. Not every configuration that can be reached comes back: an alias that was
cut in the middle of a character is no text, the type 1 is written as `loopbak` but read as
`loopback`, and only the first half of the rules is read.
-/

namespace Tapplet.Intf

open Rest Actions Transition

variable {env : Env} {s : Conf}

theorem inArray_of_valid {i : Nat} (h : ValidInterface env.toEnv i) : InArray i :=
  ⟨h.1, h.2.trans env.interfacesCnt_le⟩

theorem mem_interfaces {i : Nat} :
    i ∈ List.range' 1 env.interfacesCnt ↔ ValidInterface env.toEnv i := by
  rw [List.mem_range'_1, ValidInterface]
  omega

/-! ## Reading -/

theorem typeName_isSome {t : UInt8} (h : t ≤ 4) : ∃ type, typeName t = some type := by
  have hcases : t = 0 ∨ t = 1 ∨ t = 2 ∨ t = 3 ∨ t = 4 := by
    have hle := UInt8.le_iff_toNat_le.mp h
    simp only [← UInt8.toNat_inj]
    have hfour : (4 : UInt8).toNat = 4 := rfl
    have hthree : (3 : UInt8).toNat = 3 := rfl
    have htwo : (2 : UInt8).toNat = 2 := rfl
    have hone : (1 : UInt8).toNat = 1 := rfl
    have hzero : (0 : UInt8).toNat = 0 := rfl
    omega
  rcases hcases with rfl | rfl | rfl | rfl | rfl
  all_goals exact ⟨_, rfl⟩

/-- The document of the interface, whose alias is a text. -/
def Interface.document (env : Env) (x : Interface) (i : Nat) : Dict PyStr Json :=
  interfaceDoc env i x (x.aliasName.toString?.getD "") ((typeName x.interfaceType).getD "")

theorem nodup_interfaceDocument (x : Interface) (i : Nat) :
    (Dict.keys (x.document env i)).Nodup := nodup_interfaceConfigKeys

theorem readInterface_document (reads : Reads env) {i : Nat} (h : InArray i)
    (stored : (s i).Stored) (hname : (s i).aliasName.toString?.isSome) :
    readKeys (getSingleInterfaceConfig env s i) interfaceConfigKeys []
      = .ok (.ok, (s i).document env i) := by
  obtain ⟨name, hname⟩ := Option.isSome_iff_exists.mp hname
  obtain ⟨type, htype⟩ := typeName_isSome stored.type_le
  rw [readInterface_eq reads h hname htype, Interface.document, hname, htype]
  rfl

theorem readInterfaces_eq (reads : Reads env) {indexes : List Nat}
    (h : ∀ i ∈ indexes, InArray i) (stored : ∀ i, (s i).Stored)
    (hname : ∀ i ∈ indexes, (s i).aliasName.toString?.isSome) (d : Dict PyStr Json) :
    readInterfaces env s indexes d = .ok (.ok,
      (indexes.map fun i => (interfaceName i, .object ((s i).document env i))).foldl
        (fun d e => d.set e.1 e.2) d) := by
  induction indexes generalizing d with
  | nil => rfl
  | cons i indexes ih =>
      have hread := readInterface_document reads (h i List.mem_cons_self) (stored i)
        (hname i List.mem_cons_self)
      rw [readInterfaces, hread]
      exact ih (fun j hj => h j (List.mem_cons_of_mem _ hj))
        (fun j hj => hname j (List.mem_cons_of_mem _ hj)) _

theorem readInterfaces_ok {indexes : List Nat} (h : ∀ i ∈ indexes, InArray i)
    {d d' : Dict PyStr Json} (hread : readInterfaces env s indexes d = .ok (.ok, d')) :
    ∀ i ∈ indexes, (s i).aliasName.toString?.isSome := by
  induction indexes generalizing d with
  | nil =>
      intro i hi
      cases hi
  | cons i indexes ih =>
      rw [readInterfaces] at hread
      cases hname : (s i).aliasName.toString? with
      | none =>
          rw [readInterface_error (h i List.mem_cons_self) hname] at hread
          cases hread
      | some name =>
          split at hread
          next tmpdict _ =>
            intro j hj
            rcases List.mem_cons.mp hj with rfl | hj
            · rw [hname]
              rfl
            · exact ih (fun j hj => h j (List.mem_cons_of_mem _ hj)) hread j hj
          next hne _ =>
            cases hread
            exact absurd rfl hne
          next => cases hread

/-- The document of all interfaces. -/
def document (env : Env) (s : Conf) : Dict PyStr Json :=
  (List.range' 1 env.interfacesCnt).map fun i =>
    (interfaceName i, .object ((s i).document env i))

theorem nodup_document (env : Env) (s : Conf) : (Dict.keys (document env s)).Nodup := by
  rw [document, Dict.keys, List.map_map]
  exact List.Nodup.map (fun _ _ heq => interfaceName_injective heq) List.nodup_range'

theorem getInterfacesConfig_eq (reads : Reads env) (stored : ∀ i, (s i).Stored)
    (hname : ∀ i, ValidInterface env.toEnv i → (s i).aliasName.toString?.isSome) :
    getInterfacesConfig env s = .ok (.ok, document env s) := by
  rw [getInterfacesConfig,
    readInterfaces_eq reads (fun i hi => inArray_of_valid (mem_interfaces.mp hi))
    stored fun i hi => hname i (mem_interfaces.mp hi)]
  exact congrArg _ (congrArg _ (Dict.ofEntries_of_nodup (nodup_document env s)))

/-! ## Writing -/

/-- The index that a name stands for. -/
theorem find_interfaceName {i : Nat} (h : ValidInterface env.toEnv i) :
    ((List.range' 1 env.interfacesCnt).find? fun j => interfaceName j = interfaceName i).getD 0
      = i := by
  have hfind : (List.range' 1 env.interfacesCnt).find?
      (fun j => interfaceName j = interfaceName i) = some i := by
    apply List.find?_range'_eq_some.mpr
    refine ⟨decide_eq_true rfl, mem_interfaces.mpr h, ?_⟩
    intro j _ hj
    have hne : interfaceName j ≠ interfaceName i := mt interfaceName_injective (by omega)
    simp [hne]
  rw [hfind]
  rfl

theorem checkInterfaceIndex_eq {i : Nat} (h : ValidInterface env.toEnv i) :
    checkInterfaceIndex env i = false := by
  obtain ⟨hpos, hle⟩ := h
  rw [checkInterfaceIndex, Bool.or_eq_false_iff, decide_eq_false_iff_not, decide_eq_false_iff_not]
  omega

/-- The document is written interface by interface. -/
theorem updateInterfaceConfig_document (s u : Conf) :
    updateInterfaceConfig env u (document env s) =
      writeKeys (fun u name v => updateSingleInterfaceConfig env u
        (((List.range' 1 env.interfacesCnt).find? fun j => interfaceName j = name).getD 0) v) u
        (document env s) := by
  rw [updateInterfaceConfig, if_neg]
  rw [Bool.not_eq_true, List.any_eq_false]
  intro e he
  obtain ⟨i, hi, rfl⟩ := List.mem_map.mp he
  have hvalid := mem_interfaces.mp hi
  dsimp only
  rw [find_interfaceName hvalid, checkInterfaceIndex_eq hvalid]
  decide

/-- Entries that are written to different interfaces. -/
theorem writeKeys_places {write : Conf → PyStr → Json → Written} {entry : Nat → PyStr × Json}
    {f : Nat → Interface → Interface} {indexes : List Nat} (hnodup : indexes.Nodup)
    (h : ∀ i ∈ indexes, Leaves (fun u => write u (entry i).1 (entry i).2) i (f i)) (u : Conf) :
    writeKeys write u (indexes.map entry)
      = (fun j => if j ∈ indexes then f j (u j) else u j, .ok .ok) := by
  induction indexes generalizing u with
  | nil => simp [writeKeys]
  | cons i indexes ih =>
      have hhead := h i List.mem_cons_self u
      obtain ⟨hnotMem, hnodup⟩ := List.nodup_cons.mp hnodup
      dsimp only at hhead
      rw [List.map_cons, writeKeys, hhead]
      dsimp only
      rw [ih hnodup fun j hj => h j (List.mem_cons_of_mem _ hj)]
      congr
      funext j
      by_cases hj : j = i
      · subst hj
        simp [hnotMem]
      · simp [hj]

/-- What comes back of an interface, once its document is made. -/
structure Accepted (x : Interface) : Prop where
  alias_text : x.aliasName.toString?.isSome
  type_ne : x.interfaceType ≠ 1

theorem updateInterfaceConfig_leaves (digits : TakesDigits env.rest.python) (reads : Reads env)
    (stored : ∀ i, (s i).Stored) (haccepted : ∀ i, ValidInterface env.toEnv i → Accepted (s i))
    (u : Conf) :
    updateInterfaceConfig env u (document env s) =
      (fun i => if i ∈ List.range' 1 env.interfacesCnt then
        { s i with ruleToAction := (s i).overwrite (u i).ruleToAction } else u i, .ok .ok) := by
  rw [updateInterfaceConfig_document]
  apply writeKeys_places (f := fun i y =>
    { s i with ruleToAction := (s i).overwrite y.ruleToAction }) List.nodup_range'
  intro i hi
  have hvalid := mem_interfaces.mp hi
  obtain ⟨name, hname⟩ := Option.isSome_iff_exists.mp (haccepted i hvalid).alias_text
  obtain ⟨type, htype⟩ := typeName_isSome (stored i).type_le
  have hleaves := writeDocument_leaves digits reads (inArray_of_valid hvalid) (stored i) hname htype
    (haccepted i hvalid).type_ne
  intro u
  dsimp only
  rw [find_interfaceName hvalid, updateSingleInterfaceConfig, Json.isDict, if_neg (by decide),
    checkInterfaceIndex_eq hvalid, if_neg (by decide), Interface.document, hname, htype]
  exact hleaves u

/-- Keys that are all accepted are accepted each. -/
theorem writeKeys_ok {write : Conf → PyStr → Json → Written} {entries : List (PyStr × Json)}
    {u t : Conf} (h : writeKeys write u entries = (t, .ok .ok)) :
    ∀ e ∈ entries, ∃ u t, write u e.1 e.2 = (t, .ok .ok) := by
  induction entries generalizing u with
  | nil =>
      intro e he
      cases he
  | cons e entries ih =>
      rw [writeKeys] at h
      split at h
      next t' heq =>
        intro e' he'
        rcases List.mem_cons.mp he' with rfl | he'
        · exact ⟨u, t', heq⟩
        · exact ih h e' he'
      next hne => exact absurd h (hne t)

/-- A type that is written in another way than it is read is refused. -/
theorem updateInterfaceConfig_type {u t : Conf}
    (h : updateInterfaceConfig env u (document env s) = (t, .ok .ok)) {i : Nat}
    (hvalid : ValidInterface env.toEnv i) : (s i).interfaceType ≠ 1 := by
  intro htype
  rw [updateInterfaceConfig_document] at h
  obtain ⟨u, t, hwrite⟩ := writeKeys_ok h _
    (List.mem_map.mpr ⟨i, mem_interfaces.mpr hvalid, rfl⟩)
  dsimp only at hwrite
  rw [find_interfaceName hvalid, updateSingleInterfaceConfig, Json.isDict, if_neg (by decide),
    checkInterfaceIndex_eq hvalid, if_neg (by decide), writeDict,
    Dict.ofEntries_of_nodup (nodup_interfaceDocument _ _)] at hwrite
  obtain ⟨u', t', hentry⟩ := writeKeys_ok hwrite (py "interface_type", .str (py "loopback")) (by
    rw [Interface.document, htype]
    simp [interfaceDoc, typeName])
  have hraised : intfTypeOf (.str (py "loopback")) = .error (.py .keyError) := rfl
  simp only [updateSingleInterfaceConfigInternal, py_inj, String.reduceEq, if_false, if_true,
    hraised] at hentry
  cases hentry

/-! ## Saving and restoring -/

/-- Rules written over themselves are left as they are. -/
theorem Interface.overwrite_self (x : Interface) : x.overwrite x.ruleToAction = x.ruleToAction := by
  funext k
  rw [x.overwrite_eq fun k => .inl rfl]
  exact ite_self _

/-- Rules that have no action get those of `x` that are shown. -/
theorem Interface.overwrite_zero_eq_iff (x : Interface) :
    x.overwrite (fun _ => 0) = x.ruleToAction ↔
      ∀ k : Fin MAX_ACL_RULE_COUNT, getMaxRuleId ≤ k.val → x.ruleToAction k = 0 := by
  have heq : ∀ k, x.overwrite (fun _ => 0) k
      = if k.val < getMaxRuleId then x.ruleToAction k else 0 :=
    x.overwrite_eq fun k => .inr rfl
  constructor
  · intro h k hk
    have hk' := heq k
    rw [h, if_neg (Nat.not_lt.mpr hk)] at hk'
    exact hk'
  · intro h
    funext k
    rw [heq k]
    split
    next => rfl
    next hk => exact (h k (Nat.not_lt.mp hk)).symm

/-- A document is made unless an alias is no text. -/
theorem getInterfacesConfig_iff (reads : Reads env) (stored : ∀ i, (s i).Stored)
    {doc : Dict PyStr Json} : getInterfacesConfig env s = .ok (.ok, doc) ↔
      doc = document env s ∧
        ∀ i, ValidInterface env.toEnv i → (s i).aliasName.toString?.isSome := by
  constructor
  · intro hget
    have hname : ∀ i, ValidInterface env.toEnv i → (s i).aliasName.toString?.isSome :=
      fun i hvalid => readInterfaces_ok (fun i hi => inArray_of_valid (mem_interfaces.mp hi)) hget i
        (mem_interfaces.mpr hvalid)
    rw [getInterfacesConfig_eq reads stored hname] at hget
    cases hget
    exact ⟨rfl, hname⟩
  · rintro ⟨rfl, hname⟩
    exact getInterfacesConfig_eq reads stored hname

/-- Written over the configuration that it was made from, a document changes nothing. -/
theorem updateInterfaceConfig_self_iff (digits : TakesDigits env.rest.python) (reads : Reads env)
    (stored : ∀ i, (s i).Stored)
    (hname : ∀ i, ValidInterface env.toEnv i → (s i).aliasName.toString?.isSome) :
    updateInterfaceConfig env s (document env s) = (s, .ok .ok) ↔
      ∀ i, ValidInterface env.toEnv i → (s i).interfaceType ≠ 1 := by
  constructor
  · intro hput i hvalid
    exact updateInterfaceConfig_type hput hvalid
  · intro htype
    rw [updateInterfaceConfig_leaves digits reads stored fun i hi => ⟨hname i hi, htype i hi⟩]
    congr
    funext i
    rw [Interface.overwrite_self]
    exact ite_self _

/-- Written after a reset, it brings back what it shows. -/
theorem updateInterfaceConfig_reset_iff (digits : TakesDigits env.rest.python) (reads : Reads env)
    (stored : ∀ i, (s i).Stored)
    (hname : ∀ i, ValidInterface env.toEnv i → (s i).aliasName.toString?.isSome) (u : Conf) :
    (∃ t, updateInterfaceConfig env (resetConfig u) (document env s) = (t, .ok .ok) ∧
        ∀ i, ValidInterface env.toEnv i → t i = s i) ↔
      ∀ i, ValidInterface env.toEnv i → (s i).interfaceType ≠ 1 ∧
        ∀ k : Fin MAX_ACL_RULE_COUNT, getMaxRuleId ≤ k.val → (s i).ruleToAction k = 0 := by
  constructor
  · rintro ⟨t, hput, hback⟩ i hvalid
    have htype := fun i hvalid => updateInterfaceConfig_type (i := i) hput hvalid
    refine ⟨htype i hvalid, ?_⟩
    rw [updateInterfaceConfig_leaves digits reads stored fun i hi => ⟨hname i hi, htype i hi⟩]
      at hput
    have hi := hback i hvalid
    rw [← (Prod.mk.inj hput).1] at hi
    dsimp only at hi
    rw [if_pos (mem_interfaces.mpr hvalid)] at hi
    exact (Interface.overwrite_zero_eq_iff _).mp (congrArg Interface.ruleToAction hi)
  · intro hback
    refine ⟨_, updateInterfaceConfig_leaves digits reads stored
      (fun i hi => ⟨hname i hi, (hback i hi).1⟩) _, ?_⟩
    intro i hvalid
    dsimp only
    rw [if_pos (mem_interfaces.mpr hvalid)]
    have hrules := (Interface.overwrite_zero_eq_iff (s i)).mpr (hback i hvalid).2
    show { s i with ruleToAction := (s i).overwrite fun _ => 0 } = s i
    rw [hrules]

/-- What is got can be put back, and comes back after a reset, except in the three cases. -/
theorem saved_restored (digits : TakesDigits env.rest.python) (reads : Reads env)
    {requests : List Request} (h : Reached env requests s) :
    ((∃ doc, getInterfacesConfig env s = .ok (.ok, doc)) ↔
      ∀ i, ValidInterface env.toEnv i → (s i).aliasName.toString?.isSome) ∧
    ∀ doc, getInterfacesConfig env s = .ok (.ok, doc) →
      (updateInterfaceConfig env s doc = (s, .ok .ok) ↔
        ∀ i, ValidInterface env.toEnv i → (s i).interfaceType ≠ 1) ∧
      ((∃ t, updateInterfaceConfig env (resetConfig s) doc = (t, .ok .ok) ∧
          ∀ i, ValidInterface env.toEnv i → t i = s i) ↔
        ∀ i, ValidInterface env.toEnv i → (s i).interfaceType ≠ 1 ∧
          ∀ k : Fin MAX_ACL_RULE_COUNT, getMaxRuleId ≤ k.val → (s i).ruleToAction k = 0) := by
  have stored := h.stored
  constructor
  · constructor
    · rintro ⟨doc, hget⟩
      exact ((getInterfacesConfig_iff reads stored).mp hget).2
    · exact fun hname => ⟨_, (getInterfacesConfig_iff reads stored).mpr ⟨rfl, hname⟩⟩
  · intro doc hget
    obtain ⟨rfl, hname⟩ := (getInterfacesConfig_iff reads stored).mp hget
    exact ⟨updateInterfaceConfig_self_iff digits reads stored hname,
      updateInterfaceConfig_reset_iff digits reads stored hname s⟩

def fourInterfaces : Env where
  toEnv := fourPorts
  temp _ _ := 0

theorem length_inetNtop (a : Fin 16 → UInt8) :
    (Acl.inetNtop true (List.ofFn a)).toList.length < 40 := by
  rw [Acl.inetNtop, if_pos rfl]
  split
  · decide
  · simp [Acl.joinParts, Acl.groups, Acl.hexText, List.ofFn_succ, List.intercalate]

theorem size_inetNtop (a : Fin 16 → UInt8) :
    (Acl.inetNtop true (List.ofFn a)).utf8ByteSize < 40 := by
  have hascii := Acl.utf8ByteSize_ascii
    fun c hc => (Acl.inetNtop_chars true (List.ofFn a) c hc).utf8Size
  rw [String.ofList_toList] at hascii
  exact hascii.trans_lt (length_inetNtop a)

theorem inetPton_dottedText (a : Fin 4 → UInt8) :
    Acl.inetPton false (dottedText a) = some (List.ofFn a) := by
  have hlength : (List.ofFn a).length = if false then 16 else 4 := List.length_ofFn
  exact Acl.inetPton_ntop hlength

theorem inetPton_fourInterfaces : fourInterfaces.rest.acl.inetPton = Acl.inetPton := rfl

theorem reads_fourInterfaces : Reads fourInterfaces where
  text := Acl.addressText _
  dotted a := by
    rw [inetPton_fourInterfaces]
    exact inetPton_dottedText a
  size := size_inetNtop

theorem Reached.of_request (env : Env) (u : Conf) (request : Request) :
    Reached env [request] (request.next env (resetConfig u)) :=
  ⟨u, .cons ⟨env.temp, rfl⟩ (.refl _)⟩

/-- An interface that gets the type 1. -/
def putLoopback : Request :=
  .put [(py "G2", .object [(py "interface_type", .str (py "loopbak"))])]

/-- The type 1 is shown, but what is shown is not taken back. -/
theorem saved_restored_loopback : ∃ s doc, Reached fourInterfaces [putLoopback] s ∧
    getInterfacesConfig fourInterfaces s = .ok (.ok, doc) ∧
    updateInterfaceConfig fourInterfaces s doc ≠ (s, .ok .ok) := by
  have hreached := Reached.of_request fourInterfaces
    (fun _ => initSingleInterfaceConfig fun _ => 0) putLoopback
  obtain ⟨hget, hput⟩ := saved_restored takesDigits_sample reads_fourInterfaces hreached
  obtain ⟨doc, hdoc⟩ := hget.mpr (by
    have hall : ∀ i ∈ List.range' 1 4, (putLoopback.next fourInterfaces
        (resetConfig fun _ => initSingleInterfaceConfig fun _ => 0)
          i).aliasName.toString?.isSome := by
      decide +kernel
    exact fun i hi => hall i (mem_interfaces.mpr hi))
  refine ⟨_, doc, hreached, hdoc, ?_⟩
  intro hback
  have htype := (hput doc hdoc).1.mp hback 2 ⟨by decide, by decide⟩
  exact htype (by decide +kernel)

/-- What is got of the configuration can be put back over it and changes nothing then, and over any
configuration that has been reset it restores every interface. -/
def RoundTrips (env : Env) (s : Conf) : Prop :=
  ∃ doc, getInterfacesConfig env s = .ok (.ok, doc) ∧
    updateInterfaceConfig env s doc = (s, .ok .ok) ∧
    ∀ u, ∃ t, updateInterfaceConfig env (resetConfig u) doc = (t, .ok .ok) ∧
      ∀ i, ValidInterface env.toEnv i → t i = s i

/-- A configuration round-trips exactly if every alias is a text, no interface has the type 1, and
no rule has an action that is not shown. -/
theorem roundTrips_iff (digits : TakesDigits env.rest.python) (reads : Reads env)
    {requests : List Request} (h : Reached env requests s) :
    RoundTrips env s ↔ ∀ i, ValidInterface env.toEnv i →
      (s i).aliasName.toString?.isSome ∧ (s i).interfaceType ≠ 1 ∧
        ∀ k : Fin MAX_ACL_RULE_COUNT, getMaxRuleId ≤ k.val → (s i).ruleToAction k = 0 := by
  have stored := h.stored
  constructor
  · rintro ⟨doc, hget, -, hreset⟩ i hvalid
    obtain ⟨rfl, hname⟩ := (getInterfacesConfig_iff reads stored).mp hget
    have hback := (updateInterfaceConfig_reset_iff digits reads stored hname s).mp (hreset s)
    exact ⟨hname i hvalid, hback i hvalid⟩
  · intro hall
    have hname := fun i hvalid => (hall i hvalid).1
    have hback := fun i hvalid => (hall i hvalid).2
    refine ⟨_, (getInterfacesConfig_iff reads stored).mpr ⟨rfl, hname⟩, ?_, ?_⟩
    · exact (updateInterfaceConfig_self_iff digits reads stored hname).mpr
        fun i hvalid => (hback i hvalid).1
    · exact fun u => (updateInterfaceConfig_reset_iff digits reads stored hname u).mpr hback

/-- A tunnel with an alias, addresses and actions for two rules. -/
def tunnel : Interface :=
  { initSingleInterfaceConfig fun _ => 2 with
    adminStatus := 0
    interfaceType := 4
    ipaddrMask := 24
    ipv4Addr := fun _ => 10
    ipv6Addr := fun _ => 0xfd
    aliasName := .strncpy [117, 112]
    defaultActionId := 2
    ruleToAction := fun k => if k.val < 2 then 3 else 0 }

theorem tunnel_stored : tunnel.Stored := by
  refine ⟨by decide, fun k => ?_, by decide⟩
  show ((if k.val < 2 then 3 else 0 : UInt8)).toNat ≤ MAX_ACTION_COUNT
  split
  · decide
  · decide

/-- Tunnels at all ports, which are reached by putting their own document. -/
theorem roundTrips_tunnels : ∃ s, Reached fourInterfaces
      [.put (document fourInterfaces fun _ => tunnel)] s ∧
    (∀ i, ValidInterface fourInterfaces.toEnv i → s i = tunnel) ∧
    RoundTrips fourInterfaces s := by
  have hname : tunnel.aliasName.toString?.isSome := by decide +kernel
  have hback : tunnel.interfaceType ≠ 1 ∧
      ∀ k : Fin MAX_ACL_RULE_COUNT, getMaxRuleId ≤ k.val → tunnel.ruleToAction k = 0 := by
    refine ⟨by decide, fun k hk => if_neg ?_⟩
    have hmax : getMaxRuleId = 2048 := rfl
    omega
  obtain ⟨s, hput, hs⟩ := (updateInterfaceConfig_reset_iff takesDigits_sample
    reads_fourInterfaces (s := fun _ => tunnel) (fun _ => tunnel_stored) (fun _ _ => hname)
    fun _ => tunnel).mpr fun _ _ => hback
  have hreached := Reached.of_request fourInterfaces (fun _ => tunnel)
    (.put (document fourInterfaces fun _ => tunnel))
  rw [Request.next, hput] at hreached
  dsimp only at hreached
  refine ⟨s, hreached, hs, (roundTrips_iff takesDigits_sample reads_fourInterfaces hreached).mpr ?_⟩
  intro i hvalid
  rw [hs i hvalid]
  exact ⟨hname, hback⟩

/-- An interface that is put as a loopback is shown so, but not taken back. -/
theorem loopback_not_roundTrips : ∃ s, Reached fourInterfaces [putLoopback] s ∧
    ¬ RoundTrips fourInterfaces s := by
  have hreached := Reached.of_request fourInterfaces
    (fun _ => initSingleInterfaceConfig fun _ => 0) putLoopback
  refine ⟨_, hreached, ?_⟩
  rintro ⟨doc, hget, hput, -⟩
  obtain ⟨rfl, -⟩ := (getInterfacesConfig_iff reads_fourInterfaces hreached.stored).mp hget
  have htype := updateInterfaceConfig_type hput (i := 2) ⟨by decide, by decide⟩
  exact htype (by decide +kernel)

end Tapplet.Intf
