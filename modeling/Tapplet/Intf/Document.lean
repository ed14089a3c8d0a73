import Tapplet.Actions.Fields
import Tapplet.Intf.Handler

/-!
# The document of an interface

What `get_interfaces_config` makes of the configuration: one dictionary for each interface, with a
key for each part. Only the alias can keep it from being made, since the bytes that are stored need
not be UTF-8: the name of an interface is cut to 20 bytes, wherever a character ends.
-/

namespace Tapplet.Intf

open Rest Actions

theorem py_inj {a b : String} : py a = py b ↔ a = b := by
  constructor
  · intro h
    have hchars := List.map_injective_iff.mpr (fun _ _ => Char.toNat_inj.mp) h
    exact String.toList_inj.mp hchars
  · exact congrArg py

/-- The action of a rule. -/
def Interface.rule (x : Interface) (i : Nat) : UInt8 :=
  if h : 1 ≤ i ∧ i ≤ MAX_ACL_RULE_COUNT then x.ruleToAction ⟨i - 1, by omega⟩ else 0

/-- `rule_to_action`: the rules that are looked at and have an action. -/
def rulesDoc (x : Interface) (rules : List Nat) : Dict PyStr Json :=
  rules.filterMap fun i =>
    if x.rule i = 0 then none else some (py (toString i), .int (x.rule i).toNat)

/-- The name of a type; 1 is written in another way than it is read. -/
def typeName (interfaceType : UInt8) : Option String :=
  if interfaceType = 0 then some "normal"
  else if interfaceType = 1 then some "loopback"
  else if interfaceType = 2 then some "force_tx"
  else if interfaceType = 3 then some "normal_and_check"
  else if interfaceType = 4 then some "tunnel"
  else none

def ingressDoc (x : Interface) : Dict PyStr Json :=
  [(py "acl_rule_group", .int x.aclRuleGroup.toNat),
    (py "default_action_id", .int x.defaultActionId.toNat),
    (py "rule_to_action", .object (rulesDoc x (List.range' 1 getMaxRuleId)))]

def ipReassDoc (x : Interface) : Dict PyStr Json :=
  [(py "ip_reass_layers", .int x.ipReassLayers.toNat),
    (py "ip_reass_output_enable", .int x.ipReassOutputEnable.toNat)]

variable {env : Env}

/-- The dictionary of interface `i`, with this alias and type. -/
def interfaceDoc (env : Env) (i : Nat) (x : Interface) (name type : String) : Dict PyStr Json :=
  [(py "admin_status", .int x.adminStatus.toNat), (py "port_id", .int i),
    (py "alias", .str (py name)), (py "interface_type", .str (py type)),
    (py "mac", .str (py (macText x.mac))), (py "ipaddr_mask", .int x.ipaddrMask.toNat),
    (py "ipv4_addr", .str (py (dottedText x.ipv4Addr))),
    (py "ipv6_addr", .str (py (env.inetNtop true (List.ofFn x.ipv6Addr)))),
    (py "ipv4_gateway", .str (py (dottedText x.ipv4Gateway))),
    (py "ipv6_gateway", .str (py (env.inetNtop true (List.ofFn x.ipv6Gateway)))),
    (py "ingress_config", .object (ingressDoc x)),
    (py "ip_reass_config", .object (ipReassDoc x))]

/-- The index of an interface in the array. -/
def InArray (i : Nat) : Prop := 1 ≤ i ∧ i ≤ MAX_INTERFACE_CNT

theorem outside_eq {i : Nat} (h : InArray i) : outside i = false := by
  have hmax : MAX_INTERFACE_CNT = 63 := rfl
  obtain ⟨hpos, hle⟩ := h
  simp only [outside, Bool.or_eq_false_iff, decide_eq_false_iff_not]
  omega

theorem getAt_eq {α : Type} {i : Nat} (h : InArray i) (s : Conf) (f : Interface → Int × α) (a : α) :
    getAt s i f a = f (s i) := by
  rw [getAt, outside_eq h]
  rfl

theorem getNumber_eq {i : Nat} (h : InArray i) (s : Conf) (f : Interface → UInt8) :
    getNumber s i f = (f (s i)).toNat := by
  rw [getNumber, getAt_eq h]

theorem getIngressRuleToAction_eq {i r : Nat} (h : InArray i)
    (hr : 1 ≤ r ∧ r ≤ MAX_ACL_RULE_COUNT) (s : Conf) :
    getIngressRuleToAction s i r = ((s i).rule r).toNat := by
  have hint : 1 ≤ (r : Int) ∧ (r : Int) ≤ MAX_ACL_RULE_COUNT := by omega
  rw [getIngressRuleToAction, getAt_eq h, dif_pos hint, Interface.rule, dif_pos hr]
  have hindex : ((r : Int) - 1).toNat = r - 1 := by omega
  simp only [hindex]

theorem answer_ok (d : Dict PyStr Json) (name : String) (result : Nat) (v : Json) :
    answer d name result v = .ok (.ok, d.set (py name) v) := by
  rw [answer, if_neg (by omega)]

/-- The rules that have an action are read. -/
theorem readRules_eq {i : Nat} (h : InArray i) (s : Conf) {rules : List Nat}
    (hrules : ∀ r ∈ rules, 1 ≤ r ∧ r ≤ MAX_ACL_RULE_COUNT) (hnodup : rules.Nodup)
    {d : Dict PyStr Json} (hnew : ∀ r ∈ rules, py (toString r) ∉ Dict.keys d) :
    readRules s i rules d = .ok (.ok, d ++ rulesDoc (s i) rules) := by
  induction rules generalizing d with
  | nil =>
      rw [readRules, rulesDoc, List.filterMap_nil, List.append_nil]
  | cons r rules ih =>
      have hr := hrules r List.mem_cons_self
      have hrules := fun r' h' => hrules r' (List.mem_cons_of_mem r h')
      obtain ⟨hnotMem, hnodup⟩ := List.nodup_cons.mp hnodup
      rw [readRules, getIngressRuleToAction_eq h hr, rulesDoc, List.filterMap_cons, ← rulesDoc]
      by_cases hzero : (s i).rule r = 0
      · rw [hzero, if_neg (by decide), if_neg (by decide), if_pos rfl]
        exact ih hrules hnodup fun r' h' => hnew r' (List.mem_cons_of_mem r h')
      · have hne : ((s i).rule r).toNat ≠ 0 := fun h' => hzero (UInt8.toNat_inj.mp h')
        have hset := Dict.set_of_notMem (hnew r List.mem_cons_self)
          (.int ((s i).rule r).toNat : Json)
        rw [if_neg (by omega), if_pos (by omega), if_neg hzero, hset, ih hrules hnodup,
          List.append_assoc]
        · rfl
        · intro r' h'
          rw [Dict.keys_append, List.mem_append, not_or]
          refine ⟨hnew r' (List.mem_cons_of_mem r h'), ?_⟩
          intro hmem
          have heq := toString_injective (List.mem_singleton.mp hmem)
          exact hnotMem (heq ▸ h')

/-- The keys are read into the dictionary of their values. -/
theorem readKeys_entries {read : PyStr → Dict PyStr Json → Answer} {entries : List (PyStr × Json)}
    (h : ∀ e ∈ entries, ∀ d, read e.1 d = .ok (.ok, d.set e.1 e.2)) (d : Dict PyStr Json) :
    readKeys read (Dict.keys entries) d
      = .ok (.ok, entries.foldl (fun d e => d.set e.1 e.2) d) := by
  induction entries generalizing d with
  | nil => rfl
  | cons e entries ih =>
      rw [Dict.keys_cons, readKeys, h e List.mem_cons_self]
      exact ih (fun e' he' => h e' (List.mem_cons_of_mem _ he')) _

theorem nodup_interfaceConfigKeys : interfaceConfigKeys.Nodup := by
  simp [interfaceConfigKeys, py_inj]

theorem readIngress_eq {i : Nat} (h : InArray i) (s : Conf) :
    readKeys (getSingleInterfaceIngressConfig s i) ingressConfigKeys []
      = .ok (.ok, ingressDoc (s i)) := by
  have hrules : readRules s i (List.range' 1 getMaxRuleId) []
      = .ok (.ok, rulesDoc (s i) (List.range' 1 getMaxRuleId)) := by
    apply readRules_eq h s
    · intro r hr
      have hmem := List.mem_range'_1.mp hr
      have hmax : getMaxRuleId = 2048 := rfl
      have hall : MAX_ACL_RULE_COUNT = 4096 := rfl
      omega
    · exact List.nodup_range'
    · intro r _ hmem
      cases hmem
  simp [ingressConfigKeys, readKeys, getSingleInterfaceIngressConfig, py_inj, ingressDoc,
    getIngressAclRuleGroup, getIngressDefaultActionId, getNumber_eq h, answer_ok, hrules, Dict.set]

theorem readIpReass_eq (s : Conf) (i : Nat) :
    readKeys (getSingleInterfaceIpReassConfig s i) ipReassConfigKeys []
      = .ok (.ok, ipReassDoc (s i)) := by
  simp [ipReassConfigKeys, readKeys, getSingleInterfaceIpReassConfig, py_inj, ipReassDoc,
    ipReassGetMaxLayer, ipReassGetReassOutput, answer_ok, Dict.set]

/-- The alias as a text, if it is one. -/
def Alias.toString? (a : Alias) : Option String := String.fromUTF8? ⟨a.text.toArray⟩

/-- What is relied on of the functions of the C library that are parameters: `inet_pton` reads
what `inet_ntop` and `sprintf` write, and `inet_ntop` has room enough. -/
structure Reads (env : Env) : Prop where
  text : Acl.AddressText env.rest.acl env.inetNtop
  dotted : ∀ a : Fin 4 → UInt8, env.rest.acl.inetPton false (dottedText a) = some (List.ofFn a)
  size : ∀ a : Fin 16 → UInt8, (env.inetNtop true (List.ofFn a)).utf8ByteSize < 40

section Read

variable {s : Conf} {i : Nat}

theorem getIpv4_eq (h : InArray i) (s : Conf) (f : Interface → Fin 4 → UInt8) :
    getIpv4 s i f = (0, dottedText (f (s i))) := by
  rw [getIpv4, getAt_eq h]

theorem getIpv6_eq (reads : Reads env) (h : InArray i) (s : Conf)
    (f : Interface → Fin 16 → UInt8) :
    getIpv6 env s i f = (0, env.inetNtop true (List.ofFn (f (s i)))) := by
  rw [getIpv6, getAt_eq h]
  exact if_pos (reads.size _)

theorem readAlias_eq (h : InArray i) (d : Dict PyStr Json) :
    getSingleInterfaceConfig env s i (py "alias") d =
      match (s i).aliasName.toString? with
      | some name => .ok (.ok, d.set (py "alias") (.str (py name)))
      | none => .error .unicodeDecodeError := by
  simp only [getSingleInterfaceConfig, py_inj, getInterfaceAliasName, getAt_eq h, decodeUtf8,
    Alias.toString?]
  cases String.fromUTF8? ⟨(s i).aliasName.text.toArray⟩ <;> simp <;> rfl

theorem readType_eq (h : InArray i)
    {type : String} (htype : typeName (s i).interfaceType = some type)
    (d : Dict PyStr Json) :
    getSingleInterfaceConfig env s i (py "interface_type") d
      = .ok (.ok, d.set (py "interface_type") (.str (py type))) := by
  simp only [getSingleInterfaceConfig, py_inj, getInterfaceInterfaceType, getNumber_eq h]
  generalize (s i).interfaceType = t at htype
  unfold typeName at htype
  split at htype
  next ht => cases htype; subst ht; simp
  split at htype
  next ht => cases htype; subst ht; simp
  split at htype
  next ht => cases htype; subst ht; simp
  split at htype
  next ht => cases htype; subst ht; simp
  split at htype
  next ht => cases htype; subst ht; simp
  next => cases htype

theorem readPart_eq (reads : Reads env) (h : InArray i) {name type : String}
    (hname : (s i).aliasName.toString? = some name)
    (htype : typeName (s i).interfaceType = some type) :
    ∀ e ∈ interfaceDoc env i (s i) name type, ∀ d,
      getSingleInterfaceConfig env s i e.1 d = .ok (.ok, d.set e.1 e.2) := by
  simp only [interfaceDoc, List.forall_mem_cons]
  refine ⟨?_, ?_, ?_, ?_, ?_, ?_, ?_, ?_, ?_, ?_, ?_, ?_, ?_⟩
  · intro d
    simp only [getSingleInterfaceConfig, if_true, getInterfaceAdminStatus, getNumber_eq h,
      answer_ok]
  · intro d
    simp [getSingleInterfaceConfig, py_inj]
  · intro d
    rw [readAlias_eq h, hname]
  · exact readType_eq h htype
  · intro d
    simp [getSingleInterfaceConfig, py_inj, getInterfaceMacAddr, getAt_eq h, answer]
  · intro d
    simp [getSingleInterfaceConfig, py_inj, getInterfaceIpaddrMask, getNumber_eq h, answer_ok]
  · intro d
    simp [getSingleInterfaceConfig, py_inj, getInterfaceIpv4, getIpv4_eq h, answer]
  · intro d
    simp [getSingleInterfaceConfig, py_inj, getInterfaceIpv6, getIpv6_eq reads h, answer]
  · intro d
    simp [getSingleInterfaceConfig, py_inj, getInterfaceIpv4Gateway, getIpv4_eq h, answer]
  · intro d
    simp [getSingleInterfaceConfig, py_inj, getInterfaceIpv6Gateway, getIpv6_eq reads h, answer]
  · intro d
    simp [getSingleInterfaceConfig, py_inj, readIngress_eq h]
  · intro d
    simp [getSingleInterfaceConfig, py_inj, readIpReass_eq]
  · intro e he
    cases he

/-- An interface whose alias is a text is read completely. -/
theorem readInterface_eq (reads : Reads env) (h : InArray i) {name type : String}
    (hname : (s i).aliasName.toString? = some name)
    (htype : typeName (s i).interfaceType = some type) :
    readKeys (getSingleInterfaceConfig env s i) interfaceConfigKeys []
      = .ok (.ok, interfaceDoc env i (s i) name type) := by
  have hkeys : interfaceConfigKeys = Dict.keys (interfaceDoc env i (s i) name type) := rfl
  have hnodup : (Dict.keys (interfaceDoc env i (s i) name type)).Nodup := by
    rw [← hkeys]
    exact nodup_interfaceConfigKeys
  rw [hkeys, readKeys_entries (readPart_eq reads h hname htype)]
  exact congrArg _ (congrArg _ (Dict.ofEntries_of_nodup hnodup))

/-- An interface whose alias is no text is not read. -/
theorem readInterface_error (h : InArray i) (hname : (s i).aliasName.toString? = none) :
    readKeys (getSingleInterfaceConfig env s i) interfaceConfigKeys []
      = .error .unicodeDecodeError := by
  have hstatus : ∀ d, getSingleInterfaceConfig env s i (py "admin_status") d
      = .ok (.ok, d.set (py "admin_status") (.int (s i).adminStatus.toNat)) := by
    intro d
    simp only [getSingleInterfaceConfig, if_true, getInterfaceAdminStatus, getNumber_eq h,
      answer_ok]
  have hport : ∀ d, getSingleInterfaceConfig env s i (py "port_id") d
      = .ok (.ok, d.set (py "port_id") (.int i)) := by
    intro d
    simp [getSingleInterfaceConfig, py_inj]
  simp only [interfaceConfigKeys, List.map_cons, readKeys, hstatus, hport, readAlias_eq h, hname]

end Read

end Tapplet.Intf
