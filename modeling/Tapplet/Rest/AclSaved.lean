import Tapplet.Rest.AclStored
import Tapplet.Acl.Reload

/-!
# Saving and loading the rules

`AclConfTrans`: the mapped rules of all groups are written to files of at most 32 rules, and a
file is loaded with a PUT request. The files may be listed in any order, so what matters of
them is that together they hold every mapped rule once.

The directory has been cleared, and a file is read back as it was written.
-/

namespace Tapplet.Rest

open Acl Transition Fallible

section Model

def SYS_CONF_TRANS_SUCCESS : Int := 0
def SYS_CONF_TRANS_FAIL : Int := -1

def maxRulesCntPerFile : Nat := 32

/-- `rule_file_name_format.format(file_name_index)` -/
def ruleFileName (fileNameIndex : Nat) : String :=
  "acl_rules_" ++ toString fileNameIndex ++ ".json"

/-- `"group_{0}".format(group_id)` -/
def groupName (groupId : Nat) : PyStr := py ("group_" ++ toString groupId)

/-- The directory and the variables of `save_cfg`. -/
structure Saving where
  files : Dict String Json
  fileNameIndex : Nat
  preFileName : String
  tmpRuleDict : Dict PyStr Json

/-- The rules go to the file, which is written anew, and the next file gets its name. -/
def Saving.write (v : Saving) (groupId : Nat) : Saving :=
  let finalDict := Json.object [(groupName groupId, .object v.tmpRuleDict)]
  let fileNameIndex := v.fileNameIndex + 1
  { v with
    files := v.files.set v.preFileName finalDict
    fileNameIndex := fileNameIndex
    preFileName := ruleFileName fileNameIndex }

def Saving.clear (v : Saving) : Saving := { v with tmpRuleDict := [] }

def Saving.put (v : Saving) (rule : PyStr) (ruleDict : Json) : Saving :=
  { v with tmpRuleDict := v.tmpRuleDict.set rule ruleDict }

variable (inetNtop : Bool → List UInt8 → String)

/-- The loop of `save_cfg` over the rules of a group, with the rounds that are left. -/
def saveRules (s : Conf) (groupId : Nat) : Nat → Int → Saving → Option Saving
  | 0, retRuleId, v => if retRuleId ≠ 0 then none else some v
  | fuel + 1, retRuleId, v =>
      if retRuleId ≠ 0 then
        match getSingleAclConfig inetNtop s groupId retRuleId false with
        | .error _ =>
            saveRules s groupId fuel (aclSysConfFindNextRule s groupId retRuleId.toNat) v
        | .ok ruleDict =>
            let v := v.put (py (toString retRuleId)) (ruleDict.getD .null)
            let retRuleId := aclSysConfFindNextRule s groupId retRuleId.toNat
            saveRules s groupId fuel retRuleId
              (if v.tmpRuleDict.length ≥ maxRulesCntPerFile then (v.write groupId).clear else v)
      else some v

/-- The loop of `save_cfg` over the groups. -/
def saveGroups (s : Conf) (fuel : Nat) : List Nat → Saving → Option (Saving × Int)
  | [], v => some (v, SYS_CONF_TRANS_SUCCESS)
  | groupId :: groups, v =>
      let v := v.clear
      let retRuleId := aclSysConfFindNextRule s groupId 0
      if retRuleId = -1 then some (v, SYS_CONF_TRANS_FAIL)
      else
        match saveRules inetNtop s groupId fuel retRuleId v with
        | none => none
        | some v =>
            saveGroups s fuel groups (if v.tmpRuleDict.length > 0 then v.write groupId else v)

/-- `AclConfTrans.save_cfg`: the files and the value. -/
def saveCfg (fuel : Nat) (s : Conf) : Option (Dict String Json × Int) :=
  (saveGroups inetNtop s fuel (List.range' 1 MAX_RULE_GROUP_CNT)
    ⟨[], 1, ruleFileName 1, []⟩).map fun r => (r.1.files, r.2)

variable (env : Env)

/-- `try_json_file_input`: `null` stands for `None`, too. -/
def tryJsonFileInput (files : Dict String Json) (jsonFile : String) : Json :=
  (files.get? jsonFile).getD .null

/-- A group of the result is a dictionary. -/
def GroupResult.isRules : GroupResult → Bool
  | .rules _ => true
  | _ => false

/-- The loop of `load_cfg` over the files. What cannot be read is no dictionary, and a request
raises then. The log goes through the failed rules of each group. -/
def loadFiles (fuel : Nat) (files : Dict String Json) :
    List String → Conf → Bool → Option (Conf × Except Exc Bool)
  | [], s, errorHappened => some (s, .ok errorHappened)
  | rulefile :: fileNameList, s, errorHappened =>
      match updateAclConfig env fuel s (tryJsonFileInput files rulefile) false false with
      | none => none
      | some (s, .error e) => some (s, .error e)
      | some (s, .ok .unsupported) => some (s, .error .typeError)
      | some (s, .ok .ok) => loadFiles fuel files fileNameList s errorHappened
      | some (s, .ok (.badRequest d)) =>
          if d.all fun e => e.2.isRules then loadFiles fuel files fileNameList s true
          else some (s, .error .attributeError)

/-- `AclConfTrans.load_cfg`, for the directory listed as `file_name_list`. -/
def loadCfg (fuel : Nat) (files : Dict String Json) (fileNameList : List String) (s : Conf) :
    Option (Conf × Except Exc Int) :=
  (loadFiles env fuel files fileNameList s false).map fun r =>
    (r.1, r.2.map fun errorHappened =>
      if errorHappened then SYS_CONF_TRANS_FAIL else SYS_CONF_TRANS_SUCCESS)

end Model

/-! ## What is in the files -/

/-- The entry of a rule in a file. -/
def ruleEntry (r : Rule) : PyStr × Json :=
  (py (toString r.outerRuleId), ruleDoc (decide (r.cfg.isIpv6 ≠ 0)) r.cfg)

/-- The rules of one group that are written to one file. -/
structure Portion where
  groupId : Nat
  rules : List Rule

def Portion.doc (c : Portion) : Json :=
  .object [(groupName c.groupId, .object (c.rules.map ruleEntry))]

/-- A mapped rule as it is read. -/
def readRule (inetNtop : Bool → List UInt8 → String) (s : Conf) (g o : Nat) : Rule :=
  let f := decide ((s.ruleMap g o).ruleType = .tuple6)
  ⟨g, o, textCfg inetNtop f ((s.tuple g f).ruleCfg (s.ruleMap g o).actualRuleId)⟩

/-- The rules of a group as they are read, first to last. -/
def groupRules (inetNtop : Bool → List UInt8 → String) (s : Conf) (g : Nat) : List Rule :=
  (mappedAfter s g 0).map (readRule inetNtop s g)

/-- The portions have been written to the files `1, 2, …`. -/
structure Written (v : Saving) (portions : List Portion) : Prop where
  files : v.files = (portions.zipIdx 1).map fun c => (ruleFileName c.2, c.1.doc)
  index : v.fileNameIndex = portions.length + 1
  name : v.preFileName = ruleFileName v.fileNameIndex

variable {env : Env} {s t : Conf} {g o a : Nat} {f : Bool} {fuel : Nat} {v : Saving}
variable {inetNtop : Bool → List UInt8 → String} {portions : List Portion} {rules : List Rule}

theorem ruleFileName_injective {i j : Nat} (h : ruleFileName i = ruleFileName j) : i = j := by
  have h := congrArg py h
  rw [ruleFileName, ruleFileName, py_append, py_append, py_append, py_append] at h
  exact toString_injective (List.append_cancel_left (List.append_cancel_right h))

theorem Written.keys (h : Written v portions) :
    Dict.keys v.files = (List.range' 1 portions.length).map ruleFileName := by
  rw [h.files, Dict.keys, List.map_map, ← List.zipIdx_map_snd, List.map_map]
  rfl

theorem Written.nodup (h : Written v portions) : (Dict.keys v.files).Nodup := by
  rw [h.keys]
  exact List.Nodup.map (fun _ _ => ruleFileName_injective) List.nodup_range'

theorem Written.write (h : Written v portions) (hrules : v.tmpRuleDict = rules.map ruleEntry) :
    Written (v.write g) (portions ++ [⟨g, rules⟩]) := by
  have hnew : v.preFileName ∉ Dict.keys v.files := by
    rw [h.keys, h.name, h.index]
    intro hmem
    obtain ⟨i, hi, hname⟩ := List.mem_map.mp hmem
    have hlt := (List.mem_range'_1.mp hi).2
    have heq := ruleFileName_injective hname
    omega
  constructor
  · show v.files.set _ _ = _
    rw [Dict.set_of_notMem hnew, hrules, List.zipIdx_append, List.map_append, ← h.files, h.name,
      h.index, Nat.add_comm]
    rfl
  · show v.fileNameIndex + 1 = _
    rw [h.index, List.length_append]
    rfl
  · rfl

theorem Written.clear (h : Written v portions) : Written v.clear portions :=
  ⟨h.files, h.index, h.name⟩

/-! ## Saving -/

theorem readRule_mapped (hmap : s.ruleMap g o = ⟨.ofFamily f, a⟩) :
    readRule inetNtop s g o = ⟨g, o, textCfg inetNtop f ((s.tuple g f).ruleCfg a)⟩ := by
  have hfamily : decide (RuleType.ofFamily f = .tuple6) = f := by cases f <;> rfl
  rw [readRule, hmap, hfamily]

/-- A mapped rule is read. -/
theorem getSingleAclConfig_readRule (inv : MapInv s)
    (hmap : (s.ruleMap g o).ruleType ≠ .none) :
    getSingleAclConfig inetNtop s g o false =
      .ok (some (ruleEntry (readRule inetNtop s g o)).2) := by
  obtain hnone | ⟨f, a, hmap⟩ := inv.ruleMapOk.cases g o
  · rw [hnone] at hmap
    exact absurd rfl hmap
  · rw [getSingleAclConfig_mapped inetNtop inv hmap, ruleEntry, readRule_mapped hmap,
      textCfg_family]

theorem key_new {o : Nat} {rules : List Rule}
    (h : o ∉ rules.map Rule.outerRuleId) :
    py (toString o) ∉ Dict.keys (rules.map ruleEntry) := by
  intro hmem
  rw [Dict.keys, List.map_map] at hmem
  obtain ⟨r, hr, heq⟩ := List.mem_map.mp hmem
  exact h (List.mem_map.mpr ⟨r, hr, toString_injective heq⟩)

/-- The loop writes the mapped rules behind `o`, in order, in portions, and keeps the rest. -/
theorem saveRules_eq (inetNtop : Bool → List UInt8 → String) (inv : MapInv s)
    (hg : ¬((g : Int) ≤ 0 ∨ (g : Int) > MAX_RULE_GROUP_CNT))
    {ids : List Nat} (hids : mappedAfter s g o = ids) (hfuel : ids.length ≤ fuel)
    (h : Written v portions) (hrules : v.tmpRuleDict = rules.map ruleEntry)
    (hdistinct : (rules.map Rule.outerRuleId ++ ids).Nodup) :
    ∃ v' more rest, saveRules inetNtop s g fuel (aclSysConfFindNextRule s g o) v = some v' ∧
      Written v' (portions ++ more) ∧ v'.tmpRuleDict = rest.map ruleEntry ∧
      more.flatMap Portion.rules ++ rest = rules ++ ids.map (readRule inetNtop s g) ∧
      ∀ c ∈ more, c.groupId = g := by
  rw [aclSysConfFindNextRule_eq hg, hids]
  induction ids generalizing fuel v portions rules o with
  | nil =>
      refine ⟨v, [], rules, ?_, by rwa [List.append_nil], hrules, ?_, by simp⟩
      · cases fuel <;> rfl
      · simp
  | cons o' ids ih =>
      obtain ⟨hne, hrest⟩ := mappedAfter_tail hids
      have hmem : o' ∈ mappedAfter s g o := by
        rw [hids]
        exact List.mem_cons_self
      have hmap := of_decide_eq_true (List.mem_filter.mp hmem).2
      have hnew : o' ∉ rules.map Rule.outerRuleId := fun hin =>
        (List.nodup_append.mp hdistinct).2.2 _ hin _ List.mem_cons_self rfl
      cases fuel with
      | zero => exact absurd hfuel (Nat.not_succ_le_zero _)
      | succ fuel =>
          obtain ⟨r, hr⟩ : ∃ r, r = readRule inetNtop s g o' := ⟨_, rfl⟩
          obtain ⟨v₁, hv₁⟩ : ∃ v₁, v₁ = v.put (py (toString (o' : Int))) (ruleEntry r).2 :=
            ⟨_, rfl⟩
          have htmp : v₁.tmpRuleDict = (rules ++ [r]).map ruleEntry := by
            rw [hv₁, List.map_append, ← hrules]
            show v.tmpRuleDict.set (py (toString o')) _ = _
            rw [Dict.set_of_notMem (hrules ▸ key_new hnew), hr]
            rfl
          have hwritten : Written v₁ portions := by
            rw [hv₁]
            exact ⟨h.files, h.index, h.name⟩
          have hround : saveRules inetNtop s g (fuel + 1) ((o' :: ids).headD 0 : Nat) v =
              saveRules inetNtop s g fuel ((ids.headD 0 : Nat) : Int)
                (if v₁.tmpRuleDict.length ≥ maxRulesCntPerFile then (v₁.write g).clear
                  else v₁) := by
            have hpos : ((o' : Nat) : Int) ≠ 0 := by omega
            rw [List.headD_cons, saveRules, if_pos hpos, getSingleAclConfig_readRule inv hmap,
              Int.toNat_natCast, aclSysConfFindNextRule_eq hg, hrest, ← hr]
            simp only [Option.getD_some, ← hv₁]
          rw [hround]
          have hids' : (rules.map Rule.outerRuleId ++ [o'] ++ ids).Nodup := by
            rwa [List.append_assoc]
          have hread : r.outerRuleId = o' := by
            rw [hr]
            rfl
          split
          · -- the file is full: the dictionary is cleared after it has been written
            have hnil : (v₁.write g).clear.tmpRuleDict = ([] : List Rule).map ruleEntry := rfl
            obtain ⟨v', more, rest, hsave, hfiles, hkeep, hall, hgroup⟩ :=
              ih hrest (Nat.le_of_succ_le_succ hfuel) (hwritten.write htmp).clear hnil
                (List.Nodup.of_append_right hids')
            refine ⟨v', ⟨g, rules ++ [r]⟩ :: more, rest, hsave, ?_, hkeep, ?_, ?_⟩
            · rwa [List.append_assoc] at hfiles
            · rw [List.flatMap_cons, List.append_assoc, hall, List.map_cons, ← hr,
                List.nil_append, List.append_assoc, List.singleton_append]
            · rintro c (_ | ⟨_, hc⟩)
              · rfl
              · exact hgroup c hc
          · obtain ⟨v', more, rest, hsave, hfiles, hkeep, hall, hgroup⟩ :=
              ih hrest (Nat.le_of_succ_le_succ hfuel) hwritten htmp (by
                rwa [List.map_append, List.map_singleton, hread])
            refine ⟨v', more, rest, hsave, hfiles, hkeep, ?_, hgroup⟩
            rw [hall, List.map_cons, ← hr, List.append_assoc, List.singleton_append]

theorem mappedAfter_nodup (s : Conf) (g o : Nat) : (mappedAfter s g o).Nodup :=
  List.Nodup.filter _ List.nodup_range'

theorem length_mappedAfter_le (s : Conf) (g : Nat) :
    (mappedAfter s g 0).length ≤ MAX_RULE_PER_GROUP :=
  (List.length_filter_le _ _).trans (List.length_range' ..).le

/-- The groups are written one after the other. -/
theorem saveGroups_eq (inv : MapInv s) (hfuel : MAX_RULE_PER_GROUP ≤ fuel) {groups : List Nat}
    (hgroups : ∀ g ∈ groups, 1 ≤ g ∧ g ≤ MAX_RULE_GROUP_CNT) (h : Written v portions) :
    ∃ v' more, saveGroups inetNtop s fuel groups v = some (v', SYS_CONF_TRANS_SUCCESS) ∧
      Written v' (portions ++ more) ∧
      more.flatMap Portion.rules = groups.flatMap (groupRules inetNtop s) ∧
      ∀ c ∈ more, c.groupId ∈ groups ∧ ∀ r ∈ c.rules, r.groupId = c.groupId := by
  induction groups generalizing v portions with
  | nil => exact ⟨v, [], rfl, by rwa [List.append_nil], rfl, by simp⟩
  | cons g groups ih =>
      have hid := hgroups g List.mem_cons_self
      have hg : ¬((g : Int) ≤ 0 ∨ (g : Int) > MAX_RULE_GROUP_CNT) := by omega
      have hnil : v.clear.tmpRuleDict = ([] : List Rule).map ruleEntry := rfl
      obtain ⟨v₁, more, rest, hsave, hwritten, htmp, hall, hgroup⟩ :=
        saveRules_eq inetNtop inv hg rfl ((length_mappedAfter_le s g).trans hfuel) h.clear hnil
          (mappedAfter_nodup s g 0)
      rw [List.nil_append] at hall
      have hown : ∀ c ∈ more ++ [⟨g, rest⟩], c.groupId ∈ g :: groups ∧
          ∀ r ∈ c.rules, r.groupId = c.groupId := by
        intro c hc
        have hcg : c.groupId = g := by
          obtain hc | hc := List.mem_append.mp hc
          · exact hgroup c hc
          · rw [List.mem_singleton.mp hc]
        refine ⟨hcg ▸ List.mem_cons_self, fun r hr => ?_⟩
        have hmem : r ∈ more.flatMap Portion.rules ++ rest := by
          have hflat : r ∈ (more ++ [Portion.mk g rest]).flatMap Portion.rules :=
            List.mem_flatMap.mpr ⟨c, hc, hr⟩
          simpa using hflat
        rw [hall] at hmem
        obtain ⟨o, -, rfl⟩ := List.mem_map.mp hmem
        exact hcg.symm
      -- the rest is written when there is one
      obtain ⟨v₂, all, hlast, hwritten, hrules, hsub⟩ : ∃ v₂ all,
          v₂ = (if v₁.tmpRuleDict.length > 0 then v₁.write g else v₁) ∧
          Written v₂ (portions ++ all) ∧ all.flatMap Portion.rules = groupRules inetNtop s g ∧
          all ⊆ more ++ [Portion.mk g rest] := by
        refine ⟨_, if v₁.tmpRuleDict.length > 0 then more ++ [⟨g, rest⟩] else more, rfl, ?_⟩
        split
        next =>
          refine ⟨?_, ?_, List.Subset.refl _⟩
          · rw [← List.append_assoc]
            exact hwritten.write htmp
          · rw [List.flatMap_append, groupRules, ← hall]
            simp
        next hempty =>
          refine ⟨hwritten, ?_, List.subset_append_left _ _⟩
          have hnil : rest = [] := by
            rw [htmp, List.length_map] at hempty
            exact List.eq_nil_of_length_eq_zero (by omega)
          rw [groupRules, ← hall, hnil, List.append_nil]
      obtain ⟨v', more', hgroups', hwritten', hall', hown'⟩ :=
        ih (fun g' hg' => hgroups g' (List.mem_cons_of_mem _ hg')) hwritten
      refine ⟨v', all ++ more', ?_, ?_, ?_, fun c hc => ?_⟩
      · have hfound : aclSysConfFindNextRule s g 0 ≠ -1 := by
          rw [aclSysConfFindNextRule_eq hg]
          omega
        simp only [saveGroups, if_neg hfound, hsave]
        rw [← hlast]
        exact hgroups'
      · rwa [← List.append_assoc]
      · rw [List.flatMap_append, hrules, hall', List.flatMap_cons]
      · obtain hc | hc := List.mem_append.mp hc
        · exact hown c (hsub hc)
        · exact ⟨List.mem_cons_of_mem _ (hown' c hc).1, (hown' c hc).2⟩

/-! ## Loading a rule -/

theorem setField_of_ok {α : Type} {d : Dict PyStr Json} {key : String}
    {conv : Json → Except Exc α} {val : Json} {x : α} (hget : d.get? (py key) = some val)
    (hconv : conv val = .ok x) (set : RuleCfg → α → RuleCfg) (c : RuleCfg) :
    setField d key conv set c = .ok (set c x) := by
  simp only [setField, hget, hconv]
  rfl

/-- A number of the width of its field is assigned as it is. -/
theorem cUint_toNat {w : Nat} (x : BitVec w) : cUint w (.int x.toNat) = .ok x := by
  rw [cUint, BitVec.ofInt_natCast, BitVec.ofNat_toNat, BitVec.setWidth_eq]

theorem cChars_py {str : String} (hsize : str.utf8ByteSize < maxIpStrLen)
    (hnul : '\x00' ∉ str.toList) : cChars (.str (py str)) = .ok str := by
  show (utf8 (py str) >>= _) = _
  rw [utf8_py]
  show (if maxIpStrLen < (cString str).utf8ByteSize then _ else Except.ok (cString str)) = _
  rw [cString_of_noNul hnul, if_neg (by omega)]

/-- The dictionary of a configuration is converted back. -/
theorem transDictToTupleRuleCfg_text (text : AddressText env.acl inetNtop) {c : TupleRuleCfg}
    (hsip : c.sip.length = if f then 16 else 4) (hdip : c.dip.length = if f then 16 else 4) :
    transDictToTupleRuleCfg env (transTupleCfgToDict (textCfg inetNtop f c)) =
      .ok (textCfg inetNtop f c) := by
  have hchars {bytes : List UInt8} (hlen : bytes.length = if f then 16 else 4) :
      cChars (.str (py (inetNtop f bytes))) = .ok (inetNtop f bytes) :=
    cChars_py (text.size f bytes hlen) (text.noNul f bytes hlen)
  rw [transDictToTupleRuleCfg]
  refine (bind_of_ok (setField_of_ok rfl (cUint_toNat c.sportMin.toBitVec) _ _) _).trans ?_
  refine (bind_of_ok (setField_of_ok rfl (cUint_toNat c.sportMax.toBitVec) _ _) _).trans ?_
  refine (bind_of_ok (setField_of_ok rfl (cUint_toNat c.dportMin.toBitVec) _ _) _).trans ?_
  refine (bind_of_ok (setField_of_ok rfl (cUint_toNat c.dportMax.toBitVec) _ _) _).trans ?_
  refine (bind_of_ok (setField_of_ok rfl (cUint_toNat c.protoMin.toBitVec) _ _) _).trans ?_
  refine (bind_of_ok (setField_of_ok rfl (cUint_toNat c.protoMax.toBitVec) _ _) _).trans ?_
  refine (bind_of_ok (setField_of_ok rfl (cUint_toNat c.sipMask.toBitVec) _ _) _).trans ?_
  refine (bind_of_ok (setField_of_ok rfl (cUint_toNat c.dipMask.toBitVec) _ _) _).trans ?_
  refine (bind_of_ok (setField_of_ok rfl (hchars hsip) _ _) _).trans ?_
  refine (bind_of_ok (checkIpString_ntop text hsip) _).trans ?_
  refine (bind_of_ok (setField_of_ok rfl (hchars hdip) _ _) _).trans ?_
  refine (bind_of_ok (checkIpString_ntop text hsip) _).trans ?_
  have hversion : UInt8.ofInt (if f then 1 else 0) = if f then 1 else 0 := by cases f <;> rfl
  have hflag (key : String) (h : key = "sip" ∨ key = "dip") :
      ((transTupleCfgToDict (textCfg inetNtop f c)).get? (py key)).isSome = true := by
    obtain rfl | rfl := h <;> rfl
  simp only [hflag "sip" (.inl rfl), hflag "dip" (.inr rfl), and_self, if_true, ne_eq,
    not_true_eq_false, if_false, hversion]
  rfl

/-- What is read of a rule is accepted. -/
theorem tupleRequest_text (text : AddressText env.acl inetNtop) {c : TupleRuleCfg}
    (h : Passed env.acl f c) :
    tupleRequest env (.object (transTupleCfgToDict (textCfg inetNtop f c)))
      (if f then 1 else 0) = .ok (some (textCfg inetNtop f c)) := by
  have hfits := h.fits text.length
  have htrans := transDictToTupleRuleCfg_text text hfits.sip hfits.dip
  obtain ⟨hcheck, -⟩ := h.textCfg text
  have hkeys : Dict.keys (transTupleCfgToDict (textCfg inetNtop f c)) =
      ["sport_min", "sport_max", "dport_min", "dport_max", "proto_min", "proto_max", "sip_mask",
        "dip_mask", "sip", "dip"].map py := rfl
  have hdict : Json.dict (.object (transTupleCfgToDict (textCfg inetNtop f c))) =
      .ok (transTupleCfgToDict (textCfg inetNtop f c)) := by
    rw [Json.dict, Dict.ofEntries_of_nodup]
    rw [hkeys]
    decide
  have haccepted : checkTupleRuleConfig env (.object (transTupleCfgToDict (textCfg inetNtop f c)))
      (if f then 1 else 0) = .ok true := by
    rw [checkTupleRuleConfig]
    refine (bind_of_ok hdict _).trans ?_
    rw [hkeys, if_neg (by decide), if_neg (by decide)]
    refine (bind_of_ok htrans _).trans ?_
    congr 1
    exact decide_eq_true ⟨rfl, hcheck⟩
  rw [tupleRequest]
  refine (bind_of_ok haccepted _).trans ?_
  refine (bind_of_ok hdict _).trans ?_
  refine (bind_of_ok htrans _).trans ?_
  rfl

/-- What `update_single_acl_config` makes of the number of a rule type. -/
theorem familyChoice_eq {β : Type} (f : Bool) (update : UInt8 → β) (x : β) :
    (if Sum.inl (if f then 2 else 1) = (Sum.inl 1 : Nat ⊕ String) then update 0
      else if Sum.inl (if f then 2 else 1) = (Sum.inl 2 : Nat ⊕ String) then update 1 else x) =
      update (if f then 1 else 0) := by
  cases f <;> rfl

/-- The entry of a rule that can be created is loaded. -/
theorem updateRule_entry (digits : TakesDigits env.python) (text : AddressText env.acl inetNtop)
    {c : TupleRuleCfg} (h : Passed env.acl f c) (hid : ValidIds g o) {u : Conf}
    (hcall : tupleTryMapNewRule env.acl fuel t g o (textCfg inetNtop f c) false = some (u, 0)) :
    updateRule env fuel t g (ruleEntry ⟨g, o, textCfg inetNtop f c⟩).1
      (ruleEntry ⟨g, o, textCfg inetNtop f c⟩).2 false = some (u, .ok none) := by
  have hle := hid.outer_le
  have hpos := hid.outer_pos
  have hmax : MAX_RULE_PER_GROUP < 10 ^ 10 := by decide
  have hint : int env.python (py (toString o)) = .ok o := int_toString _ digits (by omega)
  have hrange : ¬(o = 0 ∨ o > MAX_RULE_PER_GROUP) := by omega
  have hdec : ¬isdecimal env.python (py (toString o)) = false := by
    rw [isdecimal_toString]
    decide
  have hupdate : updateSingleTupleConfig env fuel t g o
      (.object (transTupleCfgToDict (textCfg inetNtop f c))) (if f then 1 else 0) false =
      some (u, .ok none) := by
    rw [updateSingleTupleConfig, tupleRequest_text text h]
    show (tupleTryMapNewRule env.acl fuel t g o (textCfg inetNtop f c) false).map _ = _
    rw [hcall]
    rfl
  have hmembers (x y : Json) : Dict.ofEntries [(py "rule_type", x), (py "rule_cfg", y)] =
      [(py "rule_type", x), (py "rule_cfg", y)] := by
    apply Dict.ofEntries_of_nodup
    show [py "rule_type", py "rule_cfg"].Nodup
    decide
  have htype (x y : Json) :
      Dict.get? [(py "rule_type", x), (py "rule_cfg", y)] (py "rule_type") = some x := rfl
  have hcfg (x y : Json) :
      Dict.get? [(py "rule_type", x), (py "rule_cfg", y)] (py "rule_cfg") = some y := rfl
  have hname : ruleTypeMap (.str (py (ruleTypeName (if f then 2 else 1)))) =
      .ok (some (.inl (if f then 2 else 1))) := by cases f <;> rfl
  simp only [ruleEntry, textCfg_family]
  simp only [updateRule, if_neg hdec, hint, if_neg hrange, ruleDoc, hmembers, htype, hcfg, hname]
  exact (familyChoice_eq f (fun isIpv6 => updateSingleTupleConfig env fuel t g o
    (.object (transTupleCfgToDict (textCfg inetNtop f c))) isIpv6 false) _).trans hupdate

/-- The rules of a file are loaded, and no failure is recorded. -/
theorem updateRules_entries (digits : TakesDigits env.python)
    (text : AddressText env.acl inetNtop) (inv : MapInv s) (stored : ∀ g, Stored env.acl s g)
    (hdistinct : s.Distinct) (hfuel : ∀ f, tupleBitmapGetTotalCnt f ≤ fuel) {flag times : Int}
    {more : List Rule} (h : Reloading env.acl flag times t rules)
    (hread : ∀ r ∈ rules ++ more, ReadFrom inetNtop s r) (hgroup : ∀ r ∈ more, r.groupId = g)
    (hnew : ((rules ++ more).map fun r => (r.groupId, r.outerRuleId)).Nodup)
    {d : Dict PyStr RuleResult} (hd : d.get? (py "has_fail") = some (.flag false)) :
    ∃ u d', updateRules env fuel g false false (more.map ruleEntry) t d = some (u, .ok d') ∧
      Reloading env.acl flag times u (rules ++ more) ∧
      d'.get? (py "has_fail") = some (.flag false) := by
  induction more generalizing t rules d with
  | nil => exact ⟨t, d, rfl, by rwa [List.append_nil], hd⟩
  | cons r more ih =>
      obtain rfl := hgroup r List.mem_cons_self
      have hreadr := hread r (List.mem_append_right _ List.mem_cons_self)
      have hother : ∀ r' ∈ rules,
          ¬(r'.groupId = r.groupId ∧ r'.outerRuleId = r.outerRuleId) := by
        intro r' hr' hsame
        rw [List.map_append, List.nodup_append] at hnew
        exact hnew.2.2 _ (List.mem_map_of_mem hr') _ (List.mem_map_of_mem List.mem_cons_self)
          (Prod.ext hsame.1 hsame.2)
      obtain ⟨u, hcall, hu⟩ := h.create text stored inv hdistinct
        (fun r' hr' => hread r' (List.mem_append_left _ hr')) hreadr hother hfuel
      have hentry : updateRule env fuel t r.groupId (ruleEntry r).1 (ruleEntry r).2 false =
          some (u, .ok none) := by
        obtain ⟨f, a, hmap, hcfg⟩ := hreadr
        obtain ⟨groupId, outerRuleId, cfg⟩ := r
        simp only at hcfg
        subst hcfg
        exact updateRule_entry digits text ((stored _).passed _ _ _ hmap)
          (inv.forward _ _ _ _ hmap).1 hcall
      have hkey : (ruleEntry r).1 ≠ py "has_fail" := by
        intro heq
        have hdec := isdecimal_toString env.python r.outerRuleId
        rw [show py (toString r.outerRuleId) = py "has_fail" from heq, isdecimal_hasFail] at hdec
        cases hdec
      have happend : rules ++ r :: more = rules ++ [r] ++ more := by
        rw [List.append_assoc, List.singleton_append]
      rw [happend] at hread hnew ⊢
      obtain ⟨u', d', hrest, hu', hd'⟩ :=
        ih hu hread (fun r' hr' => hgroup r' (List.mem_cons_of_mem _ hr')) hnew
          (d := d.set (ruleEntry r).1 .none) ((Dict.get?_set_of_ne hkey d _).trans hd)
      refine ⟨u', d', ?_, hu', hd'⟩
      rw [List.map_cons, updateRules]
      simp only [hentry]
      exact hrest

/-- The name of a group denotes it. -/
theorem decodeGroupId_groupName (digits : TakesDigits env.python) (hg : g < 10 ^ 10) :
    decodeGroupId env (groupName g) = .ok (some g) := by
  have htake : (py (toString g)).takeWhile (fun c => (env.python.decimal c).isSome) =
      py (toString g) := by
    rw [List.takeWhile_eq_self_iff]
    exact fun c hc => decimal_toString env.python hc
  have hpre : (py "group_").isPrefixOf (py "group_" ++ py (toString g)) = true :=
    List.isPrefixOf_iff_prefix.mpr (List.prefix_append _ _)
  have hfind : findGroup env.python (groupName g) = some (py (toString g)) := by
    rw [groupName, py_append]
    show findGroup env.python (103 :: ([114, 111, 117, 112, 95] ++ py (toString g))) = _
    rw [findGroup]
    show (if (py "group_").isPrefixOf (py "group_" ++ py (toString g)) ∧
      (py (toString g)).takeWhile (fun c => (env.python.decimal c).isSome) ≠ [] then
        some ((py (toString g)).takeWhile fun c => (env.python.decimal c).isSome) else _) = _
    rw [htake, if_pos ⟨hpre, py_toString_ne_nil g⟩]
  rw [decodeGroupId, hfind]
  show (int env.python (py (toString g))).map some = _
  rw [int_toString _ digits hg]
  rfl

theorem groupName_ne_hasFail (g : Nat) : groupName g ≠ py "has_fail" := by
  intro h
  have hhead := congrArg (List.headD · 0) h
  rw [groupName, py_append] at hhead
  exact absurd hhead (show (103 : Nat) ≠ 104 by decide)

/-! ## Loading a file -/

section Load

variable {flag times : Int} {c : Portion}

/-- A portion is loaded with success. -/
theorem updateAclConfig_doc (digits : TakesDigits env.python)
    (text : AddressText env.acl inetNtop) (inv : MapInv s) (stored : ∀ g, Stored env.acl s g)
    (hdistinct : s.Distinct) (hfuel : ∀ f, tupleBitmapGetTotalCnt f ≤ fuel)
    (h : Reloading env.acl flag times t rules)
    (hread : ∀ r ∈ rules ++ c.rules, ReadFrom inetNtop s r)
    (hid : 1 ≤ c.groupId ∧ c.groupId ≤ MAX_RULE_GROUP_CNT)
    (hgroup : ∀ r ∈ c.rules, r.groupId = c.groupId)
    (hnew : ((rules ++ c.rules).map fun r => (r.groupId, r.outerRuleId)).Nodup) :
    ∃ u, updateAclConfig env fuel t c.doc false false = some (u, .ok .ok) ∧
      Reloading env.acl flag times u (rules ++ c.rules) := by
  have hkeys : (Dict.keys (c.rules.map ruleEntry)).Nodup := by
    rw [Dict.keys, List.map_map]
    rw [List.map_append, List.nodup_append] at hnew
    refine List.Nodup.map_on (fun r hr r' hr' heq => ?_) (List.Nodup.of_map _ hnew.2.1)
    have houter := toString_injective heq
    exact List.inj_on_of_nodup_map hnew.2.1 hr hr'
      (Prod.ext ((hgroup r hr).trans (hgroup r' hr').symm) houter)
  obtain ⟨u, d, hrules, hu, hd⟩ := updateRules_entries digits text inv stored hdistinct hfuel h
    hread hgroup hnew (d := [(py "has_fail", .flag false)]) rfl
  have hmax : MAX_RULE_GROUP_CNT < 10 ^ 10 := by decide
  have hindex : ¬checkGroupIndex c.groupId = true := by
    rw [checkGroupIndex, Bool.or_eq_true, decide_eq_true_eq, decide_eq_true_eq]
    omega
  have hsingle : updateSingleAclConfig env fuel t c.groupId (.object (c.rules.map ruleEntry))
      false false = some (u, .ok d) := by
    rw [updateSingleAclConfig, Json.dict, Dict.ofEntries_of_nodup hkeys]
    exact hrules
  have hfails : ¬fails d = true := by
    rw [fails, hd]
    decide
  have hgroups : updateGroups env fuel false false
      [(groupName c.groupId, .object (c.rules.map ruleEntry))] t
      [(py "has_fail", .flag false)] = some (u, .ok (Dict.set [(py "has_fail", .flag false)]
        (groupName c.groupId) (.rules d))) := by
    rw [updateGroups]
    simp only [decodeGroupId_groupName digits (hid.2.trans_lt hmax), if_neg hindex, hsingle,
      if_neg hfails]
    rfl
  have hnoFail : ¬hasFail (Dict.set [(py "has_fail", .flag false)] (groupName c.groupId)
      (.rules d)) = true := by
    rw [hasFail, Dict.get?_set_of_ne (groupName_ne_hasFail _)]
    exact Bool.false_ne_true
  refine ⟨u, ?_, hu⟩
  rw [updateAclConfig, if_neg (by simp)]
  show (updateGroups env fuel false false
      [(groupName c.groupId, .object (c.rules.map ruleEntry))] t
      [(py "has_fail", .flag false)]).map _ = _
  rw [hgroups]
  simp only [Option.map_some, if_neg hnoFail]

/-- All files are loaded with success, in any order. -/
theorem loadFiles_portions (digits : TakesDigits env.python)
    (text : AddressText env.acl inetNtop) (inv : MapInv s) (stored : ∀ g, Stored env.acl s g)
    (hdistinct : s.Distinct) (hfuel : ∀ f, tupleBitmapGetTotalCnt f ≤ fuel)
    {files : Dict String Json} {cs : List (Portion × Nat)}
    (hfiles : ∀ c ∈ cs, files.get? (ruleFileName c.2) = some c.1.doc)
    (h : Reloading env.acl flag times t rules)
    (hread : ∀ r ∈ rules ++ cs.flatMap (·.1.rules), ReadFrom inetNtop s r)
    (hown : ∀ c ∈ cs, (1 ≤ c.1.groupId ∧ c.1.groupId ≤ MAX_RULE_GROUP_CNT) ∧
      ∀ r ∈ c.1.rules, r.groupId = c.1.groupId)
    (hnew : ((rules ++ cs.flatMap (·.1.rules)).map fun r => (r.groupId, r.outerRuleId)).Nodup) :
    ∃ u, loadFiles env fuel files (cs.map fun c => ruleFileName c.2) t false =
        some (u, .ok false) ∧
      Reloading env.acl flag times u (rules ++ cs.flatMap (·.1.rules)) := by
  induction cs generalizing t rules with
  | nil => exact ⟨t, rfl, by simpa using h⟩
  | cons c cs ih =>
      rw [List.flatMap_cons, ← List.append_assoc] at hread hnew ⊢
      obtain ⟨hid, hgroup⟩ := hown c List.mem_cons_self
      obtain ⟨u, hupdate, hu⟩ := updateAclConfig_doc digits text inv stored hdistinct hfuel h
        (fun r hr => hread r (List.mem_append_left _ hr)) hid hgroup (by
          rw [List.map_append] at hnew
          exact List.Nodup.of_append_left hnew)
      obtain ⟨u', hload, hu'⟩ := ih (fun c' hc' => hfiles c' (List.mem_cons_of_mem _ hc')) hu hread
        (fun c' hc' => hown c' (List.mem_cons_of_mem _ hc')) hnew
      refine ⟨u', ?_, hu'⟩
      have hdoc : tryJsonFileInput files (ruleFileName c.2) = c.1.doc := by
        rw [tryJsonFileInput, hfiles c List.mem_cons_self]
        rfl
      rw [List.map_cons, loadFiles, hdoc, hupdate]
      exact hload

end Load

/-! ## Saving and loading -/

/-- The rules of all groups as they are read. -/
def allRules (inetNtop : Bool → List UInt8 → String) (s : Conf) : List Rule :=
  (List.range' 1 MAX_RULE_GROUP_CNT).flatMap (groupRules inetNtop s)

theorem readFrom_of_mem (inv : MapInv s) {r : Rule} (hr : r ∈ allRules inetNtop s) :
    ReadFrom inetNtop s r := by
  obtain ⟨g, -, hr⟩ := List.mem_flatMap.mp hr
  obtain ⟨o, ho, rfl⟩ := List.mem_map.mp hr
  have hmap := of_decide_eq_true (List.mem_filter.mp ho).2
  obtain hnone | ⟨f, a, hmapped⟩ := inv.ruleMapOk.cases g o
  · rw [hnone] at hmap
    exact absurd rfl hmap
  · rw [readRule_mapped hmapped]
    exact ⟨f, a, hmapped, rfl⟩

theorem exists_mem_allRules (inv : MapInv s) (hmap : s.ruleMap g o = ⟨.ofFamily f, a⟩) :
    ∃ r ∈ allRules inetNtop s, r.groupId = g ∧ r.outerRuleId = o := by
  obtain ⟨hid, -⟩ := inv.forward _ _ _ _ hmap
  refine ⟨readRule inetNtop s g o, ?_, rfl, rfl⟩
  apply List.mem_flatMap.mpr
  refine ⟨g, List.mem_range'_1.mpr ⟨hid.group_pos, ?_⟩, List.mem_map_of_mem ?_⟩
  · have := hid.group_le
    omega
  · apply List.mem_filter.mpr
    refine ⟨List.mem_range'_1.mpr ⟨by have := hid.outer_pos; omega, ?_⟩, ?_⟩
    · have := hid.outer_le
      omega
    · rw [hmap]
      exact decide_eq_true (ofFamily_ne_none f)

theorem allRules_nodup (inetNtop : Bool → List UInt8 → String) (s : Conf) :
    ((allRules inetNtop s).map fun r => (r.groupId, r.outerRuleId)).Nodup := by
  have hids (g : Nat) : (groupRules inetNtop s g).map (fun r => (r.groupId, r.outerRuleId)) =
      (mappedAfter s g 0).map fun o => (g, o) := by
    rw [groupRules, List.map_map]
    rfl
  rw [allRules, List.map_flatMap, List.nodup_flatMap]
  constructor
  · intro g _
    rw [hids]
    exact (mappedAfter_nodup s g 0).map fun _ _ h => congrArg Prod.snd h
  · refine List.Nodup.pairwise_of_forall_ne List.nodup_range' fun g _ g' _ hne => ?_
    intro x hx hx'
    simp only [hids] at hx hx'
    obtain ⟨o, -, rfl⟩ := List.mem_map.mp hx
    obtain ⟨o', -, heq⟩ := List.mem_map.mp hx'
    exact hne (congrArg Prod.fst heq).symm

/-- Saving and loading are inverse. In every store reached from the cleared one whose mapped
rules are distinct in each family, the rules are saved with success, and loading the files into
a cleared store, in any order, succeeds and gives the same rules and no others. -/
theorem save_load {flag times : Int} {es : List (Call × Int)} (digits : TakesDigits env.python)
    (text : AddressText env.acl inetNtop)
    (run : Run (Step env.acl) (Conf.empty flag times) es s) (hdistinct : s.Distinct) :
    ∃ fuel files, saveCfg inetNtop fuel s = some (files, SYS_CONF_TRANS_SUCCESS) ∧
      ∀ fileNameList flag' times', fileNameList.Perm (Dict.keys files) →
        ∃ t, loadCfg env fuel files fileNameList (Conf.empty flag' times') =
            some (t, .ok SYS_CONF_TRANS_SUCCESS) ∧ SameRules s t := by
  have inv := MapInv.of_run run
  have stored := Stored.of_run text.length run
  have hstart : Written ⟨[], 1, ruleFileName 1, []⟩ [] := ⟨rfl, rfl, rfl⟩
  have hids : ∀ g ∈ List.range' 1 MAX_RULE_GROUP_CNT, 1 ≤ g ∧ g ≤ MAX_RULE_GROUP_CNT := by
    intro g hg
    obtain ⟨hpos, hlt⟩ := List.mem_range'_1.mp hg
    omega
  obtain ⟨v, portions, hsave, hwritten, hall, hown⟩ :=
    saveGroups_eq inv (Nat.le_refl MAX_RULE_PER_GROUP) hids hstart
  rw [List.nil_append] at hwritten
  refine ⟨MAX_RULE_PER_GROUP, v.files, ?_, fun fileNameList flag' times' hperm => ?_⟩
  · rw [saveCfg, hsave]
    rfl
  -- the listing is a rearrangement of the portions
  have hkeys : Dict.keys v.files = (portions.zipIdx 1).map fun c => ruleFileName c.2 := by
    rw [hwritten.files, Dict.keys, List.map_map]
    rfl
  rw [hkeys] at hperm
  obtain ⟨cs, hcs, rfl⟩ := Dict.perm_map_inv hperm
  have hrules : (cs.flatMap (·.1.rules)).Perm (allRules inetNtop s) := by
    refine (hcs.flatMap_right _).trans (List.Perm.of_eq ?_)
    rw [allRules, ← hall, ← List.flatMap_map, List.zipIdx_map_fst]
  have hfiles : ∀ c ∈ cs, v.files.get? (ruleFileName c.2) = some c.1.doc := by
    intro c hc
    apply Dict.get?_of_mem hwritten.nodup
    rw [hwritten.files]
    exact List.mem_map_of_mem (hcs.subset hc)
  have hgroups : ∀ c ∈ cs, (1 ≤ c.1.groupId ∧ c.1.groupId ≤ MAX_RULE_GROUP_CNT) ∧
      ∀ r ∈ c.1.rules, r.groupId = c.1.groupId := by
    intro c hc
    have hmem : c.1 ∈ portions := by
      rw [← List.zipIdx_map_fst 1 portions]
      exact List.mem_map_of_mem (hcs.subset hc)
    exact ⟨hids _ (hown c.1 hmem).1, (hown c.1 hmem).2⟩
  have hfuel : ∀ f, tupleBitmapGetTotalCnt f ≤ MAX_RULE_PER_GROUP := by
    intro f
    cases f <;> decide
  have hempty : Reloading env.acl flag' times' (Conf.empty flag' times') [] := .empty
  obtain ⟨t, hload, ht⟩ := loadFiles_portions digits text inv stored hdistinct hfuel hfiles hempty
    (fun r hr => readFrom_of_mem inv (hrules.subset hr)) hgroups
    ((hrules.map _).nodup_iff.mpr (allRules_nodup inetNtop s))
  rw [List.nil_append] at ht
  refine ⟨t, ?_, ?_⟩
  · rw [loadCfg, hload]
    rfl
  · refine ht.sameRules text inv stored (fun r hr => readFrom_of_mem inv (hrules.subset hr)) ?_
    intro g o f a hmap
    obtain ⟨r, hr, hsame⟩ := exists_mem_allRules inv hmap
    exact ⟨r, hrules.symm.subset hr, hsame⟩

/-- Forty rules that differ in a port are saved to two files, which are loaded in the other
order. -/
theorem save_load_hosts :
    ∃ s fuel files,
      Run (Step hostsEnv.acl) (Conf.empty 0 0) ((portRules 40).map Rule.call) s ∧ s.Distinct ∧
      saveCfg Acl.inetNtop fuel s = some (files, SYS_CONF_TRANS_SUCCESS) ∧
      ∃ t, loadCfg hostsEnv fuel files (Dict.keys files).reverse (Conf.empty 0 0) =
        some (t, .ok SYS_CONF_TRANS_SUCCESS) ∧ SameRules s t := by
  obtain ⟨s, hrun, hext, -⟩ := @portRules_run hostsEnv.acl (by decide +kernel) 40 (by decide)
  have hdistinct : s.Distinct := by
    intro g f o o' a a' hmap hmap' hcfg
    obtain ⟨r, hr, rfl, rfl⟩ := hext.mem_of_mapped hmap
    obtain ⟨r', hr', hg, rfl⟩ := hext.mem_of_mapped hmap'
    obtain ⟨i, hi, rfl⟩ := List.mem_map.mp hr
    obtain ⟨j, hj, rfl⟩ := List.mem_map.mp hr'
    have hi := List.mem_range.mp hi
    have hj := List.mem_range.mp hj
    obtain ⟨b, hheld, hbytes⟩ := portRules_held hext hi
    obtain ⟨b', hheld', hbytes'⟩ := portRules_held hext hj
    obtain ⟨hfamily, rfl⟩ := RuleMap.mk.inj (hmap.symm.trans hheld)
    obtain rfl := ofFamily_inj hfamily
    obtain ⟨-, rfl⟩ := RuleMap.mk.inj (hmap'.symm.trans hheld')
    rw [hcfg, hbytes'] at hbytes
    rw [portRule_injective (by omega) (by omega) hbytes]
  have hdigits : TakesDigits hostsEnv.python := by
    intro n hn
    obtain rfl : 4300 = n := Option.some.inj hn
    decide
  obtain ⟨fuel, files, hsave, hload⟩ := save_load hdigits (addressText _) hrun hdistinct
  exact ⟨s, fuel, files, hrun, hdistinct, hsave, hload _ 0 0 (List.reverse_perm _)⟩

end Tapplet.Rest
