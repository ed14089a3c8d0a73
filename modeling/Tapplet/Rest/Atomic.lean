import Tapplet.Rest.AclConfig
import Tapplet.Acl.Undo
import Tapplet.Acl.Crc

/-!
# Atomic requests

What an atomic POST request does is told by a list of items, one for each rule and one for
each group that is refused as a whole. An item creates a rule, is refused whatever the store
is, or raises an exception. The items are taken one after the other until the first that is
not created.

A refused item leads to the end of `update_acl_config`, where the created rules are deleted,
and the store is what it was. An exception leaves the function, and nothing is deleted.
-/

namespace Tapplet.Rest

open Acl Transition

/-- What a rule, or a group as a whole, asks for. -/
inductive Item where
  | create (r : Rule)
  | reject
  | raise

def Item.isRaise : Item → Bool
  | .raise => true
  | _ => false

variable (env : Env)

/-- The id and the configuration that a rule of the body hands to the store, `none` when the
rule is refused before. -/
def ruleRequest (rule : PyStr) (tmpdict : Json) : Except Exc (Option (Nat × RuleCfg)) :=
  if isdecimal env.python rule = false then .ok none
  else
    match int env.python rule with
    | .error e => .error e
    | .ok id =>
        if id = 0 ∨ id > MAX_RULE_PER_GROUP then .ok none
        else
          match tmpdict with
          | .object members =>
              let d := Dict.ofEntries members
              match d.get? (py "rule_type") with
              | none => .ok none
              | some ruleType =>
                  match ruleTypeMap ruleType with
                  | .error e => .error e
                  | .ok none => .ok none
                  | .ok (some type) =>
                      match d.get? (py "rule_cfg") with
                      | none => .ok none
                      | some ruleCfg =>
                          if type = .inl 1 then
                            (tupleRequest env ruleCfg 0).map (Option.map (id, ·))
                          else if type = .inl 2 then
                            (tupleRequest env ruleCfg 1).map (Option.map (id, ·))
                          else .ok none
          | _ => .ok none

def ruleItem (groupId : Nat) (rule : PyStr × Json) : Item :=
  match ruleRequest env rule.1 rule.2 with
  | .error _ => .raise
  | .ok none => .reject
  | .ok (some (id, cfg)) => .create ⟨groupId, id, cfg⟩

def groupItems (group : PyStr × Json) : List Item :=
  match decodeGroupId env group.1 with
  | .error _ => [.raise]
  | .ok none => [.reject]
  | .ok (some groupId) =>
      if checkGroupIndex groupId then [.reject]
      else
        match group.2.dict with
        | .error _ => [.raise]
        | .ok d => d.map (ruleItem env groupId)

/-- The items of a request, in the order in which they are taken. -/
def requestItems (request : Except Exc Json) : List Item :=
  match request.bind Json.dict with
  | .error _ => [.raise]
  | .ok d => d.flatMap (groupItems env)

/-! ## One rule -/

variable {env} {fuel : Nat} {s t : Conf} {groupId : Nat}

/-- What becomes of a rule of the body. -/
inductive RuleDone (env : Env) (s : Conf) (item : Item) :
    Conf → Except Exc (Option RuleError) → Prop where
  | raised {e} (h : item = .raise) : RuleDone env s item s (.error e)
  | rejected {e} (h : item = .reject) : RuleDone env s item s (.ok (some e))
  | refused {r : Rule} {t ret e} (h : item = .create r)
      (call : Step env.acl s (.tryMap r.groupId r.outerRuleId r.cfg true, ret) t)
      (hret : ret ≠ 0) : RuleDone env s item t (.ok (some e))
  | created {r : Rule} {t} (h : item = .create r) (call : Step env.acl s r.call t) :
      RuleDone env s item t (.ok none)

theorem updateSingleTupleConfig_done {id : Nat} {data : Json} {isIpv6 : UInt8}
    {r : Except Exc (Option RuleError)} {item : Item}
    (hitem : item = match (tupleRequest env data isIpv6).map (Option.map (id, ·)) with
      | .error _ => .raise
      | .ok none => .reject
      | .ok (some (id, cfg)) => .create ⟨groupId, id, cfg⟩)
    (h : updateSingleTupleConfig env fuel s groupId id data isIpv6 true = some (t, r)) :
    RuleDone env s item t r := by
  unfold updateSingleTupleConfig at h
  split at h
  next e heq =>
    rw [heq] at hitem
    cases h
    exact .raised hitem
  next heq =>
    rw [heq] at hitem
    cases h
    exact .rejected hitem
  next cfg heq =>
    rw [heq] at hitem
    obtain ⟨⟨u, ret⟩, hrun, hr⟩ := Option.map_eq_some_iff.mp h
    cases hr
    by_cases hret : ret = 0
    · subst hret
      exact .created (r := ⟨groupId, id, cfg⟩) hitem ⟨fuel, hrun⟩
    · simp only [if_neg hret]
      exact .refused (r := ⟨groupId, id, cfg⟩) hitem ⟨fuel, hrun⟩ hret

theorem updateRule_done {rule : PyStr} {tmpdict : Json} {r : Except Exc (Option RuleError)}
    (h : updateRule env fuel s groupId rule tmpdict true = some (t, r)) :
    RuleDone env s (ruleItem env groupId (rule, tmpdict)) t r := by
  obtain ⟨item, hitem⟩ : ∃ item, item = ruleItem env groupId (rule, tmpdict) := ⟨_, rfl⟩
  rw [← hitem]
  unfold ruleItem ruleRequest at hitem
  unfold updateRule at h
  dsimp only at h hitem
  split at h
  next hdec =>
    rw [if_pos hdec] at hitem
    cases h
    exact .rejected hitem
  next hdec =>
  rw [if_neg hdec] at hitem
  split at h
  next e hint =>
    rw [hint] at hitem
    cases h
    exact .raised hitem
  next id hint =>
  rw [hint] at hitem
  dsimp only at hitem
  split at h
  next hid =>
    rw [if_pos hid] at hitem
    cases h
    exact .rejected hitem
  next hid =>
  rw [if_neg hid] at hitem
  split at h
  next members =>
    dsimp only at hitem
    split at h
    next htype =>
      rw [htype] at hitem
      cases h
      exact .rejected hitem
    next ruleType htype =>
    rw [htype] at hitem
    dsimp only at hitem
    split at h
    next e hmap =>
      rw [hmap] at hitem
      cases h
      exact .raised hitem
    next hmap =>
      rw [hmap] at hitem
      cases h
      exact .rejected hitem
    next type hmap =>
    rw [hmap] at hitem
    dsimp only at hitem
    split at h
    next hcfg =>
      rw [hcfg] at hitem
      cases h
      exact .rejected hitem
    next ruleCfg hcfg =>
    rw [hcfg] at hitem
    dsimp only at hitem
    split at h
    next h4 =>
      rw [if_pos h4] at hitem
      exact updateSingleTupleConfig_done hitem h
    next h4 =>
    rw [if_neg h4] at hitem
    split at h
    next h6 =>
      rw [if_pos h6] at hitem
      exact updateSingleTupleConfig_done hitem h
    next h6 =>
      rw [if_neg h6] at hitem
      cases h
      exact .rejected hitem
  next hobject =>
    cases h
    cases tmpdict with
    | object members => exact absurd rfl (hobject members)
    | _ => exact .rejected hitem

/-! ## The items of a request -/

/-- How the loops over a request end. -/
inductive End where
  | done
  | failed
  | raised

/-- A loop leaves a dictionary that tells whether a rule has failed, or it raises. -/
def EndsAs {α : Type} (record : Bool → α → Prop) (r : Except Exc α) : End → Prop
  | .done => ∃ d, r = .ok d ∧ record false d
  | .failed => ∃ d, r = .ok d ∧ record true d
  | .raised => ∃ exc, r = .error exc

/-- The items are taken one after the other: the rules that are created, the store after them
and the end. -/
inductive Exec (env : Env) : Conf → List Item → List Rule → Conf → End → Prop where
  | done (s : Conf) : Exec env s [] [] s .done
  | create {s t u r items rules e} (call : Step env.acl s r.call t)
      (rest : Exec env t items rules u e) : Exec env s (.create r :: items) (r :: rules) u e
  | refuse {s t r items ret}
      (call : Step env.acl s (.tryMap r.groupId r.outerRuleId r.cfg true, ret) t)
      (hret : ret ≠ 0) : Exec env s (.create r :: items) [] t .failed
  | reject {s items} : Exec env s (.reject :: items) [] s .failed
  | raise {s items} : Exec env s (.raise :: items) [] s .raised

variable {items more : List Item} {rules : List Rule} {e : End} {u : Conf}

theorem Exec.append_done {rules' : List Rule} (h : Exec env s items rules t .done)
    (h' : Exec env t more rules' u e) : Exec env s (items ++ more) (rules ++ rules') u e := by
  generalize hend : End.done = e' at h
  induction h with
  | done => exact h'
  | create call _ ih => exact .create call (ih h' hend)
  | refuse => cases hend
  | reject => cases hend
  | raise => cases hend

theorem Exec.append (h : Exec env s items rules t e) (hend : e ≠ .done) :
    Exec env s (items ++ more) rules t e := by
  induction h with
  | done => exact absurd rfl hend
  | create call _ ih => exact .create call (ih hend)
  | refuse call hret => exact .refuse call hret
  | reject => exact .reject
  | raise => exact .raise

/-! ## What is recorded -/

/-- The names of the rules that are recorded as created. -/
def pending (d : Dict PyStr RuleResult) : List PyStr :=
  d.filterMap fun r => if r.2 = .none then some r.1 else none

/-- `name` is the name of the rule `r` in the group `groupId`. -/
def Names (env : Env) (groupId : Nat) (name : PyStr) (r : Rule) : Prop :=
  int env.python name = .ok r.outerRuleId ∧ r.groupId = groupId

/-- What the dictionary of a group tells after the loop over its rules. -/
structure GroupRecord (env : Env) (groupId : Nat) (rules : List Rule) (failed : Bool)
    (d : Dict PyStr RuleResult) : Prop where
  fails : fails d = failed
  names : List.Forall₂ (Names env groupId) (pending d) rules

/-- The entries of a dictionary while its rules are being created. -/
def recorded (names : List PyStr) : Dict PyStr RuleResult :=
  (py "has_fail", .flag false) :: names.map fun name => (name, .none)

theorem recorded_set {names : List PyStr} {name : PyStr} (h : name ≠ py "has_fail")
    (hname : name ∉ names) : Dict.set (recorded names) name .none = recorded (names ++ [name]) := by
  have hfresh : name ∉ Dict.keys (recorded names) := by
    simp [recorded, Dict.keys, h, hname]
  rw [Dict.set_of_notMem hfresh]
  simp [recorded]

theorem pending_recorded (names : List PyStr) : pending (recorded names) = names := by
  simp [pending, recorded, List.filterMap_map]

theorem isdecimal_hasFail (p : Python) : isdecimal p (py "has_fail") = false := by
  have h := p.decimal_ascii 104 (by decide)
  simp [isdecimal, py, h]

theorem findGroup_hasFail (p : Python) : findGroup p (py "has_fail") = none := by
  simp [findGroup, py]

theorem ruleRequest_id {rule : PyStr} {tmpdict : Json} {id : Nat} {cfg : RuleCfg}
    (h : ruleRequest env rule tmpdict = .ok (some (id, cfg))) :
    isdecimal env.python rule = true ∧ int env.python rule = .ok id := by
  have hmap {x : Except Exc (Option RuleCfg)} {id' : Nat}
      (hx : x.map (Option.map (id', ·)) = .ok (some (id, cfg))) : id' = id := by
    obtain _ | _ | cfg' := x <;> cases hx
    rfl
  unfold ruleRequest at h
  split at h
  next => cases h
  next hdec =>
  refine ⟨by simpa using hdec, ?_⟩
  split at h
  next => cases h
  next id' hint =>
  rw [hint]
  refine congrArg Except.ok ?_
  dsimp only at h
  repeat' split at h
  all_goals first
    | exact hmap h
    | cases h

/-- A rule that is created has a decimal name. -/
theorem ruleItem_create {rule : PyStr × Json} {r : Rule}
    (h : ruleItem env groupId rule = .create r) :
    Names env groupId rule.1 r ∧ rule.1 ≠ py "has_fail" := by
  unfold ruleItem at h
  split at h
  next => cases h
  next => cases h
  next id cfg hreq =>
    cases h
    obtain ⟨hdec, hint⟩ := ruleRequest_id hreq
    refine ⟨⟨hint, rfl⟩, fun hname => ?_⟩
    rw [hname, isdecimal_hasFail] at hdec
    cases hdec

/-- The dictionary of a group whose rule `name` has failed. -/
theorem groupRecord_failed {names : List PyStr} {name : PyStr} {e : RuleError}
    (hnames : List.Forall₂ (Names env groupId) names rules) (hname : name ∉ names) :
    GroupRecord env groupId rules true
      (Dict.set (Dict.set (Dict.set (recorded names) name .none) name (.error e)) (py "has_fail")
        (.flag true)) := by
  by_cases h : name = py "has_fail"
  · subst h
    simp only [recorded, Dict.set_cons_self]
    refine ⟨by simp [fails, Dict.get?], ?_⟩
    have hpending := pending_recorded names
    simp only [recorded, pending, List.filterMap_cons] at hpending ⊢
    simpa using hpending ▸ hnames
  · rw [recorded_set h hname]
    have hfresh : name ∉ Dict.keys (recorded names) := by simp [recorded, Dict.keys, h, hname]
    have hsplit : recorded (names ++ [name]) = recorded names ++ [(name, .none)] := by
      simp [recorded]
    rw [hsplit, Dict.set_append_of_notMem hfresh, Dict.set_cons_self]
    simp only [recorded, List.cons_append, Dict.set_cons_self]
    refine ⟨by simp [fails, Dict.get?], ?_⟩
    have hpending := pending_recorded names
    simp only [recorded, pending, List.filterMap_cons, List.filterMap_append] at hpending ⊢
    simpa using hpending ▸ hnames

theorem updateRules_exec {rs : List (PyStr × Json)} {names : List PyStr}
    {r : Except Exc (Dict PyStr RuleResult)}
    (hnames : List.Forall₂ (Names env groupId) names rules)
    (hdistinct : (names ++ Dict.keys rs).Nodup)
    (h : updateRules env fuel groupId true true rs s (recorded names) = some (t, r)) :
    ∃ more e, Exec env s (rs.map (ruleItem env groupId)) more t e ∧
      EndsAs (GroupRecord env groupId (rules ++ more)) r e := by
  induction rs generalizing s names rules with
  | nil =>
      cases h
      refine ⟨[], .done, .done _, recorded names, rfl, ?_, ?_⟩
      · simp [fails, recorded, Dict.get?]
      · rwa [pending_recorded, List.append_nil]
  | cons rule rs ih =>
      obtain ⟨name, tmpdict⟩ := rule
      have hname : name ∉ names := fun hmem =>
        (List.nodup_append.mp hdistinct).2.2 name hmem name (by simp) rfl
      simp only [updateRules] at h
      split at h
      next => cases h
      next u e hrun =>
        cases h
        cases updateRule_done hrun with
        | raised hitem =>
            refine ⟨[], .raised, ?_, e, rfl⟩
            rw [List.map_cons, hitem]
            exact .raise
      next u hrun =>
        cases updateRule_done hrun with
        | @created r₁ _ hitem call =>
            obtain ⟨hr, hne⟩ := ruleItem_create hitem
            rw [recorded_set hne hname] at h
            have hnames' : List.Forall₂ (Names env groupId) (names ++ [name]) (rules ++ [r₁]) :=
              List.rel_append hnames (.cons hr .nil)
            obtain ⟨more, e, hexec, hend⟩ := ih hnames' (by simpa using hdistinct) h
            refine ⟨r₁ :: more, e, ?_, ?_⟩
            · rw [List.map_cons, hitem]
              exact .create call hexec
            · simpa only [List.append_assoc, List.singleton_append] using hend
      next u e hrun =>
        cases h
        have hrecord := groupRecord_failed (e := e) hnames hname
        cases updateRule_done hrun with
        | rejected hitem =>
            refine ⟨[], .failed, ?_, _, rfl, by simpa using hrecord⟩
            rw [List.map_cons, hitem]
            exact .reject
        | refused hitem call hret =>
            refine ⟨[], .failed, ?_, _, rfl, by simpa using hrecord⟩
            rw [List.map_cons, hitem]
            exact .refuse call hret

/-! ## Groups -/

/-- The rules that an entry of the dictionary of a request tells to be created. -/
def Recorded (env : Env) (entry : PyStr × GroupResult) (rules : List Rule) : Prop :=
  match entry.2 with
  | .rules d => ∃ g, decodeGroupId env entry.1 = .ok (some g) ∧
      List.Forall₂ (Names env g) (pending d) rules
  | _ => rules = []

/-- What the dictionary of a request tells after the loop over its groups. -/
structure RequestRecord (env : Env) (rules : List Rule) (failed : Bool)
    (d : Dict PyStr GroupResult) : Prop where
  hasFail : hasFail d = failed
  recorded : ∃ parts, List.Forall₂ (Recorded env) d parts ∧ parts.flatten = rules

theorem decodeGroupId_hasFail : decodeGroupId env (py "has_fail") = .ok none := by
  rw [decodeGroupId, findGroup_hasFail]

theorem dict_nodup {data : Json} {d : Dict PyStr Json} (h : data.dict = .ok d) :
    (Dict.keys d).Nodup := by
  cases data with
  | object members =>
      cases h
      exact Dict.nodup_keys_ofEntries members
  | _ => cases h

section

variable {es : Dict PyStr GroupResult} {group : PyStr} {parts : List (List Rule)} {b : Bool}

theorem set_group (hne : group ≠ py "has_fail") (hnew : group ∉ Dict.keys es) (v : GroupResult) :
    Dict.set ((py "has_fail", .flag b) :: es) group v =
      (py "has_fail", .flag b) :: (es ++ [(group, v)]) := by
  rw [Dict.set_of_notMem (by simp [Dict.keys_cons, hne, hnew]), List.cons_append]

theorem hasFail_cons : hasFail ((py "has_fail", .flag b) :: es) = b := by
  simp [hasFail, Dict.get?]

theorem requestRecord_cons (hparts : List.Forall₂ (Recorded env) es parts) :
    RequestRecord env parts.flatten b ((py "has_fail", .flag b) :: es) :=
  ⟨hasFail_cons, [] :: parts, .cons rfl hparts, rfl⟩

/-- The dictionary of a request with an invalid group. -/
theorem requestRecord_invalid (hparts : List.Forall₂ (Recorded env) es parts)
    (hnew : group ∉ Dict.keys es) (reason : String) :
    RequestRecord env parts.flatten true
      (Dict.set (Dict.set ((py "has_fail", .flag false) :: es) group (.invalid reason))
        (py "has_fail") (.flag true)) := by
  by_cases h : group = py "has_fail"
  · subst h
    rw [Dict.set_cons_self, Dict.set_cons_self]
    exact requestRecord_cons hparts
  · rw [set_group h hnew, Dict.set_cons_self]
    have hparts' : List.Forall₂ (Recorded env) (es ++ [(group, .invalid reason)])
        (parts ++ [[]]) := List.rel_append hparts (.cons rfl .nil)
    simpa using requestRecord_cons (b := true) hparts'

/-- The dictionary of a request with a group whose rules have been taken. -/
theorem requestRecord_rules {g : Nat} {d : Dict PyStr RuleResult}
    (hparts : List.Forall₂ (Recorded env) es parts)
    (hgroup : decodeGroupId env group = .ok (some g))
    (hnames : List.Forall₂ (Names env g) (pending d) rules) :
    List.Forall₂ (Recorded env) (es ++ [(group, .rules d)]) (parts ++ [rules]) :=
  List.rel_append hparts (.cons ⟨g, hgroup, hnames⟩ .nil)

end

theorem updateSingleAclConfig_exec {data : Json} {r : Except Exc (Dict PyStr RuleResult)}
    {group : PyStr} (hgroup : decodeGroupId env group = .ok (some groupId))
    (hindex : ¬checkGroupIndex groupId = true)
    (h : updateSingleAclConfig env fuel s groupId data true true = some (t, r)) :
    ∃ rules e, Exec env s (groupItems env (group, data)) rules t e ∧
      EndsAs (GroupRecord env groupId rules) r e := by
  unfold updateSingleAclConfig at h
  cases hdict : data.dict with
  | error e =>
      simp only [hdict] at h
      cases h
      simp only [groupItems, hgroup, if_neg hindex, hdict]
      exact ⟨[], .raised, .raise, e, rfl⟩
  | ok d =>
      simp only [hdict] at h
      simp only [groupItems, hgroup, if_neg hindex, hdict]
      have hnil : List.Forall₂ (Names env groupId) [] [] := .nil
      exact updateRules_exec hnil (by simpa using dict_nodup hdict) h

theorem updateGroups_exec {gs : List (PyStr × Json)} {es : Dict PyStr GroupResult}
    {parts : List (List Rule)} {r : Except Exc (Dict PyStr GroupResult)}
    (hparts : List.Forall₂ (Recorded env) es parts)
    (hdistinct : (Dict.keys es ++ Dict.keys gs).Nodup)
    (h : updateGroups env fuel true true gs s ((py "has_fail", .flag false) :: es) =
      some (t, r)) :
    ∃ rules e, Exec env s (gs.flatMap (groupItems env)) rules t e ∧
      EndsAs (RequestRecord env (parts.flatten ++ rules)) r e := by
  induction gs generalizing s es parts with
  | nil =>
      cases h
      exact ⟨[], .done, .done _, _, rfl, by simpa using requestRecord_cons hparts⟩
  | cons g gs ih =>
      obtain ⟨group, data⟩ := g
      have hnew : group ∉ Dict.keys es := fun hmem =>
        (List.nodup_append.mp hdistinct).2.2 group hmem group (by simp) rfl
      have invalid (reason : String) (hitems : groupItems env (group, data) = [.reject]) :
          ∃ rules e, Exec env s (((group, data) :: gs).flatMap (groupItems env)) rules s e ∧
            EndsAs (RequestRecord env (parts.flatten ++ rules)) (.ok (Dict.set (Dict.set
              ((py "has_fail", .flag false) :: es) group (.invalid reason)) (py "has_fail")
                (.flag true))) e := by
        refine ⟨[], .failed, ?_, _, rfl, by simpa using requestRecord_invalid hparts hnew reason⟩
        rw [List.flatMap_cons, hitems]
        exact .reject
      simp only [updateGroups, if_true] at h
      split at h
      next e hdecode =>
        cases h
        refine ⟨[], .raised, ?_, e, rfl⟩
        simp only [List.flatMap_cons, groupItems, hdecode]
        exact .raise
      next hdecode =>
        cases h
        exact invalid _ (by simp only [groupItems, hdecode])
      next groupId hdecode =>
        split at h
        next hindex =>
          cases h
          exact invalid _ (by simp only [groupItems, hdecode, if_pos hindex])
        next hindex =>
        have hne : group ≠ py "has_fail" := by
          rintro rfl
          rw [decodeGroupId_hasFail] at hdecode
          cases hdecode
        split at h
        next => cases h
        next u e hrun =>
          cases h
          obtain ⟨rules, e', hexec, hend⟩ := updateSingleAclConfig_exec hdecode hindex hrun
          cases e' with
          | raised =>
              refine ⟨rules, .raised, ?_, e, rfl⟩
              rw [List.flatMap_cons]
              exact hexec.append (by simp)
          | _ => obtain ⟨d, hd, -⟩ := hend; cases hd
        next u d hrun =>
          obtain ⟨rules, e', hexec, hend⟩ := updateSingleAclConfig_exec hdecode hindex hrun
          cases e' with
          | done =>
              obtain ⟨d', hd, hrecord⟩ := hend
              cases hd
              rw [hrecord.fails, if_neg Bool.false_ne_true, set_group hne hnew] at h
              have hparts' := requestRecord_rules hparts hdecode hrecord.names
              obtain ⟨more, e, hexec', hend'⟩ := ih hparts' (by simpa using hdistinct) h
              refine ⟨rules ++ more, e, ?_, ?_⟩
              · rw [List.flatMap_cons]
                exact hexec.append_done hexec'
              · simpa only [List.flatten_append, List.flatten_cons, List.flatten_nil,
                  List.append_nil, List.append_assoc] using hend'
          | failed =>
              obtain ⟨d', hd, hrecord⟩ := hend
              cases hd
              rw [hrecord.fails, if_pos rfl, set_group hne hnew, Dict.set_cons_self] at h
              cases h
              have hparts' := requestRecord_rules hparts hdecode hrecord.names
              refine ⟨rules, .failed, ?_, _, rfl,
                by simpa using requestRecord_cons (b := true) hparts'⟩
              rw [List.flatMap_cons]
              exact hexec.append (by simp)
          | raised => obtain ⟨exc, hd⟩ := hend; cases hd

/-! ## Taking back -/

theorem deleteCreated_eq {d : Dict PyStr RuleResult}
    (hnames : List.Forall₂ (Names env groupId) (pending d) rules) :
    deleteCreated env (some groupId) d s = (deleteAll env.acl s rules, .ok ()) := by
  induction d generalizing s rules with
  | nil =>
      cases hnames
      rfl
  | cons entry d ih =>
      obtain ⟨name, value⟩ := entry
      cases value with
      | none =>
          cases hnames with
          | cons hname hrest =>
              obtain ⟨hint, rfl⟩ := hname
              simp only [deleteCreated, hint]
              exact ih hrest
      | error e => exact ih hnames
      | flag b => exact ih hnames

theorem takeBack_eq {d : Dict PyStr GroupResult} {parts : List (List Rule)}
    (hparts : List.Forall₂ (Recorded env) d parts) :
    ∃ d', takeBack env true d s = (deleteAll env.acl s parts.flatten, .ok d') := by
  induction hparts generalizing s with
  | nil => exact ⟨[], rfl⟩
  | @cons entry rules d parts hentry _ ih =>
      obtain ⟨group, value⟩ := entry
      cases value with
      | rules rd =>
          obtain ⟨g, hgroup, hnames⟩ := hentry
          obtain ⟨d', hd⟩ := ih (s := deleteAll env.acl s rules)
          simp only [takeBack, hgroup, if_true, deleteCreated_eq hnames, hd, Except.map]
          exact ⟨_, by rw [List.flatten_cons, deleteAll, deleteAll, deleteAll, List.foldl_append]⟩
      | flag b =>
          obtain rfl : rules = [] := hentry
          obtain ⟨d', hd⟩ := ih (s := s)
          exact ⟨(group, .flag b) :: d', by simp only [takeBack, hd, Except.map]; rfl⟩
      | invalid reason =>
          obtain rfl : rules = [] := hentry
          obtain ⟨d', hd⟩ := ih (s := s)
          exact ⟨(group, .invalid reason) :: d', by simp only [takeBack, hd, Except.map]; rfl⟩

/-! ## The request -/

variable {request : Except Exc Json} {reply : Reply}

/-- An atomic request takes its items, and deletes what was created when one is refused. -/
theorem post_exec (h : post env fuel s (some "atomic") request = some (t, reply)) :
    ∃ rules u e, Exec env s (requestItems env request) rules u e ∧
      t = match e with
        | .failed => deleteAll env.acl u rules
        | _ => u := by
  unfold post at h
  split at h
  next e =>
    cases h
    exact ⟨[], s, .raised, .raise, rfl⟩
  next data =>
  rw [if_neg (by simp)] at h
  obtain ⟨⟨u, r⟩, hupdate, hreply⟩ := Option.map_eq_some_iff.mp h
  unfold updateAclConfig at hupdate
  simp only [Bool.true_eq_false, false_and, if_false, decide_true] at hupdate
  split at hupdate
  next e hdict =>
    cases hupdate
    cases hreply
    refine ⟨[], s, .raised, ?_, rfl⟩
    simp only [requestItems, Except.bind, hdict]
    exact .raise
  next d hdict =>
  obtain ⟨⟨v, r'⟩, hgroups, hend⟩ := Option.map_eq_some_iff.mp hupdate
  have hnil : List.Forall₂ (Recorded env) [] [] := .nil
  obtain ⟨rules, e, hexec, hrecord⟩ :=
    updateGroups_exec hnil (by simpa using dict_nodup hdict) hgroups
  have hitems : requestItems env (.ok data) = d.flatMap (groupItems env) := by
    simp only [requestItems, Except.bind, hdict]
  refine ⟨rules, v, e, hitems ▸ hexec, ?_⟩
  cases e with
  | done =>
      obtain ⟨d', rfl, hd⟩ := hrecord
      simp only [hd.hasFail, Bool.false_eq_true, if_false] at hend
      cases hend
      cases hreply
      rfl
  | failed =>
      obtain ⟨d', rfl, hd⟩ := hrecord
      obtain ⟨parts, hparts, hflat⟩ := hd.recorded
      obtain ⟨d'', hback⟩ := takeBack_eq (s := v) hparts
      simp only [hd.hasFail, if_true, hback, hflat, Except.map] at hend
      cases hend
      cases hreply
      rfl
  | raised =>
      obtain ⟨exc, rfl⟩ := hrecord
      cases hend
      cases hreply
      rfl

/-- What is created is added to the store. -/
theorem Exec.extends {s₀ : Conf} {before : List Rule} (hext : Extends env.acl s₀ s before)
    (h : Exec env s items rules t e) : Extends env.acl s₀ t (before ++ rules) := by
  induction h generalizing before with
  | done => rwa [List.append_nil]
  | create call _ ih =>
      rw [List.append_cons]
      exact ih (hext.create call)
  | refuse call hret =>
      rw [refused hext.inv call hret, List.append_nil]
      exact hext
  | reject => rwa [List.append_nil]
  | raise => rwa [List.append_nil]

theorem Exec.eq_of_done (h : Exec env s items rules t .done) : items = rules.map .create := by
  generalize hend : End.done = e at h
  induction h with
  | done => rfl
  | create call _ ih => rw [ih hend, List.map_cons]
  | refuse => cases hend
  | reject => cases hend
  | raise => cases hend

theorem Exec.eq_of_raised (h : Exec env s items rules t .raised) :
    ∃ rest, items = rules.map .create ++ .raise :: rest ∧
      Run (Step env.acl) s (rules.map Rule.call) t := by
  generalize hend : End.raised = e at h
  induction h with
  | done => cases hend
  | create call _ ih =>
      obtain ⟨rest, rfl, hrun⟩ := ih hend
      exact ⟨rest, rfl, .cons call hrun⟩
  | refuse => cases hend
  | reject => cases hend
  | @raise s items => exact ⟨items, rfl, .refl s⟩

/-- When the rules before an item that raises can be created, they are, and it raises. -/
theorem Exec.raised_of_run {before : List Rule} {rest : List Item}
    (hrun : Run (Step env.acl) s (before.map Rule.call) u)
    (h : Exec env s (before.map .create ++ .raise :: rest) rules t e) :
    e = .raised ∧ rules = before := by
  induction before generalizing s rules with
  | nil =>
      cases h
      exact ⟨rfl, rfl⟩
  | cons r before ih =>
      obtain ⟨v, hcall, hrest⟩ := Run.cons_iff.mp hrun
      cases h with
      | create call exec =>
          obtain ⟨rfl, -⟩ := tryMap_unique call hcall
          obtain ⟨rfl, rfl⟩ := ih hrest exec
          exact ⟨rfl, rfl⟩
      | refuse call hret => exact absurd (tryMap_unique call hcall).2 hret

/-- The store holds the rule that an item creates. -/
def Created (env : Env) (t : Conf) : Item → Prop
  | .create r => Holds env.acl t r
  | _ => False

/-- Every rule and group of the request has been created, or every outer rule is what it was. -/
def AllOrNothing (env : Env) (s t : Conf) (request : Except Exc Json) : Prop :=
  (∀ item ∈ requestItems env request, Created env t item) ∨ ∀ g o, SameRule s t g o

/-- The first item that is no rule to be created raises an exception, and there are rules
before it, all of which the store takes. -/
def RaisesAfterCreating (env : Env) (s : Conf) (request : Except Exc Json) : Prop :=
  ∃ r rules rest t, requestItems env request = (r :: rules).map .create ++ .raise :: rest ∧
    Run (Step env.acl) s ((r :: rules).map Rule.call) t

def samplePython : Python where
  decimal c := if 48 ≤ c ∧ c ≤ 57 then some (c - 48) else none
  intMaxStrDigits := some 4300
  decimal_ascii _ _ := rfl

def sampleEnv : Env := ⟨samplePython, Acl.sampleEnv⟩

/-- A rule for the traffic between two hosts. -/
def sampleRule (sportMin : Json) : Json :=
  .object
    [(py "rule_type", .str (py "tuple4")),
      (py "rule_cfg", .object
        [(py "sport_min", sportMin), (py "sport_max", .int 65535), (py "dport_min", .int 0),
          (py "dport_max", .int 65535), (py "proto_min", .int 0), (py "proto_max", .int 255),
          (py "sip", .str (py "10.0.0.1")), (py "sip_mask", .int 32),
          (py "dip", .str (py "10.0.0.2")), (py "dip_mask", .int 32)])]

/-- Two rules in the first group. The second has the given value for its first port. -/
def sampleRequest (sportMin : Json) : Except Exc Json :=
  .ok (.object [(py "group_1",
    .object [(py "1", sampleRule (.int 0)), (py "2", sampleRule sportMin)])])

end Tapplet.Rest
