import Tapplet.Actions.RoundTrip
import Tapplet.Lib.Nested

/-!
# PATCH requests for actions

`ActionConfigHandler.patch`: a list of operations, each of which replaces the value at a path. They
are made into one dictionary, which is merged into what is stored, and the result is written as a
PUT request would be. Replacing a value at a path of a document is what an operation is for.
-/

namespace Tapplet.Rest

/-! ## Dictionaries of Python -/

mutual

/-- What `json.loads` makes of a value: a dictionary has each key once, with its last value. -/
def Json.loads : Json → Json
  | .object members => .object (Dict.ofEntries (Json.loadsMembers members))
  | .array items => .array (Json.loadsItems items)
  | v => v
termination_by structural v => v

def Json.loadsMembers : List (PyStr × Json) → List (PyStr × Json)
  | [] => []
  | (k, v) :: members => (k, v.loads) :: Json.loadsMembers members
termination_by structural members => members

def Json.loadsItems : List Json → List Json
  | [] => []
  | v :: items => v.loads :: Json.loadsItems items
termination_by structural items => items

end

instance : Nested PyStr Json where
  entries
    | .object members => some members
    | _ => none
  node := .object
  entries_node _ := rfl

end Tapplet.Rest

namespace Tapplet.Actions

open Rest Nested Fallible

/-! ## The handler -/

/-- An operation of a request: the names of its path, and the value. -/
structure Operation where
  path : List PyStr
  value : Json

/-- What `action_decode_request_path_body` returns in place of a list: -1, or `None` after an
exception. -/
inductive Unread where
  | invalid
  | failed
deriving DecidableEq

/-- One round of the loop of `action_decode_request_path_body`. The path is split at `/`, and what
is before the first one is left out. -/
def readOperation : Json → Except Unread Operation
  | .object members =>
      let action : Dict PyStr Json := members
      match action.get? (py "op"), action.get? (py "path"), action.get? (py "value") with
      | some op, some path, some value =>
          if isStr op "replace" = false then .error .invalid
          else
            match path with
            | Json.str path =>
                let varChange := (path.splitOn 47).tail
                if varChange = [] then .error .failed else .ok ⟨varChange, value⟩
            | _ => .error .failed
      | _, _, _ => .error .invalid
  | _ => .error .failed

/-- `action_decode_request_path_body`. A body that is no JSON text is `none`. -/
def actionDecodeRequestPathBody (body : Option Json) : Except Unread (List Operation) :=
  match body.map Json.loads with
  | some (.array actions) => actions.mapM readOperation
  | some (.object []) | some (.str []) => .ok []
  | _ => .error .failed

/-- `resouce`: the value in a dictionary for each name of the path. -/
def Operation.resouce (o : Operation) : Dict PyStr Json :=
  match o.path with
  | [] => []
  | k :: p => [(k, nest p o.value)]

mutual

/-- `action_dict_merge_update`. Only a dictionary is merged; any other value is put in the place of
the old one. -/
def actionDictMergeUpdate : Json → Json → Json
  | .object srcd, .object patchd => .object (mergeEntries srcd patchd)
  | _, patchd => patchd
termination_by structural _ patchd => patchd

/-- The loop of `action_dict_merge_update`. -/
def mergeEntries : Dict PyStr Json → List (PyStr × Json) → Dict PyStr Json
  | srcd, [] => srcd
  | srcd, (k, v) :: patchd =>
      mergeEntries (srcd.set k ((srcd.get? k).elim v fun old => actionDictMergeUpdate old v)) patchd
termination_by structural _ patchd => patchd

end

section Handler

variable (env : Env) (s : Conf)

/-- The loop of `get_action` over a list of ids. -/
def getActions : List PyStr → Dict PyStr Json → Except Fault (Option (Dict PyStr Json))
  | [], resultDict => .ok (some resultDict)
  | index :: rest, resultDict => do
      let id ← raises (intStr env index)
      if ← raises (checkActionExists s id) then
        let info ← getSingleActionContent env s id
        getActions rest (resultDict.set (py (toString id)) info)
      else .ok none

/-- `get_action` for a list: an empty list stands for all actions. -/
def getAction (index : List PyStr) : Except Fault (Option (Dict PyStr Json)) :=
  match index with
  | [] => do
      let ids := (List.range' 1 MAX_ACTION_NUM).filter fun (i : Nat) => checkActionIfExist s i > 0
      let entries ← ids.mapM fun (i : Nat) => do
        let info ← getSingleActionContent env s i
        pure (py (toString i), info)
      pure (some (Dict.ofEntries entries))
  | _ => getActions env s index []

/-- The end of a request, with the reasons of a refused update. -/
inductive PatchReply where
  | badRequest (ret : Dict PyStr Reason)
  | notFound
  | noContent
  | exception (e : Fault)

/-- The id in the URL, if there is one. -/
def patchBase (args : Option PyStr) : Except PatchReply (List PyStr) :=
  match args with
  | none => .ok []
  | some arg =>
      let index := (arg.splitOn 47).headD []
      if isdigit env index = false then .error .notFound
      else (raises (intStr env index)).mapError .exception |>.map fun id => [py (toString id.toNat)]

/-- The resources of all operations, in one dictionary. -/
def patchDictInner (request : List Operation) : Dict PyStr Json :=
  request.foldl (fun d o => d.update o.resouce) []

/-- `patch_dict` -/
def patchDict (base : List PyStr) (request : List Operation) : Dict PyStr Json :=
  match base with
  | [] => patchDictInner request
  | index :: _ => [(index, .object (patchDictInner request))]

/-- `origin_dict` after the merge, or the end of the request. The loops over the operations raise
an exception when there are none to go through. -/
def patchDocument (args : Option PyStr) (body : Option Json) : Except PatchReply Json :=
  match actionDecodeRequestPathBody body with
  | .error .invalid => .error (.badRequest [])
  | .error .failed => do
      let _ ← patchBase env args
      .error (.exception (.raised .typeError))
  | .ok request => do
      let base ← patchBase env args
      match getAction env s (Dict.keys (patchDict base request)) with
      | .error e => .error (.exception e)
      | .ok none => .error .notFound
      | .ok (some originDict) =>
          .ok (actionDictMergeUpdate (.object originDict) (.object (patchDict base request)))

/-- The end of a request that was written. -/
def PatchReply.ofUpdate : Except Fault (Dict PyStr Reason) → PatchReply
  | .error e => .exception e
  | .ok [] => .noContent
  | .ok ret => .badRequest ret

/-- `ActionConfigHandler.patch`: the store and the reply. -/
def patch (args : Option PyStr) (body : Option Json) : Option (Conf × PatchReply) :=
  match patchDocument env s args body with
  | .error reply => some (s, reply)
  | .ok originDict =>
      (updateActionContent env "put" s originDict).map fun r => (r.1, .ofUpdate r.2)

end Handler

/-! ## What the operations are for -/

/-- The document after the operations, each of which replaces the value at its path. -/
def replaced (doc : Json) (ops : List Operation) : Json :=
  ops.foldl (fun d o => replaceAt d o.path o.value) doc

/-- The operation on the document in which this one is at `base`. -/
def Operation.under (base : List PyStr) (o : Operation) :
    Operation := { o with path := base ++ o.path }

/-- Wherever both have a dictionary, the new one has every key of the old one. -/
def Covers (old new : Json) : Prop :=
  ∀ q d e, at? old q = some (.object d) → at? new q = some (.object e) →
    ∀ k ∈ Dict.keys d, k ∈ Dict.keys e

/-- Among the operations whose paths start with the same name the last one is all that counts: the
ones before it leave nothing behind beside its path, and it leaves nothing of what it replaces. -/
def LastCounts (stored : Json) (ops : List Operation) : Prop :=
  ∀ before o after, ops = before ++ o :: after →
    (∀ o' ∈ after, o'.path.head? ≠ o.path.head?) →
    (∀ old, at? stored o.path = some old → Covers old o.value) ∧
    ∀ q, q.head? = o.path.head? → ¬o.path <+: q → ¬q <+: o.path →
      SameAt (replaced stored before) stored q

variable {env : Env} {s : Conf} {ops : List Operation} {o : Operation} {d : Dict PyStr Json}
  {k : PyStr} {p q : List PyStr} {old v x y : Json}

/-! ## Parts of documents -/

theorem at?_object : at? (.object d) (k :: p) = (d.get? k).bind fun y => at? y p := rfl

theorem object_of_at? (h : at? x (k :: p) = some y) :
    ∃ d z, x = .object d ∧ Dict.get? d k = some z ∧ at? z p = some y := by
  cases x with
  | object d =>
    obtain ⟨z, hz, hy⟩ := Option.bind_eq_some_iff.mp (at?_object.symm.trans h)
    exact ⟨d, z, rfl, hz, hy⟩
  | _ => cases h

/-- Below a key that both have, two dictionaries are the same as its values are. -/
theorem sameAt_object {e : Dict PyStr Json} :
    SameAt (Json.object d) (Json.object e) (k :: q) ↔
      ((d.get? k).bind (at? · q)).map leaf? = ((e.get? k).bind (at? · q)).map leaf? := .rfl

/-! ## What a request holds -/

/-- Every dictionary of the value has its keys once. -/
def Loaded (v : Json) : Prop := ∀ q d, at? v q = some (.object d) → (Dict.keys d).Nodup

theorem Loaded.part (h : Loaded v) (hpart : at? v p = some x) : Loaded x := by
  intro q d hq
  apply h (p ++ q) d
  rw [at?_append, hpart]
  exact hq

theorem mem_loadsMembers {members : List (PyStr × Json)} {e : PyStr × Json}
    (h : e ∈ Json.loadsMembers members) : ∃ v : Json, e.2 = v.loads := by
  induction members with
  | nil => cases h
  | cons m members ih =>
    obtain rfl | h := List.mem_cons.mp h
    · exact ⟨m.2, rfl⟩
    · exact ih h

theorem mem_loadsItems {items : List Json} (h : v ∈ Json.loadsItems items) :
    ∃ w : Json, v = w.loads := by
  induction items with
  | nil => cases h
  | cons w items ih =>
    obtain rfl | h := List.mem_cons.mp h
    · exact ⟨w, rfl⟩
    · exact ih h

/-- A part of a loaded value was loaded. -/
theorem part_loads (h : at? v.loads q = some x) : ∃ w : Json, x = w.loads := by
  induction q generalizing v with
  | nil => exact ⟨v, (Option.some.inj h).symm⟩
  | cons k q ih =>
    cases v with
    | object members =>
      have h : ((Dict.ofEntries (Json.loadsMembers members)).get? k).bind (at? · q) = some x := h
      obtain ⟨y, hy, hx⟩ := Option.bind_eq_some_iff.mp h
      obtain ⟨w, rfl⟩ := mem_loadsMembers (Dict.mem_ofEntries (Dict.mem_of_get? hy))
      exact ih hx
    | null => cases h
    | bool b => cases h
    | int i => cases h
    | float i => cases h
    | str s => cases h
    | array items => cases h

theorem loaded_loads (v : Json) : Loaded v.loads := by
  intro q d hq
  obtain ⟨w, hw⟩ := part_loads hq
  cases w with
  | object members =>
    obtain rfl := Json.object.inj hw
    exact Dict.nodup_keys_ofEntries _
  | null => cases hw
  | bool b => cases hw
  | int i => cases hw
  | float i => cases hw
  | str s => cases hw
  | array items => cases hw

/-- An operation has a path, and its value was loaded. -/
theorem readOperation_ok {action : Json} (loaded : Loaded action)
    (h : readOperation action = .ok o) : o.path ≠ [] ∧ Loaded o.value := by
  revert h
  fun_cases readOperation action with
  | case3 members d op value hvalue hop hreplace path names hne hpath =>
    intro h
    obtain rfl := Except.ok.inj h
    refine ⟨hne, loaded.part (p := [py "value"]) ?_⟩
    show (d.get? (py "value")).bind some = some value
    rw [hvalue, Option.bind_some]
  | _ => exact nofun

/-- All operations of a request have paths, and their values were loaded. -/
theorem decode_ok {body : Option Json} (h : actionDecodeRequestPathBody body = .ok ops) :
    ∀ o ∈ ops, o.path ≠ [] ∧ Loaded o.value := by
  revert h
  fun_cases actionDecodeRequestPathBody body with
  | case1 actions hbody =>
    intro h o ho
    obtain ⟨action, hmem, hread⟩ := mem_of_mapM_ok h ho
    obtain ⟨v, rfl, hv⟩ := Option.map_eq_some_iff.mp hbody
    cases v with
    | array items =>
      obtain rfl := Json.array.inj hv
      obtain ⟨w, rfl⟩ := mem_loadsItems hmem
      exact readOperation_ok (loaded_loads w) hread
    | _ => cases hv
  | case2 | case3 =>
    intro h o ho
    obtain rfl := Except.ok.inj h
    cases ho
  | case4 => exact nofun

/-! ## The merge -/

@[simp] theorem merge_object (d e : Dict PyStr Json) :
    actionDictMergeUpdate (.object d) (.object e) = .object (mergeEntries d e) := rfl

theorem merge_of_not_object (hold : entries old = none) : actionDictMergeUpdate old v = v := by
  cases old with
  | object d => cases hold
  | _ => cases v <;> rfl

theorem merge_of_leaf (hnew : entries v = none) : actionDictMergeUpdate old v = v := by
  cases v with
  | object d => cases hnew
  | _ => cases old <;> rfl

/-- The entries after the merge of a dictionary that has its keys once. -/
theorem get?_mergeEntries {e : Dict PyStr Json} (hnodup : (Dict.keys e).Nodup) (k : PyStr) :
    (mergeEntries d e).get? k = (e.get? k).elim (d.get? k) fun v =>
      some ((d.get? k).elim v fun old => actionDictMergeUpdate old v) := by
  induction e generalizing d with
  | nil => rfl
  | cons x e ih =>
    obtain ⟨j, v⟩ := x
    obtain ⟨hnew, hnodup⟩ := List.nodup_cons.mp hnodup
    rw [mergeEntries, ih hnodup, Dict.get?]
    by_cases h : j = k
    · subst h
      have hnone : Dict.get? e j = none := by
        apply Option.eq_none_iff_forall_ne_some.mpr
        intro y hy
        exact hnew (List.mem_map.mpr ⟨_, Dict.mem_of_get? hy, rfl⟩)
      rw [hnone, if_pos rfl, Option.elim_none, Dict.get?_set_self]
      rfl
    · rw [if_neg h, Dict.get?_set_of_ne h]

/-- Merging one value in place of another gives that value when every key is covered. -/
theorem same_merge_iff (hv : Loaded v) : Same (actionDictMergeUpdate old v) v ↔ Covers old v := by
  constructor
  · intro h q
    induction q generalizing old v with
    | nil =>
      intro d e hd he k hk
      obtain rfl := Option.some.inj hd
      obtain rfl := Option.some.inj he
      obtain ⟨y, hy⟩ := Option.isSome_iff_exists.mp (Dict.get?_isSome.mpr hk)
      by_contra hnot
      have hnone : Dict.get? e k = none := by
        apply Option.not_isSome_iff_eq_none.mp
        exact mt Dict.get?_isSome.mp hnot
      have hsame := h [k]
      have hmerged : at? (actionDictMergeUpdate (.object d) (.object e)) [k] = some y := by
        show ((mergeEntries d e).get? k).bind some = some y
        rw [get?_mergeEntries (hv [] e rfl), hnone, Option.elim_none, hy]
        rfl
      have hnew : at? (Json.object e) [k] = none := by
        show (Dict.get? e k).bind some = none
        rw [hnone]
        rfl
      rw [SameAt, hmerged, hnew] at hsame
      cases hsame
    | cons j q ih =>
      intro d e hd he
      obtain ⟨m, z, rfl, hz, hd⟩ := object_of_at? hd
      obtain ⟨n, w, rfl, hw, he⟩ := object_of_at? he
      refine ih (hv.part (p := [j]) (at?_object.trans (by rw [hw]; rfl))) (fun r => ?_) d e hd he
      have hsame := h (j :: r)
      rw [merge_object, sameAt_object, get?_mergeEntries (hv [] n rfl), hw, hz] at hsame
      exact hsame
  · intro h q
    induction q generalizing old v with
    | nil =>
      cases v with
      | object e => cases old <;> rfl
      | _ => rw [merge_of_leaf rfl]; rfl
    | cons j q ih =>
      cases v with
      | object e =>
        cases old with
        | object d =>
          rw [merge_object, sameAt_object, get?_mergeEntries (hv [] e rfl)]
          cases he : Dict.get? e j with
          | none =>
            have hnone : Dict.get? d j = none := by
              apply Option.not_isSome_iff_eq_none.mp
              intro hsome
              have hmem := h [] d e rfl rfl j (Dict.get?_isSome.mp hsome)
              have hsome := Dict.get?_isSome.mpr hmem
              rw [he] at hsome
              cases hsome
            rw [Option.elim_none, hnone]
          | some w =>
            cases hd : Dict.get? d j with
            | none => rfl
            | some z =>
              refine ih (hv.part (p := [j]) (at?_object.trans (by rw [he]; rfl))) ?_
              intro r m n hm hn
              refine h (j :: r) m n ?_ ?_
              · rw [at?_object, hd]
                exact hm
              · rw [at?_object, he]
                exact hn
        | _ => rw [merge_of_not_object rfl]; rfl
      | _ => rw [merge_of_leaf rfl]; rfl

/-- Merging a value that is nested in dictionaries merges it at the end of its path. -/
theorem merge_nest (p : List PyStr) : actionDictMergeUpdate x (nest p v) =
    replaceAt x p ((at? x p).elim v fun old => actionDictMergeUpdate old v) := by
  induction p generalizing x with
  | nil => rfl
  | cons k p ih =>
    cases x with
    | object d =>
      rw [at?_object, replaceAt_cons rfl]
      show Json.object (Dict.set d k _) = Json.object (Dict.set d k _)
      cases Dict.get? d k with
      | none => rfl
      | some old => exact congrArg (fun y => Json.object (Dict.set d k y)) ih
    | _ =>
      rw [merge_of_not_object rfl, replaceAt_cons_leaf rfl, at?_cons_leaf rfl]
      rfl

/-! ## The dictionary of a request -/

theorem patchDictInner_append (before : List Operation) (o : Operation) :
    patchDictInner (before ++ [o]) = (patchDictInner before).update o.resouce := by
  rw [patchDictInner, List.foldl_append]
  rfl

theorem nodup_patchDictInner (ops : List Operation) : (Dict.keys (patchDictInner ops)).Nodup := by
  induction ops using List.reverseRecOn with
  | nil => exact List.nodup_nil
  | append_singleton ops o ih =>
    rw [patchDictInner_append, Operation.resouce]
    cases o.path with
    | nil => exact ih
    | cons k p => exact Dict.nodup_keys_set ih k _

theorem get?_resouce_of_ne (h : o.path.head? ≠ some k) :
    Dict.get? (d.update o.resouce) k = d.get? k := by
  rw [Operation.resouce]
  cases hp : o.path with
  | nil => rfl
  | cons j p =>
    rw [hp] at h
    exact Dict.get?_set_of_ne (fun hjk => h (congrArg some hjk)) d _

/-- A name at which no path starts. -/
theorem get?_patchDictInner_append (before : List Operation) {after : List Operation}
    (h : ∀ o ∈ after, o.path.head? ≠ some k) :
    Dict.get? (patchDictInner (before ++ after)) k = Dict.get? (patchDictInner before) k := by
  induction after using List.reverseRecOn with
  | nil => rw [List.append_nil]
  | append_singleton after o ih =>
    rw [← List.append_assoc, patchDictInner_append, get?_resouce_of_ne (h o (by simp)),
      ih fun o' ho' => h o' (List.mem_append_left _ ho')]

/-- At a name at which paths start, the last of them. -/
theorem get?_patchDictInner {before after : List Operation} (hpath : o.path = k :: p)
    (h : ∀ o' ∈ after, o'.path.head? ≠ some k) :
    Dict.get? (patchDictInner (before ++ o :: after)) k = some (nest p o.value) := by
  have happend : before ++ o :: after = (before ++ [o]) ++ after := by simp
  rw [happend, get?_patchDictInner_append _ h, patchDictInner_append, Operation.resouce, hpath]
  exact Dict.get?_set_self _ _ _

/-! ## The merge and the operations -/

theorem replaced_append (doc : Json) (before after : List Operation) :
    replaced doc (before ++ after) = replaced (replaced doc before) after := List.foldl_append

/-- Operations whose paths start with another name. -/
theorem at?_replaced_of_ne (hne : ∀ o ∈ ops, o.path ≠ [] ∧ o.path.head? ≠ some k) :
    at? (replaced x ops) (k :: q) = at? x (k :: q) := by
  induction ops generalizing x with
  | nil => rfl
  | cons o ops ih =>
    obtain ⟨hpath, hhead⟩ := hne o List.mem_cons_self
    have hrest : at? (replaced (replaceAt x o.path o.value) ops) (k :: q) =
        at? (replaceAt x o.path o.value) (k :: q) :=
      ih fun o' ho' => hne o' (List.mem_cons_of_mem _ ho')
    refine hrest.trans ?_
    obtain ⟨j, p, hp⟩ := List.exists_cons_of_ne_nil hpath
    rw [hp] at hhead ⊢
    have hjk : j ≠ k := fun h => hhead (congrArg some h)
    apply at?_replaceAt_apart
    · exact fun h => hjk (List.cons_prefix_cons.mp h).1
    · exact fun h => hjk (List.cons_prefix_cons.mp h).1.symm

theorem replaced_object (hpaths : ∀ o ∈ ops, o.path ≠ []) (d : Dict PyStr Json) :
    ∃ e, replaced (.object d) ops = .object e := by
  induction ops generalizing d with
  | nil => exact ⟨d, rfl⟩
  | cons o ops ih =>
    obtain ⟨k, p, hp⟩ := List.exists_cons_of_ne_nil (hpaths o List.mem_cons_self)
    have hstep : replaced (.object d) (o :: ops) =
        replaced (replaceAt (.object d) o.path o.value) ops := rfl
    rw [hstep, hp, replaceAt_cons rfl]
    exact ih (fun o' ho' => hpaths o' (List.mem_cons_of_mem _ ho')) _

/-- The last operation at a name. -/
theorem last_or_none (ops : List Operation) (k : PyStr) :
    (∀ o ∈ ops, o.path.head? ≠ some k) ∨ ∃ before o after, ops = before ++ o :: after ∧
      o.path.head? = some k ∧ ∀ o' ∈ after, o'.path.head? ≠ some k := by
  induction ops with
  | nil => exact .inl nofun
  | cons o ops ih =>
    obtain h | ⟨before, o', after, rfl, ho', hafter⟩ := ih
    · by_cases ho : o.path.head? = some k
      · exact .inr ⟨[], o, ops, rfl, ho, h⟩
      · exact .inl (List.forall_mem_cons.mpr ⟨ho, h⟩)
    · exact .inr ⟨o :: before, o', after, rfl, ho', hafter⟩

/-- Below a name the merge does what the last operation there does, but merges its value. -/
theorem at?_merge_group {before after : List Operation} (hpath : o.path = k :: p)
    (hafter : ∀ o' ∈ after, o'.path.head? ≠ some k) (d : Dict PyStr Json) (q : List PyStr) :
    at? (actionDictMergeUpdate (.object d) (.object (patchDictInner (before ++ o :: after))))
        (k :: q) =
      at? (replaceAt (.object d) o.path
        ((at? (.object d) o.path).elim o.value fun old => actionDictMergeUpdate old o.value))
        (k :: q) := by
  have hsingle : (Dict.keys [(k, nest p o.value)]).Nodup := List.nodup_singleton k
  rw [← merge_nest, hpath]
  show at? (actionDictMergeUpdate _ _) _ =
    at? (actionDictMergeUpdate _ (.object [(k, nest p o.value)])) _
  rw [merge_object, merge_object, at?_object, at?_object,
    get?_mergeEntries (nodup_patchDictInner _),
    get?_mergeEntries hsingle, get?_patchDictInner hpath hafter, Dict.get?, if_pos rfl]

/-- Below a name nothing happens after the last operation there. -/
theorem at?_replaced_group {before after : List Operation}
    (hafter : ∀ o' ∈ after, o'.path ≠ [] ∧ o'.path.head? ≠ some k) (x : Json) (q : List PyStr) :
    at? (replaced x (before ++ o :: after)) (k :: q) =
      at? (replaceAt (replaced x before) o.path o.value) (k :: q) := by
  rw [replaced_append]
  exact at?_replaced_of_ne hafter

theorem same_elim_merge_iff {stored : Option Json} (hv : Loaded v) :
    Same (stored.elim v fun old => actionDictMergeUpdate old v) v ↔
      ∀ old, stored = some old → Covers old v := by
  cases stored with
  | none => exact iff_of_true (.refl v) nofun
  | some old =>
    exact (same_merge_iff hv).trans ⟨fun h _ hold => Option.some.inj hold ▸ h, fun h => h _ rfl⟩

/-- Below a name the merge is what the operations do when the last operation there counts. -/
theorem sameAt_group_iff {before after : List Operation} {d : Dict PyStr Json}
    (hops : ∀ o' ∈ before ++ o :: after, o'.path ≠ [] ∧ Loaded o'.value) (hpath : o.path = k :: p)
    (hafter : ∀ o' ∈ after, o'.path.head? ≠ some k) :
    (∀ q, q.head? = some k → SameAt
        (actionDictMergeUpdate (.object d) (.object (patchDictInner (before ++ o :: after))))
        (replaced (.object d) (before ++ o :: after)) q) ↔
      (∀ old, at? (.object d) o.path = some old → Covers old o.value) ∧
        ∀ q, q.head? = some k → ¬o.path <+: q → ¬q <+: o.path →
          SameAt (replaced (.object d) before) (.object d) q := by
  have hloaded := (hops o (by simp)).2
  have hrest : ∀ o' ∈ after, o'.path ≠ [] ∧ o'.path.head? ≠ some k := fun o' ho' =>
    ⟨(hops o' (by simp [ho'])).1, hafter o' ho'⟩
  have hreplace : (∀ q, q.head? = some k → SameAt
        (actionDictMergeUpdate (.object d) (.object (patchDictInner (before ++ o :: after))))
        (replaced (.object d) (before ++ o :: after)) q) ↔
      ∀ q, q.head? = some k → SameAt
        (replaceAt (.object d) o.path ((at? (.object d) o.path).elim o.value fun old =>
          actionDictMergeUpdate old o.value))
        (replaceAt (replaced (.object d) before) o.path o.value) q := by
    refine forall_congr' fun q => forall_congr' fun hq => ?_
    obtain ⟨q, rfl⟩ := List.head?_eq_some_iff.mp hq
    rw [SameAt, at?_merge_group hpath hafter, at?_replaced_group hrest]
    rfl
  have hbelow : ∀ r, (o.path ++ r).head? = some k := fun r => by rw [hpath]; rfl
  rw [hreplace, same_replaceAt_iff hbelow, same_elim_merge_iff hloaded]
  refine and_congr_right fun _ => forall_congr' fun q => ?_
  exact imp_congr_right fun _ => imp_congr_right fun _ => imp_congr_right fun _ => eq_comm

/-- The merge of the dictionary of all operations is what the operations do one after the other,
when of those at one name the last one counts. -/
theorem same_merge_replaced_iff (hops : ∀ o ∈ ops, o.path ≠ [] ∧ Loaded o.value)
    (d : Dict PyStr Json) :
    Same (actionDictMergeUpdate (.object d) (.object (patchDictInner ops)))
        (replaced (.object d) ops) ↔ LastCounts (.object d) ops := by
  constructor
  · rintro h before o after rfl hafter
    obtain ⟨k, p, hpath⟩ := List.exists_cons_of_ne_nil (hops o (by simp)).1
    have hhead : o.path.head? = some k := by rw [hpath]; rfl
    rw [hhead] at hafter ⊢
    exact (sameAt_group_iff hops hpath hafter).mp fun q _ => h q
  · intro h q
    cases q with
    | nil =>
      obtain ⟨e, he⟩ := replaced_object (fun o ho => (hops o ho).1) d
      rw [SameAt, he]
      rfl
    | cons k q =>
      obtain hnone | ⟨before, o, after, rfl, hhead, hafter⟩ := last_or_none ops k
      · have hget : Dict.get? (patchDictInner ops) k = none := get?_patchDictInner_append [] hnone
        rw [SameAt, at?_replaced_of_ne fun o ho => ⟨(hops o ho).1, hnone o ho⟩, merge_object,
          at?_object, get?_mergeEntries (nodup_patchDictInner ops), hget]
        rfl
      · obtain ⟨p, hpath⟩ := List.head?_eq_some_iff.mp hhead
        have hcounts := h before o after rfl (hhead ▸ hafter)
        rw [hhead] at hcounts
        exact (sameAt_group_iff hops hpath hafter).mpr hcounts (k :: q) rfl

/-! ## Requests with an id in the URL -/

/-- The documents of existing actions are dictionaries. -/
theorem getSingleActionContent_object {id : Int} {info : Json}
    (hexists : checkActionExists s id = .ok true)
    (h : getSingleActionContent env s id = .ok info) : ∃ d, info = .object d := by
  obtain ⟨actionId, harg, h⟩ := bind_ok h
  have harg := raises_ok.mp harg
  rw [checkActionExists, harg] at hexists
  have hpos : checkActionIfExist s actionId > 0 := of_decide_eq_true (Except.ok.inj hexists)
  rw [checkActionIfExist] at hpos
  split at hpos
  next hvalid =>
    rw [getActionConfig, if_pos hvalid] at h
    obtain ⟨basis, -, h⟩ := bind_ok h
    exact ⟨_, (Except.ok.inj h).symm⟩
  next => omega

theorem getAction_single {n : Nat} {originDict : Dict PyStr Json}
    (h : getAction env s [py (toString n)] = .ok (some originDict)) :
    ∃ d, originDict = [(py (toString n), .object d)] := by
  obtain ⟨id, hid, h⟩ := bind_ok (show getActions env s [py (toString n)] [] = _ from h)
  obtain rfl := intStr_toString_ok (raises_ok.mp hid)
  obtain ⟨found, hfound, h⟩ := bind_ok h
  split at h
  next hexists =>
    subst hexists
    obtain ⟨info, hinfo, h⟩ := bind_ok h
    obtain ⟨d, rfl⟩ := getSingleActionContent_object (raises_ok.mp hfound) hinfo
    obtain rfl := Option.some.inj (Except.ok.inj h)
    exact ⟨d, rfl⟩
  next => cases h

theorem patchBase_cases {args : Option PyStr} {base : List PyStr}
    (h : patchBase env args = .ok base) : base = [] ∨ ∃ n : Nat, base = [py (toString n)] := by
  unfold patchBase at h
  cases args with
  | none => exact .inl (Except.ok.inj h).symm
  | some arg =>
    dsimp only at h
    split at h
    · cases h
    · cases hint : intStr env ((arg.splitOn 47).headD []) with
      | error e =>
        rw [hint] at h
        cases h
      | ok id =>
        rw [hint] at h
        exact .inr ⟨id.toNat, (Except.ok.inj h).symm⟩

/-- A dictionary with one key is the same as another one with it when the values are. -/
theorem same_single_iff : Same (Json.object [(k, x)]) (.object [(k, y)]) ↔ Same x y := by
  have hbelow (z : Json) (q : List PyStr) : at? (Json.object [(k, z)]) (k :: q) = at? z q := by
    rw [at?_object, Dict.get?, if_pos rfl]
    rfl
  constructor
  · intro h q
    have hq := h (k :: q)
    rwa [SameAt, hbelow, hbelow] at hq
  · intro h q
    cases q with
    | nil => rfl
    | cons j q =>
      by_cases hk : k = j
      · subst hk
        rw [SameAt, hbelow, hbelow]
        exact h q
      · rw [SameAt, at?_object, at?_object]
        simp only [Dict.get?, if_neg hk]

theorem replaced_under (x : Json) (ops : List Operation) :
    replaced (.object [(k, x)])
      (ops.map (Operation.under [k])) = .object [(k, replaced x ops)] := by
  induction ops generalizing x with
  | nil => rfl
  | cons o ops ih =>
    rw [List.map_cons]
    show replaced (replaceAt (Json.object [(k, x)]) (k :: o.path) o.value) _ = _
    have hstep : replaceAt (Json.object [(k, x)]) (k :: o.path) o.value =
        .object [(k, replaceAt x o.path o.value)] := by
      rw [replaceAt_cons rfl, Dict.get?, if_pos rfl, Dict.set_cons_self]
      rfl
    rw [hstep, ih]
    rfl

/-- The document that a request writes. -/
theorem patchDocument_eq {args : Option PyStr} {body : Option Json} {base : List PyStr}
    {originDict : Dict PyStr Json} (hbody : actionDecodeRequestPathBody body = .ok ops)
    (hbase : patchBase env args = .ok base)
    (horigin : getAction env s (Dict.keys (patchDict base ops)) = .ok (some originDict)) :
    patchDocument env s args body =
      .ok (actionDictMergeUpdate (.object originDict) (.object (patchDict base ops))) := by
  rw [patchDocument, hbody]
  dsimp only
  refine (bind_of_ok hbase _).trans ?_
  rw [horigin]

/-- A request writes the document that its operations make of the stored one exactly when, of the
operations whose paths start with the same name, the last one is all that counts. -/
theorem patch_replaces_iff {args : Option PyStr} {body : Option Json} {base : List PyStr}
    {originDict : Dict PyStr Json} (hbody : actionDecodeRequestPathBody body = .ok ops)
    (hbase : patchBase env args = .ok base)
    (horigin : getAction env s (Dict.keys (patchDict base ops)) = .ok (some originDict)) :
    ∃ doc, patchDocument env s args body = .ok doc ∧
      patch env s args body =
        (updateActionContent env "put" s doc).map (fun r => (r.1, .ofUpdate r.2)) ∧
      (Same doc (replaced (.object originDict) (ops.map (Operation.under base))) ↔
        ∀ stored, at? (Json.object originDict) base = some stored → LastCounts stored ops) := by
  have hops := decode_ok hbody
  have hpatch := patchDocument_eq hbody hbase horigin
  refine ⟨_, hpatch, by rw [patch, hpatch], ?_⟩
  obtain rfl | ⟨n, rfl⟩ := patchBase_cases hbase
  · have hunder : ops.map (Operation.under []) = ops := List.map_id ops
    rw [hunder, patchDict, same_merge_replaced_iff hops]
    exact ⟨fun h _ hstored => Option.some.inj hstored ▸ h, fun h => h _ rfl⟩
  · obtain ⟨d, rfl⟩ := getAction_single horigin
    have hmerge : actionDictMergeUpdate (.object [(py (toString n), .object d)])
        (.object (patchDict [py (toString n)] ops)) = .object [(py (toString n),
          actionDictMergeUpdate (.object d) (.object (patchDictInner ops)))] := by
      rw [patchDict, merge_object, mergeEntries, mergeEntries, Dict.get?, if_pos rfl,
        Dict.set_cons_self]
      rfl
    rw [hmerge, replaced_under, same_single_iff, same_merge_replaced_iff hops]
    have hstored : at? (Json.object [(py (toString n), .object d)]) [py (toString n)] =
        some (.object d) := by
      rw [at?_object, Dict.get?, if_pos rfl]
      rfl
    rw [hstored]
    exact ⟨fun h _ hd => Option.some.inj hd ▸ h, fun h => h _ rfl⟩

/-- All actions forward to the first interface. -/
def forwardConf : Conf :=
  ⟨fun _ => { resetActionConfigStruct with refCounter := 1, type := 2, forwardInterfaceId := 1 }⟩

def forwardDoc : Dict PyStr Json :=
  [(py "basis_actions", .object [(py "type", .str (py "forward")),
    (py "interfaces", .array [.str (py "G1")])])]

theorem forwardConf_doc : getAction fourPorts forwardConf [py (toString 1)] =
    .ok (some [(py (toString 1), .object forwardDoc)]) := rfl

def replaceBody (path : String) (value : Json) : Json :=
  .object [(py "op", .str (py "replace")), (py "path", .str (py path)), (py "value", value)]

def toSecond : Operation := ⟨[py "basis_actions", py "interfaces"], .array [.str (py "G2")]⟩

def forwardAgain : Operation := ⟨[py "basis_actions", py "type"], .str (py "forward")⟩

def forwardTo (name : String) : Dict PyStr Json :=
  [(py "type", .str (py "forward")), (py "interfaces", .array [.str (py name)])]

def basisSecond : Operation := ⟨[py "basis_actions"], .object (forwardTo "G2")⟩

def toThird : Operation := ⟨[py "basis_actions", py "interfaces"], .array [.str (py "G3")]⟩

theorem lastCounts_third : LastCounts (.object forwardDoc) [basisSecond, toThird] := by
  intro before o after hops hafter
  match before, hops with
  | [], hops =>
    obtain ⟨rfl, rfl⟩ := List.cons.inj hops
    exact absurd rfl (hafter toThird List.mem_cons_self)
  | [b], hops =>
    obtain ⟨rfl, hlast⟩ := List.cons.inj hops
    obtain ⟨rfl, -⟩ := List.cons.inj (show [toThird] = o :: after from hlast)
    refine ⟨fun old hold q d e hd => ?_, fun q hhead hbelow habove => ?_⟩
    · obtain rfl := Option.some.inj (show some (Json.array [.str (py "G1")]) = some old from hold)
      cases q with
      | nil => cases hd
      | cons k q => cases hd
    · obtain ⟨q, rfl⟩ := List.head?_eq_some_iff.mp hhead
      cases q with
      | nil => exact absurd ⟨_, rfl⟩ habove
      | cons k q =>
        have hne : py "interfaces" ≠ k := by
          rintro rfl
          exact hbelow ⟨q, rfl⟩
        have hget (name : String) : Dict.get? (forwardTo name) k =
            if py "type" = k then some (.str (py "forward")) else none := by
          rw [forwardTo, Dict.get?, Dict.get?, if_neg hne]
          rfl
        have hat (name : String) :
          at? (Json.object [(py "basis_actions", .object (forwardTo name))])
            (py "basis_actions" :: k :: q) = (Dict.get? (forwardTo name) k).bind (at? · q) := rfl
        show Option.map leaf? (at? (Json.object [(_, Json.object (forwardTo "G2"))]) _) =
          Option.map leaf? (at? (Json.object [(_, Json.object (forwardTo "G1"))]) _)
        rw [hat, hat, hget, hget]
  | _ :: _ :: b :: before, hops => cases (List.cons.inj (List.cons.inj hops).2).2

def basisThenInterfaces : Json :=
  .array [replaceBody "/basis_actions" (.object (forwardTo "G2")),
    replaceBody "/basis_actions/interfaces" (.array [.str (py "G3")])]

/-- The paths of the operations start with the same name, and the second one is all that counts. -/
theorem patch_replaces_iff_third : ∃ doc,
    patchDocument fourPorts forwardConf (some (py "1")) (some basisThenInterfaces) = .ok doc ∧
    patch fourPorts forwardConf (some (py "1")) (some basisThenInterfaces) =
      (updateActionContent fourPorts "put" forwardConf doc).map (fun r => (r.1, .ofUpdate r.2)) ∧
    Same doc (replaced (.object [(py (toString 1), .object forwardDoc)])
      ([basisSecond, toThird].map (Operation.under [py (toString 1)]))) := by
  obtain ⟨doc, hdoc, hpatch, hiff⟩ := @patch_replaces_iff fourPorts forwardConf
    [basisSecond, toThird] (some (py "1")) (some basisThenInterfaces) [py (toString 1)] _
    rfl rfl forwardConf_doc
  refine ⟨doc, hdoc, hpatch, hiff.mpr fun stored hstored => ?_⟩
  obtain rfl := Option.some.inj (show some (Json.object forwardDoc) = some stored from hstored)
  exact lastCounts_third

/-- Of two operations on one dictionary the first one is lost. -/
theorem earlier_operation_lost :
    ¬∀ env s args body ops base originDict, actionDecodeRequestPathBody body = .ok ops →
      patchBase env args = .ok base →
      getAction env s (Dict.keys (patchDict base ops)) = .ok (some originDict) →
      ∃ doc, patchDocument env s args body = .ok doc ∧
        Same doc (replaced (.object originDict) (ops.map (Operation.under base))) := by
  intro claim
  have hbody : actionDecodeRequestPathBody
      (some (.array [replaceBody "/basis_actions/interfaces" (.array [.str (py "G2")]),
        replaceBody "/basis_actions/type" (.str (py "forward"))])) =
      .ok [toSecond, forwardAgain] := rfl
  have hbase : patchBase fourPorts (some (py "1")) = .ok [py (toString 1)] := rfl
  obtain ⟨doc, hdoc, hsame⟩ := claim fourPorts forwardConf _ _ _ _ _ hbody hbase forwardConf_doc
  have hmerge : actionDictMergeUpdate (.object [(py (toString 1), .object forwardDoc)])
      (.object (patchDict [py (toString 1)] [toSecond, forwardAgain])) =
      .object [(py (toString 1), .object forwardDoc)] := rfl
  rw [patchDocument_eq hbody hbase forwardConf_doc, hmerge] at hdoc
  obtain rfl := Except.ok.inj hdoc
  have hstored := hsame [py (toString 1), py "basis_actions", py "interfaces"]
  have hleft : at? (Json.object [(py (toString 1), .object forwardDoc)])
      [py (toString 1), py "basis_actions", py "interfaces"] =
        some (.array [.str (py "G1")]) := rfl
  have hright : at? (replaced (.object [(py (toString 1), .object forwardDoc)])
      ([toSecond, forwardAgain].map (Operation.under [py (toString 1)])))
      [py (toString 1), py "basis_actions", py "interfaces"] =
        some (.array [.str (py "G2")]) := rfl
  rw [SameAt, hleft, hright] at hstored
  have hname := Json.array.inj (Option.some.inj (Option.some.inj hstored))
  exact absurd (Json.str.inj (List.cons.inj hname).1) (by decide)

end Tapplet.Actions
