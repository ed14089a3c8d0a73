import Tapplet.Lib.Run
import Tapplet.Intf.Restore

/-!
# The interfaces that requests leave

Whatever the requests write, an interface has a type with a name, actions that are numbers of
actions, and an output of the reassembly that is on or off.
-/

namespace Tapplet.Intf

open Rest Actions

variable {env : Env} {P : Interface → Prop}

/-- The write leaves interfaces with `P` if every interface had it. -/
def Keeps (P : Interface → Prop) (write : Conf → Written) : Prop :=
  ∀ s, (∀ i, P (s i)) → ∀ i, P ((write s).1 i)

theorem update_keeps {s : Conf} (hs : ∀ i, P (s i)) (j : Nat) {x : Interface} (hx : P x) :
    ∀ i, P (Function.update s j x i) :=
  (Function.forall_update_iff s fun _ x => P x).mpr ⟨hx, fun i _ => hs i⟩

theorem setAt_keeps {s : Conf} (hs : ∀ i, P (s i)) (index : Int)
    {f : Interface → Interface × Int} (hf : ∀ x, P x → P (f x).1) :
    ∀ i, P ((setAt s index f).1 i) := by
  rw [setAt]
  split
  next => exact hs
  next => exact update_keeps hs index.toNat (hf _ (hs _))

theorem writeNumber_keeps {set : Conf → Int → Conf × Int}
    (h : ∀ s value, (∀ i, P (s i)) → ∀ i, P ((set s value).1 i)) (v : Json) :
    Keeps P fun s => writeNumber env s v (set s) := by
  intro s hs
  dsimp only
  rw [writeNumber]
  cases (pyInt env v >>= cArg).mapError Raised.py with
  | ok value => exact h s value hs
  | error e => exact hs

theorem writeText_keeps {set : Conf → String → Conf × Int}
    (h : ∀ s text, (∀ i, P (s i)) → ∀ i, P ((set s text).1 i)) (v : Json) :
    Keeps P fun s => writeText s v (set s) := by
  intro s hs
  dsimp only
  rw [writeText]
  cases encodeUtf8 v with
  | ok text => exact h s text hs
  | error e => exact hs

theorem writeKeys_keeps {write : Conf → PyStr → Json → Written}
    (h : ∀ key v, Keeps P fun s => write s key v) (entries : List (PyStr × Json)) :
    Keeps P fun s => writeKeys write s entries := by
  induction entries with
  | nil => exact fun s hs => hs
  | cons e entries ih =>
      intro s hs
      have hhead := h e.1 e.2 s hs
      dsimp only at hhead ⊢
      rw [writeKeys]
      split
      next t heq =>
        rw [heq] at hhead
        exact ih t hhead
      next => exact hhead

theorem writeDict_keeps {write : Conf → PyStr → Json → Written}
    (h : ∀ key v, Keeps P fun s => write s key v) (v : Json) :
    Keeps P fun s => writeDict write s v := by
  intro s hs
  dsimp only
  unfold writeDict
  split
  next members => exact writeKeys_keeps h _ s hs
  next => exact hs

theorem ite_keeps {c : Prop} [Decidable c] {a b : Written} (ha : ∀ i, P (a.1 i))
    (hb : ∀ i, P (b.1 i)) : ∀ i, P ((if c then a else b).1 i) := by
  split
  next => exact ha
  next => exact hb

/-! ## The setters -/

section Setters

variable {s : Conf} (hs : ∀ i, (s i).Stored)
include hs

theorem setNumber_stored (index value : Int) {f : Interface → UInt8 → Interface}
    (hf : ∀ x v, x.Stored → (f x v).Stored) : ∀ i, ((setNumber s index value f).1 i).Stored :=
  setAt_keeps hs index fun x hx => hf x _ hx

theorem setIp_stored {n : Nat} (index : Int) (isIpv6 : Bool) (text : String)
    {f : Interface → (Fin n → UInt8) → Interface} (hf : ∀ x a, x.Stored → (f x a).Stored) :
    ∀ i, ((setIp env s index isIpv6 text f).1 i).Stored := by
  apply setAt_keeps hs index
  intro x hx
  split
  next => exact hf x _ hx
  next => exact hx

theorem setIngressRuleToAction_stored (index ruleId actionId : Int) :
    ∀ i, ((setIngressRuleToAction s index ruleId actionId).1 i).Stored := by
  apply setAt_keeps hs index
  intro x hx
  split
  next =>
    split
    next => exact hx
    next hle =>
      refine ⟨hx.type_le, ?_, hx.output_le⟩
      intro k
      dsimp only
      rw [Function.update_apply]
      split
      next => exact Nat.not_lt.mp hle
      next => exact hx.actions k
  next => exact hx

theorem ipReassSetMaxLayer_stored (index layers : Int) :
    ∀ i, ((ipReassSetMaxLayer s index layers).1 i).Stored := by
  have hx := hs index.toNat
  exact update_keeps hs index.toNat ⟨hx.type_le, hx.actions, hx.output_le⟩

theorem ipReassSetReassOutput_stored (index enable : Int) :
    ∀ i, ((ipReassSetReassOutput s index enable).1 i).Stored := by
  have hx := hs index.toNat
  have hle : (if enable ≠ 0 then (1 : UInt8) else 0) ≤ 1 := by
    split
    next => decide
    next => decide
  exact update_keeps hs index.toNat ⟨hx.type_le, hx.actions, hle⟩

theorem clearRules_stored (index : Nat) (rules : List Nat) :
    ∀ i, ((clearRules index s rules).1 i).Stored := by
  induction rules generalizing s with
  | nil => exact hs
  | cons r rules ih =>
      have hset := setIngressRuleToAction_stored hs index r 0
      rw [clearRules]
      split
      next => exact hset
      next => exact ih hset

end Setters

/-! ## Requests -/

theorem writeNumber_stored (index : Int) {f : Interface → UInt8 → Interface}
    (hf : ∀ x v, x.Stored → (f x v).Stored) (v : Json) :
    Keeps Interface.Stored fun s => writeNumber env s v fun value => setNumber s index value f :=
  writeNumber_keeps (fun _ value hs => setNumber_stored hs index value hf) v

theorem writeIp_stored {n : Nat} (index : Int) (isIpv6 : Bool)
    {f : Interface → (Fin n → UInt8) → Interface} (hf : ∀ x a, x.Stored → (f x a).Stored)
    (v : Json) :
    Keeps Interface.Stored fun s => writeText s v fun text => setIp env s index isIpv6 text f :=
  writeText_keeps (fun _ text hs => setIp_stored hs index isIpv6 text hf) v

theorem writeRule_stored (index : Nat) (ruleId : PyStr) (v : Json) :
    Keeps Interface.Stored fun s => writeRule env index s ruleId v := by
  intro s hs
  dsimp only
  rw [writeRule]
  cases ruleArgs env ruleId v with
  | ok args => exact setIngressRuleToAction_stored hs index args.1 args.2
  | error e => exact hs

theorem updateSingleIngressConfigInternal_stored (index : Nat) (key : PyStr) (v : Json) :
    Keeps Interface.Stored fun s => updateSingleIngressConfigInternal env index s key v := by
  intro s hs
  apply ite_keeps
  · refine writeNumber_stored index ?_ v s hs
    exact fun x v hx => ⟨hx.type_le, hx.actions, hx.output_le⟩
  apply ite_keeps
  · refine writeNumber_stored index ?_ v s hs
    exact fun x v hx => ⟨hx.type_le, hx.actions, hx.output_le⟩
  apply ite_keeps
  · split
    next => exact clearRules_stored hs index _
    next => exact writeDict_keeps (writeRule_stored index) v s hs
  · exact hs

theorem updateSingleIpReassConfigInternal_stored (index : Nat) (key : PyStr) (v : Json) :
    Keeps Interface.Stored fun s => updateSingleIpReassConfigInternal env index s key v := by
  intro s hs
  apply ite_keeps
  · exact writeNumber_keeps (fun s value hs => ipReassSetMaxLayer_stored hs index value) v s hs
  apply ite_keeps
  · exact writeNumber_keeps (fun s value hs => ipReassSetReassOutput_stored hs index value) v s hs
  · exact hs

/-- A type that has a name is small. -/
theorem intfTypeOf_ok {v : Json} {i : Int} (h : intfTypeOf v = .ok i) : uint8 i ≤ 4 := by
  unfold intfTypeOf at h
  split at h
  next name =>
    split at h
    next j hget =>
      cases h
      have hall : ∀ e ∈ intfTypeDict, uint8 e.2 ≤ 4 := by decide +kernel
      exact hall _ (Dict.mem_of_get? hget)
    next => cases h
  all_goals cases h

theorem updateSingleInterfaceConfigInternal_stored (index : Nat) (key : PyStr) (v : Json) :
    Keeps Interface.Stored fun s => updateSingleInterfaceConfigInternal env index s key v := by
  intro s hs
  apply ite_keeps
  · refine writeNumber_stored index ?_ v s hs
    exact fun x v hx => ⟨hx.type_le, hx.actions, hx.output_le⟩
  apply ite_keeps
  · exact hs
  apply ite_keeps
  · apply writeText_keeps _ v s hs
    intro s text hs
    exact setAt_keeps hs _ fun x hx => ⟨hx.type_le, hx.actions, hx.output_le⟩
  apply ite_keeps
  · split
    next i hi =>
      exact setAt_keeps hs _ fun x hx => ⟨intfTypeOf_ok hi, hx.actions, hx.output_le⟩
    next => exact hs
  apply ite_keeps
  · apply writeText_keeps _ v s hs
    intro s text hs
    exact setAt_keeps hs _ fun x hx => ⟨hx.type_le, hx.actions, hx.output_le⟩
  apply ite_keeps
  · refine writeIp_stored index _ ?_ v s hs
    exact fun x a hx => ⟨hx.type_le, hx.actions, hx.output_le⟩
  apply ite_keeps
  · refine writeIp_stored index _ ?_ v s hs
    exact fun x a hx => ⟨hx.type_le, hx.actions, hx.output_le⟩
  apply ite_keeps
  · refine writeNumber_stored index ?_ v s hs
    exact fun x v hx => ⟨hx.type_le, hx.actions, hx.output_le⟩
  apply ite_keeps
  · refine writeIp_stored index _ ?_ v s hs
    exact fun x a hx => ⟨hx.type_le, hx.actions, hx.output_le⟩
  apply ite_keeps
  · refine writeIp_stored index _ ?_ v s hs
    exact fun x a hx => ⟨hx.type_le, hx.actions, hx.output_le⟩
  apply ite_keeps
  · exact writeDict_keeps (updateSingleIngressConfigInternal_stored index) v s hs
  apply ite_keeps
  · exact writeDict_keeps (updateSingleIpReassConfigInternal_stored index) v s hs
  · exact hs

theorem updateSingleInterfaceConfig_stored (index : Nat) (config : Json) :
    Keeps Interface.Stored fun s => updateSingleInterfaceConfig env s index config := by
  intro s hs
  apply ite_keeps
  · exact hs
  apply ite_keeps
  · exact hs
  · exact writeDict_keeps (updateSingleInterfaceConfigInternal_stored index) config s hs

theorem updateInterfaceConfig_stored (config : Dict PyStr Json) :
    Keeps Interface.Stored fun s => updateInterfaceConfig env s config := by
  intro s hs
  apply ite_keeps
  · exact hs
  · exact writeKeys_keeps (fun name v => updateSingleInterfaceConfig_stored _ v) config s hs

/-- A request that writes: of several interfaces, of one, and the reset. -/
inductive Request where
  | put (config : Dict PyStr Json)
  | putOne (index : Nat) (config : Json)
  | reset

/-- What a request leaves, also one that is refused or ends in an exception. -/
def Request.next (env : Env) (s : Conf) : Request → Conf
  | .put config => (updateInterfaceConfig env s config).1
  | .putOne index config => (updateSingleInterfaceConfig env s index config).1
  | .reset => resetConfig s

/-- The interfaces that requests leave of reset ones. A request calls `set_interface_mac_addr` at
most once for an interface, and what each call finds on the stack is its own. -/
def Reached (env : Env) (requests : List Request) (s : Conf) : Prop :=
  ∃ s₀, Transition.Run (fun s request t => ∃ temp, t = request.next { env with temp } s)
    (resetConfig s₀) requests s

theorem resetConfig_stored (s : Conf) (i : Nat) : (resetConfig s i).Stored :=
  ⟨UInt8.zero_le, fun _ => Nat.zero_le _, UInt8.zero_le⟩

theorem Request.next_stored {s : Conf} (hs : ∀ i, (s i).Stored) (request : Request) :
    ∀ i, (request.next env s i).Stored := by
  cases request with
  | put config => exact updateInterfaceConfig_stored config s hs
  | putOne index config => exact updateSingleInterfaceConfig_stored index config s hs
  | reset => exact resetConfig_stored s

theorem Reached.stored {requests : List Request} {s : Conf} (h : Reached env requests s) :
    ∀ i, (s i).Stored := by
  obtain ⟨s₀, hrun⟩ := h
  apply hrun.invariant (I := fun s => ∀ i, (s i).Stored) (resetConfig_stored s₀)
  rintro s request _ hs ⟨temp, rfl⟩
  exact request.next_stored hs

end Tapplet.Intf
