import Mathlib.Data.List.Induction
import Mathlib.Tactic.Common

/-!
# Resources that are taken and given back

A log of what a program does with resources that it takes from a pool, uses and gives back.
`ReturnedOnce r log` says that the resource `r` is given back exactly once in the log and
that nothing is done with it afterwards. `status` reads the log of one resource as a state
machine, so that a log can be extended at its end without looking at what came before.
-/

namespace Lease

variable {ρ : Type*}

inductive Event (ρ : Type*) where
  | take (r : ρ)
  | use (r : ρ)
  | give (r : ρ)
deriving DecidableEq

/-- The resource an event is about. -/
def Event.resource : Event ρ → ρ
  | .take r | .use r | .give r => r

/-- The resource is given back once, and left alone afterwards. -/
def ReturnedOnce (r : ρ) (log : List (Event ρ)) : Prop :=
  ∃ before after, log = before ++ .give r :: after ∧
    .give r ∉ before ∧ ∀ e ∈ after, e.resource ≠ r

inductive Status where
  | held
  | returned
  | broken
deriving DecidableEq

variable [DecidableEq ρ]

/-- What an event makes of a resource that was taken. -/
def Status.next (r : ρ) (s : Status) (e : Event ρ) : Status :=
  if e.resource = r then
    match s, e with
    | .held, .give _ => .returned
    | .held, _ => .held
    | _, _ => .broken
  else s

/-- The status after a log, from a resource that is held. -/
def status (r : ρ) (log : List (Event ρ)) : Status := log.foldl (Status.next r) .held

@[simp] theorem status_append (r : ρ) (log more : List (Event ρ)) :
    status r (log ++ more) = more.foldl (Status.next r) (status r log) :=
  List.foldl_append

@[simp] theorem next_take (r : ρ) (s : Status) :
    s.next r (.take r) = if s = .held then .held else .broken := by
  cases s <;> simp [Status.next, Event.resource]

@[simp] theorem next_use (r : ρ) (s : Status) :
    s.next r (.use r) = if s = .held then .held else .broken := by
  cases s <;> simp [Status.next, Event.resource]

@[simp] theorem next_give (r : ρ) (s : Status) :
    s.next r (.give r) = if s = .held then .returned else .broken := by
  cases s <;> simp [Status.next, Event.resource]

theorem next_of_ne {r : ρ} {e : Event ρ} (h : e.resource ≠ r) (s : Status) : s.next r e = s := by
  simp [Status.next, h]

/-- A resource that is held was never given back. -/
theorem status_held_iff {r : ρ} {log : List (Event ρ)} :
    status r log = .held ↔ .give r ∉ log := by
  induction log using List.reverseRecOn with
  | nil => simp [status]
  | append_singleton log e ih =>
      rw [status_append, List.foldl_cons, List.foldl_nil, List.mem_append, List.mem_singleton,
        not_or, ← ih]
      by_cases he : e.resource = r
      · obtain r' | r' | r' := e <;> obtain rfl : r' = r := he
        · simp
        · simp
        · rw [next_give]
          split <;> simp
      · rw [next_of_ne he]
        have hne : .give r ≠ e := by
          rintro rfl
          exact he rfl
        simp [hne]

/-- The state machine decides whether a resource was returned once. -/
theorem status_returned_iff {r : ρ} {log : List (Event ρ)} :
    status r log = .returned ↔ ReturnedOnce r log := by
  induction log using List.reverseRecOn with
  | nil => simp [status, ReturnedOnce]
  | append_singleton log e ih =>
      rw [status_append, List.foldl_cons, List.foldl_nil]
      constructor
      · intro h
        by_cases he : e.resource = r
        · obtain r' | r' | r' := e <;> obtain rfl : r' = r := he
          · rw [next_take] at h
            split at h <;> cases h
          · rw [next_use] at h
            split at h <;> cases h
          · rw [next_give] at h
            split at h
            next hheld => exact ⟨log, [], rfl, status_held_iff.mp hheld, by simp⟩
            next => cases h
        · rw [next_of_ne he] at h
          obtain ⟨before, after, rfl, hbefore, hafter⟩ := ih.mp h
          refine ⟨before, after ++ [e], by simp, hbefore, fun e' he' => ?_⟩
          obtain he' | he' := List.mem_append.mp he'
          · exact hafter e' he'
          · exact List.mem_singleton.mp he' ▸ he
      · rintro ⟨before, after, hlog, hbefore, hafter⟩
        obtain rfl | ⟨after, last, rfl⟩ := List.eq_nil_or_concat after
        · obtain ⟨rfl, hlast⟩ := List.append_inj' hlog rfl
          obtain rfl := List.singleton_inj.mp hlast
          rw [next_give, if_pos (status_held_iff.mpr hbefore)]
        · rw [List.concat_eq_append] at hlog hafter
          rw [← List.cons_append, ← List.append_assoc] at hlog
          obtain ⟨rfl, hlast⟩ := List.append_inj' hlog rfl
          obtain rfl := List.singleton_inj.mp hlast
          have he := hafter e (List.mem_append_right _ (List.mem_singleton_self _))
          rw [next_of_ne he, ih]
          exact ⟨before, after, rfl, hbefore,
            fun e' he' => hafter e' (List.mem_append_left _ he')⟩

end Lease
