import Mathlib.Data.List.Nodup
import Mathlib.Data.List.Perm.Basic
import Mathlib.Tactic.Common

/-!
# Dictionaries in insertion order

A dictionary is the list of its entries, oldest first. Setting a key that is there replaces
its value in place, and a new key goes to the end, so the entries of a dictionary that is
filled key by key are the keys in the order in which they came.
-/

abbrev Dict (κ ν : Type*) := List (κ × ν)

namespace Dict

variable {κ ν : Type*}

def keys (d : Dict κ ν) : List κ := d.map Prod.fst

@[simp] theorem keys_nil : keys ([] : Dict κ ν) = [] := rfl

@[simp] theorem keys_cons (e : κ × ν) (d : Dict κ ν) : keys (e :: d) = e.1 :: keys d := rfl

@[simp] theorem keys_append (d d' : Dict κ ν) : keys (d ++ d') = keys d ++ keys d' :=
  List.map_append

variable [DecidableEq κ]

def set : Dict κ ν → κ → ν → Dict κ ν
  | [], k, v => [(k, v)]
  | (k', v') :: d, k, v => if k' = k then (k, v) :: d else (k', v') :: set d k v

def get? : Dict κ ν → κ → Option ν
  | [], _ => none
  | (k', v) :: d, k => if k' = k then some v else get? d k

/-- The entry of a key is taken out. -/
def erase : Dict κ ν → κ → Dict κ ν
  | [], _ => []
  | (k', v) :: d, k => if k' = k then d else (k', v) :: erase d k

/-- The entries of another dictionary are set, one after the other. -/
def update (d d' : Dict κ ν) : Dict κ ν := d'.foldl (fun d e => set d e.1 e.2) d

/-- The dictionary of a list of entries: the last value of each key, at its first place. -/
def ofEntries (entries : List (κ × ν)) : Dict κ ν :=
  entries.foldl (fun d e => set d e.1 e.2) []

theorem get?_isSome {d : Dict κ ν} {k : κ} : (get? d k).isSome ↔ k ∈ keys d := by
  induction d with
  | nil => simp [get?]
  | cons e d ih =>
      rw [get?, keys_cons, List.mem_cons]
      split
      next h => simp [h]
      next h => rw [ih, or_iff_right (Ne.symm h)]

/-- Setting a new key. -/
theorem set_of_notMem {d : Dict κ ν} {k : κ} (h : k ∉ keys d) (v : ν) :
    set d k v = d ++ [(k, v)] := by
  induction d with
  | nil => rfl
  | cons e d ih =>
      rw [keys_cons, List.mem_cons, not_or] at h
      obtain ⟨hne, htail⟩ := h
      rw [set, if_neg (Ne.symm hne), ih htail, List.cons_append]

/-- Setting a key behind entries with other keys. -/
theorem set_append_of_notMem {d d' : Dict κ ν} {k : κ} (h : k ∉ keys d) (v : ν) :
    set (d ++ d') k v = d ++ set d' k v := by
  induction d with
  | nil => rfl
  | cons e d ih =>
      rw [keys_cons, List.mem_cons, not_or] at h
      obtain ⟨hne, htail⟩ := h
      rw [List.cons_append, set, if_neg (Ne.symm hne), ih htail, List.cons_append]

@[simp] theorem set_cons_self (k : κ) (v v' : ν) (d : Dict κ ν) :
    set ((k, v) :: d) k v' = (k, v') :: d := by
  rw [set, if_pos rfl]

theorem keys_set (d : Dict κ ν) (k : κ) (v : ν) :
    keys (set d k v) = if k ∈ keys d then keys d else keys d ++ [k] := by
  induction d with
  | nil => rfl
  | cons e d ih =>
      rw [set]
      by_cases hk : e.1 = k
      · simp [hk]
      · rw [if_neg hk, keys_cons, ih]
        by_cases hmem : k ∈ keys d <;> simp [hmem, Ne.symm hk]

theorem nodup_keys_set {d : Dict κ ν} (h : (keys d).Nodup) (k : κ) (v : ν) :
    (keys (set d k v)).Nodup := by
  rw [keys_set]
  split
  · exact h
  next hk => exact List.concat_eq_append ▸ h.concat hk

/-- A dictionary has every key once. -/
theorem nodup_keys_ofEntries (entries : List (κ × ν)) : (keys (ofEntries entries)).Nodup := by
  have hfold : ∀ (d : Dict κ ν), (keys d).Nodup →
      (keys (entries.foldl (fun d e => set d e.1 e.2) d)).Nodup := by
    induction entries with
    | nil => exact fun d hd => hd
    | cons e entries ih => exact fun d hd => ih _ (nodup_keys_set hd e.1 e.2)
  exact hfold [] List.nodup_nil

theorem mem_of_get? {d : Dict κ ν} {k : κ} {v : ν} (h : get? d k = some v) : (k, v) ∈ d := by
  induction d with
  | nil => cases h
  | cons e d ih =>
      rw [get?] at h
      split at h
      next hk =>
        obtain rfl := Option.some.inj h
        exact hk ▸ List.mem_cons_self
      next => exact List.mem_cons_of_mem _ (ih h)

theorem mem_set {d : Dict κ ν} {k : κ} {v : ν} {e : κ × ν} (h : e ∈ set d k v) :
    e = (k, v) ∨ e ∈ d := by
  induction d with
  | nil => exact .inl (List.mem_singleton.mp h)
  | cons e' d ih =>
      rw [set] at h
      split at h
      · exact (List.mem_cons.mp h).imp_right (List.mem_cons_of_mem _)
      · obtain rfl | h := List.mem_cons.mp h
        · exact .inr List.mem_cons_self
        · exact (ih h).imp_right (List.mem_cons_of_mem _)

/-- What is in the dictionary of a list of entries is in the list. -/
theorem mem_ofEntries {entries : List (κ × ν)} {e : κ × ν} (h : e ∈ ofEntries entries) :
    e ∈ entries := by
  have hfold : ∀ d : Dict κ ν, e ∈ entries.foldl (fun d e => set d e.1 e.2) d →
      e ∈ d ∨ e ∈ entries := by
    clear h
    induction entries with
    | nil => exact fun d h => .inl h
    | cons e' entries ih =>
        intro d h
        obtain h | h := ih _ h
        · exact (mem_set h).symm.imp_right fun h => List.mem_cons.mpr (.inl h)
        · exact .inr (List.mem_cons_of_mem _ h)
  exact (hfold [] h).resolve_left List.not_mem_nil

@[simp] theorem get?_set_self (d : Dict κ ν) (k : κ) (v : ν) : get? (set d k v) k = some v := by
  induction d with
  | nil => rw [set, get?, if_pos rfl]
  | cons e d ih =>
      rw [set]
      split
      next => rw [get?, if_pos rfl]
      next he => rw [get?, if_neg he, ih]

theorem get?_set_of_ne {k k' : κ} (h : k' ≠ k) (d : Dict κ ν) (v : ν) :
    get? (set d k' v) k = get? d k := by
  induction d with
  | nil =>
      simp only [set, get?]
      rw [if_neg h]
  | cons e d ih =>
      rw [set]
      split
      next he =>
        subst he
        simp only [get?, if_neg h]
      next he =>
        simp only [get?]
        rw [ih]

/-- The value of an entry, in a dictionary that has every key once. -/
theorem get?_of_mem {d : Dict κ ν} {k : κ} {v : ν} (hnodup : (keys d).Nodup) (h : (k, v) ∈ d) :
    get? d k = some v := by
  induction d with
  | nil => cases h
  | cons e d ih =>
      obtain ⟨hnew, hnodup⟩ := List.nodup_cons.mp hnodup
      rw [get?]
      obtain h | h := List.mem_cons.mp h
      · rw [← h, if_pos rfl]
      · have hne : e.1 ≠ k := by
          rintro rfl
          exact hnew (List.mem_map.mpr ⟨_, h, rfl⟩)
        rw [if_neg hne, ih hnodup h]

/-- Entries with different keys are the dictionary that they make. -/
theorem ofEntries_of_nodup {entries : List (κ × ν)} (h : (keys entries).Nodup) :
    ofEntries entries = entries := by
  have hfold : ∀ d : Dict κ ν, (keys (d ++ entries)).Nodup →
      entries.foldl (fun d e => set d e.1 e.2) d = d ++ entries := by
    clear h
    induction entries with
    | nil => exact fun d _ => (List.append_nil d).symm
    | cons e entries ih =>
        intro d hd
        have hnew : e.1 ∉ keys d := by
          rw [keys_append, keys_cons, List.nodup_append] at hd
          exact fun hmem => hd.2.2 _ hmem _ List.mem_cons_self rfl
        rw [List.foldl_cons, set_of_notMem hnew, ih, List.append_assoc, List.singleton_append]
        rwa [List.append_assoc, List.singleton_append]
  exact hfold [] h

/-- A rearranged image is the image of a rearranged list. -/
theorem perm_map_inv {α β : Type*} {f : α → β} {l : List α} {ys : List β}
    (h : ys.Perm (l.map f)) : ∃ l' : List α, l'.Perm l ∧ ys = l'.map f := by
  induction ys generalizing l with
  | nil =>
      obtain rfl := List.map_eq_nil_iff.mp h.symm.eq_nil
      exact ⟨[], .refl _, rfl⟩
  | cons y ys ih =>
      obtain ⟨a, ha, rfl⟩ := List.mem_map.mp (h.subset List.mem_cons_self)
      obtain ⟨before, after, rfl⟩ := List.append_of_mem ha
      have hrest : ys.Perm ((before ++ after).map f) := by
        refine (h.trans ?_).cons_inv
        exact List.perm_middle.map f
      obtain ⟨l', hl', rfl⟩ := ih hrest
      exact ⟨a :: l', (hl'.cons a).trans List.perm_middle.symm, rfl⟩

end Dict
