import Tapplet.Lib.Linked
import Mathlib.Data.List.Perm.Basic
import Mathlib.Algebra.GroupWithZero.Nat

/-!
# Registrations of shared memory maps

Every plugin registers the maps it wants in the shared memory: a name, a length and
whether the map holds configuration or statistics. The registrations are nodes of a
singly linked list. Before the maps are laid out, `sort_shm_map_reg_outside` cuts that
list into one group for each memory type, sorts the configuration group by name with an
insertion sort that relinks the nodes in place, and splices the groups together again.

The functions work on the links alone: `next` is the memory of the link fields and
`head_ptr`, `tail_ptr` are the pointers the source passes by reference. A loop has fuel,
one unit for each round.
-/

namespace Tapplet.Shm

open Linked

/-- `SF_SHM_MAP_NAME_LEN` -/
def sfShmMapNameLen : Nat := 32

/-- A C string in a `char name[SF_SHM_MAP_NAME_LEN]`, without its terminating zero. -/
structure Name where
  bytes : List UInt8
  nonzero : ∀ b ∈ bytes, b ≠ 0
  terminated : bytes.length < sfShmMapNameLen
deriving DecidableEq

/-- `strcmp`: the difference of the first two characters that differ. -/
def strcmp : List UInt8 → List UInt8 → Int
  | [], [] => 0
  | [], b :: _ => -(b.toNat : Int)
  | a :: _, [] => (a.toNat : Int)
  | a :: as, b :: bs => if a = b then strcmp as bs else (a.toNat : Int) - b.toNat

@[simp] theorem strcmp_self (as : List UInt8) : strcmp as as = 0 := by
  induction as with
  | nil => rfl
  | cons a as ih => simp [strcmp, ih]

theorem strcmp_swap (as bs : List UInt8) : strcmp bs as = -strcmp as bs := by
  induction as generalizing bs with
  | nil => cases bs <;> simp [strcmp]
  | cons a as ih =>
      cases bs with
      | nil => simp [strcmp]
      | cons b bs =>
          by_cases hab : a = b
          · simp [strcmp, hab, ih]
          · simp only [strcmp, if_neg hab, if_neg (Ne.symm hab)]
            omega

theorem strcmp_pos_iff {as bs : List UInt8} : 0 < strcmp as bs ↔ strcmp bs as < 0 := by
  rw [strcmp_swap as bs]
  omega

theorem strcmp_neg_trans {as bs cs : List UInt8} (hab : strcmp as bs < 0)
    (hbc : strcmp bs cs < 0) : strcmp as cs < 0 := by
  induction as generalizing bs cs with
  | nil =>
      cases bs with
      | nil => simp [strcmp] at hab
      | cons b bs =>
          cases cs with
          | nil => simp only [strcmp] at hbc; omega
          | cons c cs =>
              simp only [strcmp] at hab hbc ⊢
              split at hbc
              · next hbc' => rwa [← hbc']
              · omega
  | cons a as ih =>
      cases bs with
      | nil => simp only [strcmp] at hab; omega
      | cons b bs =>
          cases cs with
          | nil => simp only [strcmp] at hbc; omega
          | cons c cs =>
              simp only [strcmp] at hab hbc ⊢
              by_cases h : a = b
              · subst h
                by_cases h' : a = c
                · subst h'
                  simp only at hab hbc ⊢
                  exact ih hab hbc
                · simpa [h'] using hbc
              · by_cases h' : b = c
                · subst h'
                  simpa [h] using hab
                · rw [if_neg h] at hab
                  rw [if_neg h'] at hbc
                  have hne : a ≠ c := by
                    rintro rfl
                    omega
                  rw [if_neg hne]
                  omega

/-- Two strings compare equal only if they are the same. -/
theorem Name.strcmp_eq_zero {a b : Name} (h : strcmp a.bytes b.bytes = 0) : a = b := by
  obtain ⟨as, ha, hal⟩ := a
  obtain ⟨bs, hb, hbl⟩ := b
  suffices as = bs by simpa
  simp only at h
  clear hal hbl
  induction as generalizing bs with
  | nil =>
      cases bs with
      | nil => rfl
      | cons b bs =>
          have hpos : b.toNat ≠ 0 :=
            fun h0 => hb b (by simp) (UInt8.toNat_inj.mp (by simpa using h0))
          simp only [strcmp] at h
          omega
  | cons a as ih =>
      have hpos : a.toNat ≠ 0 := fun h0 => ha a (by simp) (UInt8.toNat_inj.mp (by simpa using h0))
      cases bs with
      | nil =>
          simp only [strcmp] at h
          omega
      | cons b bs =>
          simp only [strcmp] at h
          by_cases hab : a = b
          · rw [if_pos hab] at h
            rw [hab, ih (fun x hx => ha x (by simp [hx])) bs (fun x hx => hb x (by simp [hx])) h]
          · rw [if_neg hab] at h
            exact absurd (UInt8.toNat_inj.mp (by omega)) hab

/-- `sf_shm_mem_type_t` -/
inductive MemType where
  | config
  | stat
deriving DecidableEq

/-- `sf_shm_map_registration_t`. `initFunc` are the stores that the map's init function makes
in the map: places, counted from the start of the map, and bytes. A map without one is filled
with zeros. -/
structure Registration where
  name : Name
  memType : MemType
  len : Nat
  initFunc : Option (List (Nat × UInt8))
  len_lt : len < 2 ^ 32
  init_lt : ∀ stores ∈ initFunc, ∀ p ∈ stores, p.1 < len

section Lists

variable {α : Type*} {reg : α → Registration}

/-- `compare_shm_reg_name` -/
def compareShmRegName (reg : α → Registration) (a b : α) : Int :=
  strcmp (reg a).name.bytes (reg b).name.bytes

/-- The nodes are in the order that `sort_shm_config_reg_by_name` sorts by. -/
def NameSorted (reg : α → Registration) (xs : List α) : Prop :=
  xs.Pairwise fun a b => compareShmRegName reg a b < 0

theorem compareShmRegName_neg_trans {a b c : α} (hab : compareShmRegName reg a b < 0)
    (hbc : compareShmRegName reg b c < 0) : compareShmRegName reg a c < 0 :=
  strcmp_neg_trans hab hbc

theorem compareShmRegName_pos_iff {a b : α} :
    0 < compareShmRegName reg a b ↔ compareShmRegName reg b a < 0 :=
  strcmp_pos_iff

/-- Registrations with different names compare as smaller or greater. -/
theorem compareShmRegName_total {a b : α} (hne : (reg a).name ≠ (reg b).name) :
    compareShmRegName reg a b < 0 ∨ compareShmRegName reg b a < 0 := by
  rw [← compareShmRegName_pos_iff (a := a)]
  have h : compareShmRegName reg a b ≠ 0 := fun h => hne (Name.strcmp_eq_zero h)
  omega

/-- Two name-sorted lists of the same nodes are the same list. -/
theorem NameSorted.eq_of_perm {xs ys : List α} (hx : NameSorted reg xs) (hy : NameSorted reg ys)
    (perm : xs.Perm ys) : xs = ys := by
  refine perm.eq_of_pairwise (fun a b _ _ hab hba => ?_) hx hy
  rw [← compareShmRegName_pos_iff] at hba
  omega

/-- Put a node between the nodes of a sorted list that are smaller and those that are not. -/
theorem NameSorted.insert {as bs : List α} {pre : α} (h : NameSorted reg (as ++ bs))
    (before : ∀ x ∈ as, compareShmRegName reg x pre < 0)
    (after : ∀ n ∈ bs.head?, compareShmRegName reg pre n < 0) :
    NameSorted reg (as ++ pre :: bs) := by
  obtain ⟨has, hbs, hab⟩ := List.pairwise_append.mp h
  have hpre : ∀ x ∈ bs, compareShmRegName reg pre x < 0 := by
    cases bs with
    | nil => simp
    | cons n bs =>
        have hn := after n rfl
        intro x hx
        rcases List.mem_cons.mp hx with rfl | hx
        · exact hn
        · exact compareShmRegName_neg_trans hn (List.rel_of_pairwise_cons hbs hx)
  refine List.pairwise_append.mpr ⟨has, List.pairwise_cons.mpr ⟨hpre, hbs⟩, ?_⟩
  intro x hx y hy
  rcases List.mem_cons.mp hy with rfl | hy
  · exact before x hx
  · exact hab x hx y hy

variable [DecidableEq α]

/-- The inner loop of `sort_shm_config_reg_by_name`: walk on until `pre` fits between
`prev` and the node after it, and link it there. Without such a place the last node is
returned with a null pointer. -/
def placeLoop (reg : α → Registration) (pre : α) :
    Nat → (α → Option α) → α → Option α → Option ((α → Option α) × α × Option α)
  | _, next, prev, none => some (next, prev, none)
  | 0, _, _, some _ => none
  | fuel + 1, next, prev, some nextPtr =>
      if compareShmRegName reg prev pre < 0 ∧ compareShmRegName reg nextPtr pre > 0 then
        let next := Function.update next pre (some nextPtr)
        let next := Function.update next prev (some pre)
        some (next, prev, some nextPtr)
      else
        placeLoop reg pre fuel next nextPtr (next nextPtr)

/-- `sort_shm_config_reg_by_name`: take the nodes off `*head_ptr` one by one and place each
in the list that starts at `result_head`. The answer is the memory of the links, the new
`*head_ptr` and the new `*tail_ptr`. -/
def sortShmConfigRegByName (reg : α → Registration) :
    Nat → (α → Option α) → Option α → Option α → Option α →
      Option ((α → Option α) × Option α × Option α)
  | _, next, none, resultHead, tail => some (next, resultHead, tail)
  | 0, _, some _, _, _ => none
  | fuel + 1, next, some pre, resultHead, tail =>
      let head := next pre
      let next := Function.update next pre none
      match resultHead with
      | none => sortShmConfigRegByName reg fuel next head (some pre) (some pre)
      | some result =>
          if compareShmRegName reg pre result < 0 then
            let next := Function.update next pre (some result)
            sortShmConfigRegByName reg fuel next head (some pre) tail
          else
            match placeLoop reg pre fuel next result (next result) with
            | none => none
            | some (next, _, some _) => sortShmConfigRegByName reg fuel next head resultHead tail
            | some (next, prev, none) =>
                let next := Function.update next prev (some pre)
                let next := Function.update next pre none
                sortShmConfigRegByName reg fuel next head resultHead (some pre)

/-- The local arrays `temp_head_ptr` and `temp_tail_ptr`, with the memory of the links. -/
structure Groups (α : Type*) where
  next : α → Option α
  tempHeadPtr : MemType → Option α
  tempTailPtr : MemType → Option α

/-- One round of the loop that moves each registration to the group of its type. -/
def Groups.take (reg : α → Registration) (g : Groups α) (regPtr : α) : Option (Groups α) :=
  let index := (reg regPtr).memType
  match g.tempHeadPtr index with
  | none =>
      some { g with
        tempHeadPtr := Function.update g.tempHeadPtr index (some regPtr)
        tempTailPtr := Function.update g.tempTailPtr index (some regPtr) }
  | some _ => do
      let tail ← g.tempTailPtr index
      return { g with
        next := Function.update g.next tail (some regPtr)
        tempTailPtr := Function.update g.tempTailPtr index (some regPtr) }

/-- The loop of `sort_shm_map_reg_outside` over the registered list. The node after
`regPtr` is read before the tail of its group is cut. -/
def groupLoop (reg : α → Registration) : Nat → Groups α → Option α → Option (Groups α)
  | _, g, none => some g
  | 0, _, some _ => none
  | fuel + 1, g, some regPtr => do
      let g ← g.take reg regPtr
      groupLoop reg fuel { g with next := Function.update g.next regPtr none } (g.next regPtr)

/-- One round of the loop that splices the groups: the memory of the links, `head->next` and
the last node so far. -/
def splice (g : Groups α) (index : MemType) :
    (α → Option α) × Option α × Option α → Option ((α → Option α) × Option α × Option α)
  | (next, headNext, regPtr) =>
    match g.tempHeadPtr index, headNext with
    | none, _ => some (next, headNext, regPtr)
    | some first, none => some (next, some first, g.tempTailPtr index)
    | some first, some _ => do
        let last ← regPtr
        return (Function.update next last (some first), headNext, g.tempTailPtr index)

/-- `sort_shm_map_reg_outside`: the memory of the links and `head->next` afterwards. -/
def sortShmMapRegOutside (reg : α → Registration) (fuel : Nat) (next : α → Option α)
    (head : Option α) : Option ((α → Option α) × Option α) := do
  let g ← groupLoop reg fuel ⟨next, fun _ => none, fun _ => none⟩ head
  let (next, configHead, configTail) ←
    sortShmConfigRegByName reg fuel g.next (g.tempHeadPtr .config) none (g.tempTailPtr .config)
  let g : Groups α :=
    { next
      tempHeadPtr := Function.update g.tempHeadPtr .config configHead
      tempTailPtr := Function.update g.tempTailPtr .config configTail }
  let (next, headNext, _) ← splice g .stat (← splice g .config (g.next, none, none))
  return (next, headNext)

variable {next : α → Option α}

/-- Where the inner loop stops: at a node `p` of the list with the nodes `rest` after it. The
node `pre` is linked between them unless `p` is the last one. -/
theorem placeLoop_spec (reg : α → Registration) (pre : α) {prev : α} {bs : List α} {fuel : Nat}
    (hseg : Seg next (some prev) (prev :: bs) none) (hfuel : bs.length ≤ fuel) :
    ∃ as p rest, prev :: bs = as ++ p :: rest ∧
      placeLoop reg pre fuel next prev (next prev) =
        some (if rest = [] then next
          else Function.update (Function.update next pre rest.head?) p (some pre), p, rest.head?) ∧
      (∀ n ∈ rest.head?, compareShmRegName reg pre n < 0) ∧
      (compareShmRegName reg prev pre < 0 → (∀ x ∈ bs, (reg x).name ≠ (reg pre).name) →
        ∀ x ∈ as ++ [p], compareShmRegName reg x pre < 0) := by
  induction bs generalizing prev fuel with
  | nil =>
      obtain ⟨-, hnil⟩ := hseg
      rw [seg_nil] at hnil
      refine ⟨[], prev, [], rfl, ?_, by simp, ?_⟩
      · rw [hnil, placeLoop]
        · rfl
      · intro hprev _ x hx
        obtain rfl : x = prev := by simpa using hx
        exact hprev
  | cons n bs ih =>
      obtain ⟨-, hn, hrest⟩ := hseg
      cases fuel with
      | zero => simp at hfuel
      | succ fuel =>
          rw [hn, placeLoop]
          by_cases hplace : compareShmRegName reg prev pre < 0 ∧ compareShmRegName reg n pre > 0
          · rw [if_pos hplace]
            refine ⟨[], prev, n :: bs, rfl, by simp, ?_, ?_⟩
            · rintro m hm
              rw [List.head?_cons, Option.mem_some_iff] at hm
              exact compareShmRegName_pos_iff.mp (hm ▸ hplace.2)
            · intro hprev _ x hx
              obtain rfl : x = prev := by simpa using hx
              exact hprev
          · rw [if_neg hplace]
            obtain ⟨as, p, rest, hsplit, hrun, hhead, hbefore⟩ :=
              ih ⟨rfl, hrest⟩ (by simpa using hfuel)
            refine ⟨prev :: as, p, rest, by rw [hsplit, List.cons_append], hrun, hhead, ?_⟩
            intro hprev hnames x hx
            have hnpre : compareShmRegName reg n pre < 0 := by
              rcases compareShmRegName_total (hnames n (by simp)) with h | h
              · exact h
              · exact absurd ⟨hprev, compareShmRegName_pos_iff.mpr h⟩ hplace
            rcases List.mem_cons.mp hx with rfl | hx
            · exact hprev
            · exact hbefore hnpre (fun y hy => hnames y (by simp [hy])) x hx

/-- One round of the sort: the first node `pre` of the list is moved into `ys`. -/
theorem sort_step (reg : α → Registration) {pre : α} {xs ys : List α} {result tail : Option α}
    {fuel : Nat}
    (hx : Seg next (some pre) (pre :: xs) none) (hy : Seg next result ys none)
    (nodup : (pre :: xs ++ ys).Nodup) (htail : ys ≠ [] → tail = ys.getLast?)
    (hfuel : ys.length ≤ fuel) :
    ∃ next' ys', sortShmConfigRegByName reg (fuel + 1) next (some pre) result tail =
        sortShmConfigRegByName reg fuel next' (next pre) ys'.head? ys'.getLast? ∧
      Seg next' (next pre) xs none ∧ Seg next' ys'.head? ys' none ∧ ys'.Perm (pre :: ys) ∧
      (∀ c, c ≠ pre → c ∉ ys → next' c = next c) ∧
      (((pre :: ys).map fun a => (reg a).name).Nodup → NameSorted reg ys →
        NameSorted reg ys') := by
  obtain ⟨hpre, hxs, hys, hdisj⟩ : pre ∉ xs ++ ys ∧ xs.Nodup ∧ ys.Nodup ∧ xs.Disjoint ys := by
    simpa [List.nodup_append, List.disjoint_iff_ne] using nodup
  simp only [List.mem_append, not_or] at hpre
  have hx' : Seg (Function.update next pre none) (next pre) xs none := hx.2.update hpre.1
  have hy' : Seg (Function.update next pre none) result ys none := hy.update hpre.2
  cases ys with
  | nil =>
      obtain rfl : result = none := hy
      refine ⟨Function.update next pre none, [pre], rfl, hx', by simp, .refl _, ?_, ?_⟩
      · exact fun c hc _ => Function.update_of_ne hc _ _
      · exact fun _ _ => List.pairwise_singleton _ _
  | cons r rs =>
      obtain rfl : result = some r := hy.1
      rw [htail (List.cons_ne_nil r rs), sortShmConfigRegByName]
      by_cases hlt : compareShmRegName reg pre r < 0
      · refine ⟨Function.update (Function.update next pre none) pre (some r), pre :: r :: rs,
          ?_, hx'.update hpre.1, hy'.push hpre.2, .refl _, ?_, ?_⟩
        · simp only [if_pos hlt, List.head?_cons, List.getLast?_cons_cons]
        · intro c hc _
          rw [Function.update_of_ne hc, Function.update_of_ne hc]
        · intro _ hsorted
          have h : NameSorted reg ([] ++ pre :: r :: rs) :=
            NameSorted.insert hsorted (by simp) (by simpa using hlt)
          exact h
      · obtain ⟨as, p, rest, hsplit, hrun, hafter, hbefore⟩ :=
          placeLoop_spec reg pre hy' (Nat.le_of_lt hfuel)
        rw [hsplit] at hy' hys hpre hdisj
        have hp : p ≠ pre := fun h => hpre.2 (by simp [h])
        have hlink := hy'.insert_after hpre.2 hys
        have hhead : (as ++ p :: pre :: rest).head? = some r := by
          have h := congrArg List.head? hsplit
          cases as <;> simpa using h.symm
        refine ⟨Function.update (Function.update (Function.update next pre none) pre rest.head?)
            p (some pre), as ++ p :: pre :: rest, ?_, ?_, ?_, ?_, ?_, ?_⟩
        · simp only [if_neg hlt, hrun, hhead]
          cases rest with
          | nil =>
              simp only [List.head?_nil, if_true]
              rw [Function.update_comm hp]
              simp
          | cons n rest =>
              simp only [List.head?_cons, if_neg (List.cons_ne_nil n rest), hsplit]
              simp
        · exact (hx'.update hpre.1).update (List.disjoint_right.mp hdisj (by simp))
        · rw [hhead]
          exact hlink
        · rw [hsplit]
          exact ((List.Perm.swap pre p rest).append_left as).trans List.perm_middle
        · intro c hc hcys
          have hcp : c ≠ p := fun h => hcys (by simp [hsplit, h])
          rw [Function.update_of_ne hcp, Function.update_of_ne hc, Function.update_of_ne hc]
        · intro hnames hsorted
          rw [hsplit] at hsorted hnames
          have hne : ∀ x ∈ as ++ p :: rest, (reg x).name ≠ (reg pre).name := fun x hx h =>
            (List.nodup_cons.mp hnames).1 (List.mem_map.mpr ⟨x, hx, h⟩)
          have hr : compareShmRegName reg r pre < 0 := by
            rcases compareShmRegName_total (hne r (hsplit ▸ List.mem_cons_self)) with h | h
            · exact h
            · exact absurd h hlt
          have h : NameSorted reg ((as ++ [p]) ++ pre :: rest) :=
            NameSorted.insert (by simpa using hsorted)
              (hbefore hr fun x hx => hne x (hsplit ▸ List.mem_cons_of_mem r hx)) hafter
          simpa using h

/-- `sort_shm_config_reg_by_name` keeps every node, and `*tail_ptr` is the last one of the
list it returns. Nodes with different names come out sorted. -/
theorem sortShmConfigRegByName_spec (reg : α → Registration) {xs ys : List α}
    {head result tail : Option α} {fuel : Nat}
    (hx : Seg next head xs none) (hy : Seg next result ys none) (nodup : (xs ++ ys).Nodup)
    (htail : ys ≠ [] → tail = ys.getLast?) (hfuel : 2 * xs.length + ys.length ≤ fuel) :
    ∃ next' zs, sortShmConfigRegByName reg fuel next head result tail =
        some (next', zs.head?, if zs = [] then tail else zs.getLast?) ∧
      Seg next' zs.head? zs none ∧ zs.Perm (xs ++ ys) ∧ (∀ c ∉ xs ++ ys, next' c = next c) ∧
      (((xs ++ ys).map fun a => (reg a).name).Nodup → NameSorted reg ys →
        NameSorted reg zs) := by
  induction xs generalizing next head result tail ys fuel with
  | nil =>
      obtain rfl : head = none := hx
      refine ⟨next, ys, ?_, ?_, .refl _, fun _ _ => rfl, fun _ h => h⟩
      · rw [sortShmConfigRegByName, hy.head?_eq]
        by_cases hys : ys = []
        · rw [if_pos hys]
        · rw [if_neg hys, htail hys]
      · rw [← hy.head?_eq]
        exact hy
  | cons pre xs ih =>
      obtain rfl : head = some pre := hx.1
      cases fuel with
      | zero => simp at hfuel
      | succ fuel =>
          have hfuel₁ : ys.length ≤ fuel := by
            simp only [List.length_cons] at hfuel
            omega
          obtain ⟨next₁, ys', hrun, hx₁, hy₁, hperm, hframe, hsorted⟩ :=
            sort_step reg hx hy nodup htail hfuel₁
          have hperm' : (xs ++ ys').Perm (pre :: xs ++ ys) :=
            (hperm.append_left xs).trans List.perm_middle
          have hne : ys' ≠ [] := fun h => by simp [h] at hperm
          have hfuel₂ : 2 * xs.length + ys'.length ≤ fuel := by
            have hlen := hperm.length_eq
            simp only [List.length_cons] at hlen hfuel
            omega
          obtain ⟨next₂, zs, hrun₂, hseg, hzs, hframe₂, hsorted₂⟩ :=
            ih hx₁ hy₁ (hperm'.nodup_iff.mpr nodup) (fun _ => rfl) hfuel₂
          have hzne : zs ≠ [] := fun h => by simp [h, hne] at hzs
          refine ⟨next₂, zs, ?_, hseg, hzs.trans hperm', ?_, ?_⟩
          · rw [hrun, hrun₂, if_neg hzne, if_neg hzne]
          · intro c hc
            rw [hframe₂ c (fun h => hc (hperm'.mem_iff.mp h))]
            exact hframe c (fun h => hc (by simp [h])) (fun h => hc (by simp [h]))
          · intro hnames hys
            have hnames' := (hperm'.map fun a => (reg a).name).nodup_iff.mpr hnames
            refine hsorted₂ hnames' (hsorted ?_ hys)
            refine hnames.sublist (List.Sublist.map _ ?_)
            exact (List.sublist_append_right xs ys).cons_cons pre

/-- The groups hold the lists `L`: each is null-terminated, its tail pointer is its last node
and its nodes have the type of the group. -/
structure Grouped (reg : α → Registration) (g : Groups α) (L : MemType → List α) : Prop where
  seg : ∀ t, Seg g.next (g.tempHeadPtr t) (L t) none
  tail : ∀ t, g.tempTailPtr t = (L t).getLast?
  typed : ∀ t, ∀ x ∈ L t, (reg x).memType = t
  nodup : ∀ t, (L t).Nodup

/-- One round of the grouping loop moves the first node to the end of its group. -/
theorem Grouped.take {g : Groups α} {L : MemType → List α} {x : α} {xs : List α}
    (h : Grouped reg g L) (hx : Seg g.next (some x) (x :: xs) none) (nodup : (x :: xs).Nodup)
    (apart : ∀ t, ∀ y ∈ L t, y ∉ x :: xs) :
    ∃ g', g.take reg x = some g' ∧
      Grouped reg { g' with next := Function.update g'.next x none }
        (Function.update L (reg x).memType (L (reg x).memType ++ [x])) ∧
      Seg (Function.update g'.next x none) (g'.next x) xs none := by
  have hxL : ∀ t, x ∉ L t := fun t hmem => apart t x hmem (by simp)
  have hxs : x ∉ xs := (List.nodup_cons.mp nodup).1
  obtain ⟨ty, hty⟩ : ∃ ty, ty = (reg x).memType := ⟨_, rfl⟩
  have typed : ∀ t, ∀ y ∈ Function.update L ty (L ty ++ [x]) t, (reg y).memType = t := by
    intro t y hy
    by_cases ht : t = ty
    · subst ht
      rw [Function.update_self, List.mem_append, List.mem_singleton] at hy
      rcases hy with hy | rfl
      · exact h.typed t y hy
      · exact hty.symm
    · rw [Function.update_of_ne ht] at hy
      exact h.typed t y hy
  have nodup' : ∀ t, (Function.update L ty (L ty ++ [x]) t).Nodup := by
    intro t
    by_cases ht : t = ty
    · subst ht
      rw [Function.update_self, List.nodup_append]
      refine ⟨h.nodup t, List.nodup_singleton x, ?_⟩
      rintro y hy _ hz rfl
      rw [List.mem_singleton.mp hz] at hy
      exact hxL t hy
    · rw [Function.update_of_ne ht]
      exact h.nodup t
  have tail : ∀ t, Function.update g.tempTailPtr ty (some x) t =
      (Function.update L ty (L ty ++ [x]) t).getLast? := by
    intro t
    by_cases ht : t = ty
    · subst ht
      simp
    · rw [Function.update_of_ne ht, Function.update_of_ne ht]
      exact h.tail t
  simp only [Groups.take, ← hty]
  cases hhead : g.tempHeadPtr ty with
  | none =>
      have hL : L ty = [] := ((h.seg ty).eq_none_iff).mp hhead
      refine ⟨_, rfl, ⟨?_, tail, typed, nodup'⟩, hx.2.update hxs⟩
      intro t
      by_cases ht : t = ty
      · subst ht
        simp only [Function.update_self, hL, List.nil_append]
        exact ⟨rfl, Function.update_self _ _ _⟩
      · simp only [Function.update_of_ne ht]
        exact (h.seg t).update (hxL t)
  | some first =>
      obtain ⟨ys, last, hL⟩ : ∃ ys last, L ty = ys ++ [last] := by
        rcases List.eq_nil_or_concat (L ty) with hnil | ⟨ys, last, hys⟩
        · have := ((h.seg ty).eq_none_iff).mpr hnil
          simp [hhead] at this
        · exact ⟨ys, last, by simpa using hys⟩
      have htail : g.tempTailPtr ty = some last := by
        rw [h.tail ty, hL, List.getLast?_concat]
      have hlast : last ≠ x := fun heq => hxL ty (by simp [hL, heq])
      have hlastxs : last ∉ x :: xs := apart ty last (by simp [hL])
      rw [htail]
      refine ⟨_, rfl, ⟨?_, tail, typed, nodup'⟩, ?_⟩
      · intro t
        by_cases ht : t = ty
        · subst ht
          have hseg := h.seg t
          rw [hL] at hseg
          have hlink := hseg.insert_after (hL ▸ hxL t) (hL ▸ h.nodup t)
          simp only [Function.update_self, hL, List.append_assoc, List.cons_append,
            List.nil_append]
          rw [Function.update_comm hlast]
          exact hlink
        · simp only [Function.update_of_ne ht]
          have hlastt : last ∉ L t := fun hmem => by
            have h₁ := h.typed t last hmem
            have h₂ := h.typed ty last (by simp [hL])
            exact ht (h₁.symm.trans h₂)
          exact ((h.seg t).update hlastt).update (hxL t)
      · simp only
        rw [Function.update_of_ne hlast.symm]
        exact (hx.2.update (fun hmem => hlastxs (by simp [hmem]))).update hxs

/-- The grouping loop: each group is the registered list restricted to its type. -/
theorem groupLoop_spec {g : Groups α} {L : MemType → List α} {xs : List α} {p : Option α}
    {fuel : Nat} (h : Grouped reg g L) (hx : Seg g.next p xs none) (nodup : xs.Nodup)
    (apart : ∀ t, ∀ y ∈ L t, y ∉ xs) (hfuel : xs.length ≤ fuel) :
    ∃ g', groupLoop reg fuel g p = some g' ∧
      Grouped reg g' fun t => L t ++ xs.filter fun x => (reg x).memType = t := by
  induction xs generalizing g L p fuel with
  | nil =>
      obtain rfl : p = none := hx
      exact ⟨g, by rw [groupLoop], by simpa using h⟩
  | cons x xs ih =>
      obtain rfl : p = some x := hx.1
      cases fuel with
      | zero => simp at hfuel
      | succ fuel =>
          obtain ⟨g₁, htake, hg₁, hseg⟩ := h.take hx nodup apart
          obtain ⟨hxs, nodup⟩ := List.nodup_cons.mp nodup
          have apart' : ∀ t, ∀ y ∈ Function.update L (reg x).memType (L (reg x).memType ++ [x]) t,
              y ∉ xs := by
            intro t y hy hmem
            by_cases ht : t = (reg x).memType
            · subst ht
              rw [Function.update_self, List.mem_append, List.mem_singleton] at hy
              rcases hy with hy | rfl
              · exact apart _ y hy (by simp [hmem])
              · exact hxs hmem
            · rw [Function.update_of_ne ht] at hy
              exact apart t y hy (by simp [hmem])
          obtain ⟨g₂, hrun, hg₂⟩ := ih hg₁ hseg nodup apart' (by simpa using hfuel)
          refine ⟨g₂, ?_, ?_⟩
          · rw [groupLoop, htake]
            exact hrun
          · convert hg₂ using 2 with t
            by_cases ht : t = (reg x).memType <;> simp [ht, eq_comm]

/-- The splicing loop joins the two groups. -/
theorem splice_spec {g : Groups α} {cs ss : List α}
    (hc : Seg g.next (g.tempHeadPtr .config) cs none)
    (htail : g.tempTailPtr .config = cs.getLast?)
    (hs : Seg g.next (g.tempHeadPtr .stat) ss none) (nodup : (cs ++ ss).Nodup) :
    ∃ next' last, (splice g .config (g.next, none, none)).bind (splice g .stat) =
        some (next', (cs ++ ss).head?, last) ∧ Seg next' (cs ++ ss).head? (cs ++ ss) none := by
  have hstat := hs.head?_eq
  rcases List.eq_nil_or_concat cs with rfl | ⟨cs, c, rfl⟩
  · obtain hc : g.tempHeadPtr .config = none := hc
    rw [List.nil_append]
    cases ss with
    | nil =>
        have hs : g.tempHeadPtr .stat = none := hs
        exact ⟨g.next, none, by simp [splice, hc, hs], rfl⟩
    | cons s ss =>
        have hhead : g.tempHeadPtr .stat = some s := hs.1
        exact ⟨g.next, _, by simp [splice, hc, hhead]; rfl, rfl, hs.2⟩
  · rw [List.concat_eq_append] at hc htail nodup ⊢
    rw [List.getLast?_concat] at htail
    obtain ⟨first, hfirst⟩ : ∃ first, (cs ++ [c]).head? = some first := by
      cases cs <;> simp
    have hhead : g.tempHeadPtr .config = some first := hc.head?_eq.trans hfirst
    cases ss with
    | nil =>
        have hs : g.tempHeadPtr .stat = none := hs
        refine ⟨g.next, some c, ?_, ?_⟩
        · simp [splice, hs, hhead, htail, hfirst]
        · rw [List.append_nil, ← hc.head?_eq]
          exact hc
    | cons s ss =>
        have hs' : g.tempHeadPtr .stat = some s := hs.1
        obtain ⟨hcs, -, hdisj⟩ := List.nodup_append.mp nodup
        have hccs : c ∉ cs := by
          rw [List.nodup_append] at hcs
          exact fun hmem => hcs.2.2 c hmem c (by simp) rfl
        have hcss : c ∉ s :: ss := fun hmem => hdisj c (by simp) c hmem rfl
        have hjoin := hc.join hs hccs hcss
        refine ⟨Function.update g.next c (some s), g.tempTailPtr .stat, ?_, ?_⟩
        · rw [List.head?_append, hfirst]
          simp only [splice, hhead, hs', htail, Option.bind_some]
          rfl
        · rw [List.head?_append, hfirst, Option.some_or, ← hhead, ← hs']
          exact hjoin

/-- `sort_shm_map_reg_outside`: the list starts with the configuration registrations and
goes on with the statistics in the order they had. Nothing is lost or doubled. -/
theorem sortShmMapRegOutside_spec (reg : α → Registration) {xs : List α} {head : Option α}
    {fuel : Nat} (hx : Seg next head xs none) (nodup : xs.Nodup) (hfuel : 2 * xs.length ≤ fuel) :
    ∃ next' cs ss, sortShmMapRegOutside reg fuel next head = some (next', (cs ++ ss).head?) ∧
      Seg next' (cs ++ ss).head? (cs ++ ss) none ∧
      cs.Perm (xs.filter fun x => (reg x).memType = .config) ∧
      ss = xs.filter (fun x => (reg x).memType = .stat) ∧
      ((xs.map fun a => (reg a).name).Nodup → NameSorted reg cs) := by
  have hempty : Grouped reg (⟨next, fun _ => none, fun _ => none⟩ : Groups α) fun _ => [] :=
    ⟨fun _ => rfl, fun _ => rfl, by simp, by simp⟩
  obtain ⟨g, hgroup, hg⟩ :=
    groupLoop_spec hempty hx nodup (by simp) (show xs.length ≤ fuel by omega)
  simp only [List.nil_append] at hg
  obtain ⟨configs, hconfigs⟩ : ∃ l, l = xs.filter fun x => (reg x).memType = .config := ⟨_, rfl⟩
  obtain ⟨ss, hss⟩ : ∃ l, l = xs.filter fun x => (reg x).memType = .stat := ⟨_, rfl⟩
  have hnil : Seg g.next (none : Option α) [] none := rfl
  have hlen : 2 * configs.length + ([] : List α).length ≤ fuel := by
    have h := List.length_filter_le (fun x => decide ((reg x).memType = .config)) xs
    rw [← hconfigs] at h
    simp only [List.length_nil]
    omega
  obtain ⟨next₁, cs, hsort, hcs, hperm, hframe, hsorted⟩ :=
    sortShmConfigRegByName_spec reg (hconfigs ▸ hg.seg .config) hnil
      (by simpa [hconfigs] using hg.nodup .config)
      (show ([] : List α) ≠ [] → g.tempTailPtr .config = none from fun h => absurd rfl h) hlen
  rw [List.append_nil] at hperm hframe hsorted
  have htail : (if cs = [] then g.tempTailPtr .config else cs.getLast?) = cs.getLast? := by
    by_cases hnil : cs = []
    · have hempty : configs = [] := by simpa [hnil] using hperm.symm
      rw [if_pos hnil, hg.tail, ← hconfigs, hempty, hnil]
    · rw [if_neg hnil]
  have hstat : Seg next₁ (g.tempHeadPtr .stat) ss none := by
    refine (hss ▸ hg.seg .stat).congr fun x hx => hframe x fun hmem => ?_
    have h₁ := hg.typed .stat x (hss ▸ hx)
    have h₂ := hg.typed .config x (hconfigs ▸ hmem)
    rw [h₁] at h₂
    cases h₂
  have hstatHead := hstat.head?_eq
  have hsorted' : (xs.map fun a => (reg a).name).Nodup → NameSorted reg cs := fun hnames =>
    hsorted (hnames.sublist (hconfigs ▸ List.filter_sublist.map _)) List.Pairwise.nil
  have nodup' : (cs ++ ss).Nodup := by
    refine List.nodup_append.mpr ⟨?_, hss ▸ nodup.filter _, ?_⟩
    · exact hperm.nodup_iff.mpr (hconfigs ▸ nodup.filter _)
    · rintro x hx _ hy rfl
      have h₁ := hg.typed .stat x (hss ▸ hy)
      have h₂ := hg.typed .config x (hconfigs ▸ hperm.mem_iff.mp hx)
      rw [h₁] at h₂
      cases h₂
  obtain ⟨sorted, hsortedDef⟩ : ∃ sorted : Groups α, sorted =
      { next := next₁
        tempHeadPtr := Function.update g.tempHeadPtr .config cs.head?
        tempTailPtr := Function.update g.tempTailPtr .config cs.getLast? } := ⟨_, rfl⟩
  have hcs' : Seg sorted.next (sorted.tempHeadPtr .config) cs none := by
    simpa [hsortedDef] using hcs
  have hstat' : Seg sorted.next (sorted.tempHeadPtr .stat) ss none := by
    simpa [hsortedDef] using hstat
  obtain ⟨next₂, last, hsplice, hseg⟩ :=
    splice_spec hcs' (by simp [hsortedDef]) hstat' nodup'
  refine ⟨next₂, cs, ss, ?_, hseg, hconfigs ▸ hperm, hss, hsorted'⟩
  simp only [sortShmMapRegOutside, hgroup, Option.bind_eq_bind, Option.bind_some, hsort, htail,
    ← hsortedDef]
  rw [Option.bind_eq_some_iff] at hsplice
  obtain ⟨mid, hmid, hlast⟩ := hsplice
  have hnext : sorted.next = next₁ := by rw [hsortedDef]
  rw [hnext] at hmid
  simp [hmid, hlast]

end Lists

end Tapplet.Shm
