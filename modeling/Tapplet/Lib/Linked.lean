import Mathlib.Data.List.Nodup
import Mathlib.Tactic.Common

/-!
# Linked lists in a pointer memory

`next` is the memory that a linked structure lives in: it gives, for each cell, the
pointer the cell stores (`none` is the null pointer). `Seg next p xs q` says that
following it from `p` visits exactly the cells `xs` and stops at `q`. `DSeg` is the
doubly linked version. Each lemma is a fact about one way such structures change:
linking a cell in front, appending at the end, unlinking one cell, and the frame
rule that writes to other cells leave a segment alone.
-/

namespace Linked

variable {α : Type*} {next next' prev prev' : α → Option α}

/-- Following `next` from `p` visits the cells `xs` in order and stops at `q`. -/
def Seg (next : α → Option α) : Option α → List α → Option α → Prop
  | p, [], q => p = q
  | p, x :: xs, q => p = some x ∧ Seg next (next x) xs q

@[simp] theorem seg_nil {p q : Option α} : Seg next p [] q ↔ p = q := Iff.rfl

@[simp] theorem seg_cons {p q : Option α} {x : α} {xs : List α} :
    Seg next p (x :: xs) q ↔ p = some x ∧ Seg next (next x) xs q := Iff.rfl

namespace Seg

/-- A segment is determined by its start when it ends at the null pointer. -/
theorem unique {p : Option α} {xs ys : List α} (hx : Seg next p xs none)
    (hy : Seg next p ys none) : xs = ys := by
  induction xs generalizing p ys with
  | nil =>
      cases ys with
      | nil => rfl
      | cons y ys =>
          rw [seg_nil] at hx
          simp [hx] at hy
  | cons x xs ih =>
      cases ys with
      | nil =>
          rw [seg_nil] at hy
          simp [hy] at hx
      | cons y ys =>
          obtain ⟨rfl, hx⟩ := hx
          obtain ⟨hxy, hy⟩ := hy
          obtain rfl := Option.some.inj hxy
          rw [ih hx hy]

/-- Frame rule: a segment only depends on the links of its own cells. -/
theorem congr {p q : Option α} {xs : List α} (h : Seg next p xs q)
    (same : ∀ x ∈ xs, next' x = next x) : Seg next' p xs q := by
  induction xs generalizing p with
  | nil => exact h
  | cons x xs ih =>
      refine ⟨h.1, ?_⟩
      rw [same x (by simp)]
      exact ih h.2 fun y hy => same y (by simp [hy])

/-- A write to a cell that is not in the segment leaves it alone. -/
theorem update [DecidableEq α] {p q v : Option α} {xs : List α} {c : α}
    (h : Seg next p xs q) (hc : c ∉ xs) : Seg (Function.update next c v) p xs q :=
  h.congr fun _ hx => Function.update_of_ne (ne_of_mem_of_not_mem hx hc) _ _

theorem append_iff {p r : Option α} {xs ys : List α} :
    Seg next p (xs ++ ys) r ↔ ∃ q, Seg next p xs q ∧ Seg next q ys r := by
  induction xs generalizing p with
  | nil => simp
  | cons x xs ih => simp [ih, and_assoc]

/-- The start of a segment that ends at the null pointer is its first cell. -/
theorem head?_eq {p : Option α} {xs : List α} (h : Seg next p xs none) : p = xs.head? := by
  cases xs with
  | nil => exact h
  | cons x xs => exact h.1

theorem eq_none_iff {p : Option α} {xs : List α} (h : Seg next p xs none) :
    p = none ↔ xs = [] := by
  rw [h.head?_eq, List.head?_eq_none_iff]

/-- Link a new cell in front of a segment. -/
theorem push [DecidableEq α] {p q : Option α} {xs : List α} {c : α} (h : Seg next p xs q)
    (hc : c ∉ xs) : Seg (Function.update next c p) (some c) (c :: xs) q := by
  refine ⟨rfl, ?_⟩
  rw [Function.update_self]
  exact h.update hc

/-- Redirect the link of the last cell: the segment now stops where that link points. -/
theorem relink_last [DecidableEq α] {p q r : Option α} {xs : List α} {c : α}
    (h : Seg next p (xs ++ [c]) q) (hc : c ∉ xs) :
    Seg (Function.update next c r) p (xs ++ [c]) r := by
  obtain ⟨m, hxs, hm, -⟩ := append_iff.mp h
  exact append_iff.mpr ⟨m, hxs.update hc, hm, by simp⟩

/-- Two segments joined by redirecting the last link of the first one. -/
theorem join [DecidableEq α] {p q r s : Option α} {xs ys : List α} {c : α}
    (h₁ : Seg next p (xs ++ [c]) q) (h₂ : Seg next r ys s) (hxs : c ∉ xs) (hys : c ∉ ys) :
    Seg (Function.update next c r) p (xs ++ [c] ++ ys) s :=
  append_iff.mpr ⟨r, h₁.relink_last hxs, h₂.update hys⟩

/-- Link a new cell behind the cell `c` of a null-terminated segment. -/
theorem insert_after [DecidableEq α] {p : Option α} {xs ys : List α} {c d : α}
    (h : Seg next p (xs ++ c :: ys) none) (hd : d ∉ xs ++ c :: ys)
    (nodup : (xs ++ c :: ys).Nodup) :
    Seg (Function.update (Function.update next d ys.head?) c (some d)) p (xs ++ c :: d :: ys)
      none := by
  obtain ⟨q, hxs, rfl, hys⟩ := append_iff.mp h
  have hc : c ∉ xs ++ ys := (List.nodup_middle.mp nodup).notMem
  simp only [List.mem_append, List.mem_cons, not_or] at hd hc
  refine append_iff.mpr ⟨some c, (hxs.update hd.1).update hc.1, rfl, ?_⟩
  rw [Function.update_self]
  refine ⟨rfl, ?_⟩
  rw [Function.update_of_ne hd.2.1, Function.update_self, ← hys.head?_eq]
  exact (hys.update hd.2.2).update hc.2

/-- A null-terminated segment visits no cell twice. -/
theorem nodup {p : Option α} {xs : List α} (h : Seg next p xs none) : xs.Nodup := by
  induction xs generalizing p with
  | nil => exact List.nodup_nil
  | cons x xs ih =>
      refine List.nodup_cons.mpr ⟨fun hmem => ?_, ih h.2⟩
      -- the second visit would have to be followed by the same cells as the first
      obtain ⟨us, vs, rfl⟩ := List.append_of_mem hmem
      obtain ⟨q, -, rfl, hvs⟩ := append_iff.mp h.2
      have hlen := congrArg List.length (hvs.unique h.2)
      simp at hlen
      omega

end Seg

/-! ## Segments that end -/

/-- Following `next` from `p` comes past the cell `c`. -/
def Reaches (next : α → Option α) (p : Option α) (c : α) : Prop := ∃ xs, Seg next p xs (some c)

/-- Following `next` from `p` comes to an end. -/
def Ends (next : α → Option α) (p : Option α) : Prop := ∃ xs, Seg next p xs none

theorem Ends.none : Ends next none := ⟨[], rfl⟩

theorem not_reaches_none {c : α} : ¬Reaches next none c := by
  rintro ⟨xs, h⟩
  cases xs with
  | nil => cases h
  | cons x xs => cases h.1

theorem Seg.mem_iff_reaches {p : Option α} {xs : List α} {c : α} (h : Seg next p xs none) :
    c ∈ xs ↔ Reaches next p c := by
  constructor
  · intro hmem
    obtain ⟨us, vs, rfl⟩ := List.append_of_mem hmem
    obtain ⟨q, hus, rfl, -⟩ := append_iff.mp h
    exact ⟨us, hus⟩
  · rintro ⟨us, hus⟩
    induction us generalizing p xs with
    | nil =>
        obtain rfl := hus
        cases xs with
        | nil => cases h
        | cons x xs =>
            cases h.1
            exact List.mem_cons_self
    | cons u us ih =>
        obtain ⟨rfl, hus⟩ := hus
        cases xs with
        | nil => cases h
        | cons x xs =>
            obtain ⟨hx, h⟩ := h
            cases hx
            exact List.mem_cons_of_mem _ (ih h hus)

/-- Linking the cell `c` to an ending segment that does not come past it leaves every ending
segment an ending one. -/
theorem Ends.relink [DecidableEq α] {p q : Option α} {c : α} (hq : Ends next q)
    (hp : Ends next p) (hc : ¬Reaches next p c) : Ends (Function.update next c p) q := by
  obtain ⟨xs, hxs⟩ := hp
  obtain ⟨ys, hys⟩ := hq
  have hcxs : c ∉ xs := mt hxs.mem_iff_reaches.mp hc
  by_cases hmem : c ∈ ys
  · obtain ⟨us, vs, rfl, hus⟩ := List.eq_append_cons_of_mem hmem
    obtain ⟨m, hfirst, rfl, -⟩ := Seg.append_iff.mp hys
    exact ⟨us ++ c :: xs, Seg.append_iff.mpr ⟨some c, hfirst.update hus, hxs.push hcxs⟩⟩
  · exact ⟨ys, hys.update hmem⟩

/-- A cell that is linked to a segment that comes past it is followed for ever. -/
theorem Reaches.not_ends [DecidableEq α] {p : Option α} {c : α} (h : Reaches next p c)
    (hp : Ends next p) : ¬Ends (Function.update next c p) (some c) := by
  obtain ⟨xs, hxs⟩ := hp
  obtain ⟨us, vs, rfl, hus⟩ := List.eq_append_cons_of_mem (hxs.mem_iff_reaches.mpr h)
  obtain ⟨m, hfirst, rfl, -⟩ := Seg.append_iff.mp hxs
  rintro ⟨zs, hzs⟩
  cases zs with
  | nil => cases hzs
  | cons z zs =>
      have hz := hzs
      obtain ⟨hcz, hrest⟩ := hz
      cases hcz
      rw [Function.update_self] at hrest
      -- around the cycle once more, the same cells would be visited again
      have hround := Seg.append_iff.mpr ⟨some c, hfirst.update hus, hzs⟩
      have hlen := congrArg List.length (hrest.unique hround)
      simp at hlen
      omega

/-- The cells that a loop `while (p != NULL) p = p->next` visits; `none` when it does
not end within `fuel` rounds. -/
def collect (next : α → Option α) : Nat → Option α → Option (List α)
  | _, none => some []
  | 0, some _ => none
  | fuel + 1, some x => (collect next fuel (next x)).map (x :: ·)

@[simp] theorem collect_none (fuel : Nat) : collect next fuel none = some [] := by
  cases fuel <;> rfl

/-- The loop visits a null-terminated segment when it has enough fuel for it. -/
theorem collect_of_seg {p : Option α} {xs : List α} {fuel : Nat} (h : Seg next p xs none)
    (hfuel : xs.length ≤ fuel) : collect next fuel p = some xs := by
  induction xs generalizing p fuel with
  | nil =>
      rw [seg_nil] at h
      simp [h]
  | cons x xs ih =>
      obtain ⟨rfl, h⟩ := h
      cases fuel with
      | zero => simp at hfuel
      | succ fuel =>
          have hrest : collect next fuel (next x) = some xs :=
            ih h (by simpa using hfuel)
          simp [collect, hrest]

/-- A loop `while (p != NULL)` that stops at the first cell that is `found`, for at most
`fuel` rounds. -/
def search (next : α → Option α) (found : α → Bool) : Nat → Option α → Option α
  | _, none => none
  | 0, some _ => none
  | fuel + 1, some x => if found x then some x else search next found fuel (next x)

/-- On a null-terminated segment the loop answers with its first cell that is `found`. -/
theorem search_of_seg {found : α → Bool} {p : Option α} {xs : List α} {fuel : Nat}
    (h : Seg next p xs none) (hfuel : xs.length ≤ fuel) :
    search next found fuel p = xs.find? found := by
  induction xs generalizing p fuel with
  | nil =>
      obtain rfl : p = none := h
      unfold search
      rfl
  | cons x xs ih =>
      obtain ⟨rfl, h⟩ := h
      cases fuel with
      | zero => simp at hfuel
      | succ fuel =>
          rw [search, List.find?_cons]
          by_cases hx : found x
          · simp [hx]
          · simp [hx, ih h (by simpa using hfuel)]

/-- A null-terminated doubly linked list: `before` is the cell in front of it. -/
def DSeg (prev next : α → Option α) : Option α → Option α → List α → Prop
  | _, p, [] => p = none
  | before, p, x :: xs => p = some x ∧ prev x = before ∧ DSeg prev next (some x) (next x) xs

@[simp] theorem dseg_nil {before p : Option α} : DSeg prev next before p [] ↔ p = none := Iff.rfl

@[simp] theorem dseg_cons {before p : Option α} {x : α} {xs : List α} :
    DSeg prev next before p (x :: xs) ↔
      p = some x ∧ prev x = before ∧ DSeg prev next (some x) (next x) xs := Iff.rfl

namespace DSeg

/-- Forgetting the back links. -/
theorem seg {before p : Option α} {xs : List α} (h : DSeg prev next before p xs) :
    Seg next p xs none := by
  induction xs generalizing before p with
  | nil => exact h
  | cons x xs ih => exact ⟨h.1, ih h.2.2⟩

theorem congr {before p : Option α} {xs : List α} (h : DSeg prev next before p xs)
    (samePrev : ∀ x ∈ xs, prev' x = prev x) (sameNext : ∀ x ∈ xs, next' x = next x) :
    DSeg prev' next' before p xs := by
  induction xs generalizing before p with
  | nil => exact h
  | cons x xs ih =>
      refine ⟨h.1, (samePrev x (by simp)).trans h.2.1, ?_⟩
      rw [sameNext x (by simp)]
      exact ih h.2.2 (fun y hy => samePrev y (by simp [hy])) fun y hy => sameNext y (by simp [hy])

/-- Link a new cell in front of a list: the old first cell gets a back link to it. -/
theorem push {p : Option α} {xs : List α} {c : α} (h : DSeg prev next none p xs)
    (hnodup : xs.Nodup) (prevNew : prev' c = none) (nextNew : next' c = p)
    (prevHead : ∀ x, p = some x → prev' x = some c)
    (samePrev : ∀ x ∈ xs, p ≠ some x → prev' x = prev x)
    (sameNext : ∀ x ∈ xs, next' x = next x) : DSeg prev' next' none (some c) (c :: xs) := by
  refine ⟨rfl, prevNew, ?_⟩
  rw [nextNew]
  cases xs with
  | nil => exact h
  | cons y ys =>
      obtain ⟨rfl, -, hrest⟩ := h
      obtain ⟨hy, -⟩ := List.nodup_cons.mp hnodup
      refine ⟨rfl, prevHead y rfl, ?_⟩
      rw [sameNext y (by simp)]
      refine hrest.congr (fun x hx => samePrev x (by simp [hx]) ?_)
        fun x hx => sameNext x (by simp [hx])
      rintro hyx
      obtain rfl := Option.some.inj hyx
      exact hy hx

/-- The only cell without a predecessor link in a list without a cell before it is the first. -/
theorem eq_head_of_prev_none {p : Option α} {xs : List α} {x : α}
    (h : DSeg prev next none p xs) (hx : x ∈ xs) (hprev : prev x = none) : p = some x := by
  cases xs with
  | nil => simp at hx
  | cons y ys =>
      rcases List.mem_cons.mp hx with rfl | hx
      · exact h.1
      · have key : ∀ {zs : List α} {b q}, DSeg prev next (some b) q zs → x ∈ zs → False := by
          intro zs
          induction zs with
          | nil => intro b q _ hmem; simp at hmem
          | cons z zs ih =>
              intro b q hz hmem
              rcases List.mem_cons.mp hmem with rfl | hmem
              · simp [hprev] at hz
              · exact ih hz.2.2 hmem
        exact (key h.2.2 hx).elim

/-- The back link of a cell inside a list: the cell before it. -/
theorem prev_mid {before p : Option α} {xs ys : List α} {c : α}
    (h : DSeg prev next before p (xs ++ c :: ys)) : prev c = xs.getLast?.or before := by
  induction xs generalizing before p with
  | nil => simpa using h.2.1
  | cons x xs ih =>
      rw [ih h.2.2]
      cases xs with
      | nil => simp
      | cons y ys =>
          rw [List.getLast?_cons_cons, List.getLast?_eq_getLast_of_ne_nil (by simp)]
          rfl

/-- The link of a cell inside a list: the cell behind it. -/
theorem next_mid {before p : Option α} {xs ys : List α} {c : α}
    (h : DSeg prev next before p (xs ++ c :: ys)) : next c = ys.head? := by
  obtain ⟨q, -, hq⟩ := Seg.append_iff.mp h.seg
  exact hq.2.head?_eq

/-- Unlink one cell: the cell behind it gets its back link, the one before it its link. -/
theorem unlink [DecidableEq α] {before p : Option α} {xs ys : List α} {c : α}
    (h : DSeg prev next before p (xs ++ c :: ys)) (hnodup : (xs ++ c :: ys).Nodup)
    (hbefore : ∀ b ∈ before, b ∉ xs ++ c :: ys)
    (prevNew : ∀ x ∈ xs ++ ys, prev' x = if next c = some x then prev c else prev x)
    (nextNew : ∀ x ∈ xs ++ ys, next' x = if prev c = some x then next c else next x) :
    DSeg prev' next' before (if xs = [] then next c else p) (xs ++ ys) := by
  have hc := h.next_mid
  induction xs generalizing before p with
  | nil =>
      obtain ⟨rfl, hprev, hrest⟩ := h
      rw [if_pos rfl, List.nil_append]
      cases ys with
      | nil => exact hc
      | cons y ys =>
          rw [List.head?_cons] at hc
          obtain ⟨-, -, hrest⟩ := hrest
          have hne : ∀ x ∈ y :: ys, prev c ≠ some x := by
            intro x hx heq
            exact hbefore x (hprev ▸ heq) (List.mem_cons_of_mem _ hx)
          have hy : y ∉ ys := by
            have htail := (List.nodup_cons.mp hnodup).2
            exact (List.nodup_cons.mp htail).1
          refine ⟨hc, ?_, ?_⟩
          · rw [prevNew y (by simp), if_pos hc, hprev]
          · rw [nextNew y (by simp), if_neg (hne y (by simp))]
            refine hrest.congr (fun x hx => ?_) fun x hx => ?_
            · rw [prevNew x (by simp [hx]), if_neg]
              rw [hc, Option.some.injEq]
              rintro rfl
              exact hy hx
            · rw [nextNew x (by simp [hx]), if_neg (hne x (by simp [hx]))]
  | cons x xs ih =>
      obtain ⟨hx, hnodupTail⟩ := List.nodup_cons.mp hnodup
      obtain ⟨rfl, hprev, hrest⟩ := h
      have hnc : next c ≠ some x := by
        intro heq
        rw [hc] at heq
        exact hx (List.mem_append_right _ (List.mem_cons_of_mem _ (List.mem_of_head? heq)))
      have htail := ih hrest hnodupTail (by rintro b ⟨⟩; exact hx)
        (fun z hz => prevNew z (by simp [List.mem_append.mp hz]))
        (fun z hz => nextNew z (by simp [List.mem_append.mp hz]))
      rw [if_neg (by simp)]
      refine ⟨rfl, ?_, ?_⟩
      · rw [prevNew x (by simp), if_neg hnc, hprev]
      · rw [nextNew x (by simp), hrest.prev_mid]
        cases xs with
        | nil => simpa using htail
        | cons z zs =>
            rw [if_neg]
            · simpa using htail
            · intro heq
              have hlast : (z :: zs).getLast? = some x := by
                rw [List.getLast?_cons] at heq ⊢
                simpa using heq
              exact hx (List.mem_append_left _ (List.mem_of_getLast? hlast))

end DSeg

end Linked
