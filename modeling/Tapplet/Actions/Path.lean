import Tapplet.Actions.Headers

/-!
# The path of a packet

The headers of a packet are put in front of it one by one, while the list of its nodes stays as it
was made, as long as the headers do not reach it. So the packet visits the nodes of its action in
their order, and has the headers of those that it has visited.
-/

namespace Tapplet.Actions

open Memory Transition

/-! ## Packets -/

namespace Packet

variable {p : Packet} {bytes : List UInt8} {i : Nat} {v : UInt8} {rest : List UInt8}

@[simp] theorem store_recvAt (a : Int) : (p.store a bytes).recvAt = p.recvAt := rfl
@[simp] theorem store_currentData (a : Int) : (p.store a bytes).currentData = p.currentData := rfl
@[simp] theorem store_currentLength (a : Int) :
    (p.store a bytes).currentLength = p.currentLength := rfl
@[simp] theorem prepend_recvAt : (p.prepend bytes).recvAt = p.recvAt := rfl

/-- The current data fits its 16 bits, and the list of the nodes lies outside of the frame with
`n` bytes in front of it. -/
structure Headroom (p : Packet) (n : Nat) : Prop where
  data : -2 ^ 15 ≤ p.currentData.toInt - n
  list : p.recvAt + 64 ≤ p.currentData.toInt - n ∨
    p.currentData.toInt + p.currentLength.toNat ≤ p.recvAt

theorem Headroom.mono {m n : Nat} (h : p.Headroom n) (hle : m ≤ n) : p.Headroom m := by
  obtain ⟨hdata, hlist⟩ := h
  exact ⟨by omega, by omega⟩

theorem prepend_current (h : -2 ^ 15 ≤ p.currentData.toInt - bytes.length) :
    (p.prepend bytes).currentData.toInt = p.currentData.toInt - bytes.length := by
  have hlt := p.currentData.toInt_lt
  have hle := p.currentData.le_toInt
  show (p.currentData - Int16.ofNat bytes.length).toInt = _
  rw [Int16.toInt_sub, Int16.toInt_ofNat', Int.sub_bmod_bmod, show Int16.size = 65536 from rfl]
  exact Int.bmod_eq_of_le (by omega) (by omega)

theorem prepend_length (h : p.currentLength.toNat + bytes.length < 2 ^ 16) :
    (p.prepend bytes).currentLength.toNat = p.currentLength.toNat + bytes.length := by
  show (p.currentLength + UInt16.ofNat bytes.length).toNat = _
  rw [UInt16.toNat_add, UInt16.toNat_ofNat', Nat.add_mod_mod]
  exact Nat.mod_eq_of_lt h

theorem prepend_length_le :
    (p.prepend bytes).currentLength.toNat ≤ p.currentLength.toNat + bytes.length := by
  show (p.currentLength + UInt16.ofNat bytes.length).toNat ≤ _
  rw [UInt16.toNat_add, UInt16.toNat_ofNat', Nat.add_mod_mod]
  exact Nat.mod_le _ _

theorem Headroom.prepend {n : Nat} (h : p.Headroom (bytes.length + n)) :
    (p.prepend bytes).Headroom n := by
  have hlength := @prepend_length_le p bytes
  obtain ⟨hdata, hlist⟩ := h
  have hcurrent := @prepend_current p bytes (by omega)
  have hrecv : (p.prepend bytes).recvAt = p.recvAt := rfl
  exact ⟨by omega, by omega⟩

/-- The frame with the bytes in front. -/
theorem prepend_frame (hdata : -2 ^ 15 ≤ p.currentData.toInt - bytes.length)
    (hshort : p.currentLength.toNat + bytes.length < 2 ^ 16) :
    (p.prepend bytes).frame = bytes ++ p.frame := by
  rw [frame, prepend_current hdata, prepend_length hshort, Nat.add_comm]
  exact load_store_append (by omega)

/-! ## The list -/

/-- The nodes that are still to be taken from the list. -/
def Listed (p : Packet) (i : Nat) (rest : List UInt8) : Prop :=
  rest = [] ∨ p.preIndex.toNat = i ∧ i + rest.length ≤ 60 ∧
    load p.mem (p.recvAt + 4 + i) rest.length = rest

/-- What is written beside the nodes and their index leaves the list as it is. -/
theorem Listed.store {a : Int} (h : p.Listed i rest)
    (beside : a + bytes.length ≤ p.recvAt + 2 ∨ p.recvAt + 64 ≤ a) :
    (p.store a bytes).Listed i rest := by
  obtain h | ⟨hindex, hroom, hload⟩ := h
  · exact .inl h
  · refine .inr ⟨?_, hroom, ?_⟩
    · have hkept : (p.store a bytes).preIndex = p.preIndex := by
        obtain h | h := beside
        · exact store_of_ge h
        · exact store_of_lt (show p.recvAt + 2 < a by omega)
      rw [hkept, hindex]
    · refine Eq.trans (load_store_of_disjoint ?_) hload
      show p.recvAt + 4 + i + rest.length ≤ a ∨ a + bytes.length ≤ p.recvAt + 4 + i
      omega

theorem Listed.pop (h : p.Listed i (v :: rest)) :
    p.popAddtionalList.2 = v ∧ p.popAddtionalList.1.Listed (i + 1) rest := by
  obtain h | ⟨hindex, hroom, hload⟩ := h
  · cases h
  · rw [List.length_cons] at hroom hload
    rw [Nat.add_comm, load_add] at hload
    obtain ⟨hhead, htail⟩ :=
      List.cons.inj (show p.mem (p.recvAt + 4 + i + (0 : Nat)) :: _ = _ from hload)
    refine ⟨?_, ?_⟩
    · show p.mem (p.recvAt + 4 + p.preIndex.toNat) = v
      rw [hindex, ← hhead]
      congr 1
      omega
    · refine .inr ⟨?_, by omega, ?_⟩
      · have hset : p.popAddtionalList.1.preIndex = p.preIndex + 1 :=
          store_self
        rw [hset, UInt8.toNat_add, hindex]
        exact Nat.mod_eq_of_lt (by show i + 1 < 256; omega)
      · refine Eq.trans (load_store_of_disjoint (.inr ?_)) (Eq.trans ?_ htail)
        · show p.recvAt + 2 + (1 : Nat) ≤ p.recvAt + 4 + (i + 1 : Nat)
          omega
        · show load p.mem (p.recvAt + 4 + (i + 1 : Nat)) _ = load p.mem (p.recvAt + 4 + i + 1) _
          congr 1
          omega

/-- The two packets are the same but for their lists. -/
structure ListOnly (p q : Packet) : Prop where
  recvAt : q.recvAt = p.recvAt
  currentData : q.currentData = p.currentData
  currentLength : q.currentLength = p.currentLength
  arg1ToNext : q.arg1ToNext = p.arg1ToNext
  mem : ∀ i, i < p.recvAt ∨ p.recvAt + 64 ≤ i → q.mem i = p.mem i

theorem ListOnly.refl (p : Packet) : p.ListOnly p := ⟨rfl, rfl, rfl, rfl, fun _ _ => rfl⟩

theorem ListOnly.trans {q r : Packet} (h : p.ListOnly q) (h' : q.ListOnly r) : p.ListOnly r where
  recvAt := h'.recvAt.trans h.recvAt
  currentData := h'.currentData.trans h.currentData
  currentLength := h'.currentLength.trans h.currentLength
  arg1ToNext := h'.arg1ToNext.trans h.arg1ToNext
  mem i hi := (h'.mem i (by rwa [h.recvAt])).trans (h.mem i hi)

/-- What is written within the list. -/
theorem listOnly_store {a : Int} (hlow : p.recvAt ≤ a) (hhigh : a + bytes.length ≤ p.recvAt + 64) :
    p.ListOnly (p.store a bytes) where
  recvAt := rfl
  currentData := rfl
  currentLength := rfl
  arg1ToNext := rfl
  mem i hi := by
    obtain hi | hi := hi
    · exact store_of_lt (by omega)
    · exact store_of_ge (by omega)

/-- The list lies outside of the frame. -/
theorem ListOnly.frame {q : Packet} (h : p.ListOnly q) (headroom : p.Headroom 0) :
    q.frame = p.frame := by
  have hlist := headroom.list
  rw [Packet.frame, Packet.frame, h.currentData, h.currentLength]
  exact load_congr fun i hlow hhigh => h.mem i (by omega)

theorem listOnly_pop : p.ListOnly p.popAddtionalList.1 :=
  listOnly_store (by omega) (show p.recvAt + 2 + (1 : Nat) ≤ p.recvAt + 64 by omega)

theorem listOnly_addDelta {size : Nat} : p.ListOnly (p.addDelta size) :=
  listOnly_store (Int.le_refl _) (show p.recvAt + (2 : Nat) ≤ p.recvAt + 64 by omega)

/-! ## Making the list -/

/-- The list as far as it is made. -/
structure Made (p : Packet) (list : List UInt8) : Prop where
  index : p.preIndex.toNat = list.length
  nodes : load p.mem (p.recvAt + 4) list.length = list

theorem Made.append (h : p.Made rest) (hroom : rest.length < 60) :
    (p.appendAddtionalList v).Made (rest ++ [v]) ∧ p.ListOnly (p.appendAddtionalList v) := by
  have hat : p.recvAt + 4 + p.preIndex.toNat = p.recvAt + 4 + rest.length := by rw [h.index]
  have hkept : (p.store (p.recvAt + 4 + p.preIndex.toNat) [v]).preIndex = p.preIndex :=
    store_of_lt (show p.recvAt + 2 < p.recvAt + 4 + p.preIndex.toNat by omega)
  have hindex : (p.appendAddtionalList v).preIndex = p.preIndex + 1 := by
    refine Eq.trans store_self ?_
    rw [hkept]
  refine ⟨⟨?_, ?_⟩, ?_⟩
  · rw [hindex, UInt8.toNat_add, h.index, List.length_append]
    exact Nat.mod_eq_of_lt (show rest.length + 1 < 256 by omega)
  · have hbeside : load (p.appendAddtionalList v).mem (p.recvAt + 4) (rest.length + 1) =
        load (p.store (p.recvAt + 4 + p.preIndex.toNat) [v]).mem (p.recvAt + 4) (rest.length + 1) :=
      load_store_of_disjoint (.inr (show p.recvAt + 2 + (1 : Nat) ≤ p.recvAt + 4 by omega))
    show load (p.appendAddtionalList v).mem (p.recvAt + 4) (rest ++ [v]).length = _
    rw [List.length_append, List.length_singleton, hbeside, hat, load_add]
    show load (Memory.store p.mem _ [v]) _ _ ++ load (Memory.store p.mem _ [v]) _ [v].length = _
    rw [load_store, load_store_of_disjoint (.inl (Int.le_refl _)), h.nodes]
  · refine ListOnly.trans (listOnly_store (by omega) ?_) (listOnly_store ?_ ?_)
    · rw [hat, List.length_singleton]
      omega
    · exact show p.recvAt ≤ p.recvAt + 2 by omega
    · exact show p.recvAt + 2 + (1 : Nat) ≤ p.recvAt + 64 by omega

theorem Made.appends (h : p.Made rest)
    {list : List UInt8} (hroom : rest.length + list.length ≤ 60) :
    (list.foldl appendAddtionalList p).Made (rest ++ list) ∧
      p.ListOnly (list.foldl appendAddtionalList p) := by
  induction list generalizing p rest with
  | nil =>
      rw [List.append_nil]
      exact ⟨h, .refl p⟩
  | cons w list ih =>
      rw [List.length_cons] at hroom
      obtain ⟨hmade, honly⟩ := @Made.append p w rest h (by omega)
      obtain ⟨hmade', honly'⟩ := ih hmade (by rw [List.length_append, List.length_singleton]; omega)
      rw [List.append_assoc] at hmade'
      exact ⟨hmade', honly.trans honly'⟩

/-- A list that was made is taken from the start. -/
theorem Made.listed (h : p.Made rest) (hroom : rest.length ≤ 60) :
    (p.setPreIndex 0).Listed 0 rest := by
  refine .inr ⟨?_, by omega, ?_⟩
  · exact congrArg UInt8.toNat store_self
  · refine Eq.trans (load_store_of_disjoint (.inr ?_)) ?_
    · show p.recvAt + 2 + (1 : Nat) ≤ p.recvAt + 4 + (0 : Nat)
      omega
    · refine Eq.trans ?_ h.nodes
      congr 1
      exact Int.add_zero _

theorem Gets.listOnly {q : Packet} (h : p.Gets bytes q) : (p.prepend bytes).ListOnly q := by
  obtain rfl | ⟨size, rfl⟩ := h
  · exact .refl _
  · exact listOnly_addDelta

theorem Gets.listed {q : Packet} (h : p.Gets bytes q) (headroom : p.Headroom bytes.length)
    (hlisted : p.Listed i rest) : q.Listed i rest := by
  have hbeside := headroom.list
  have hprepend : (p.prepend bytes).Listed i rest :=
    @Listed.store p bytes i rest _ hlisted (by omega)
  obtain rfl | ⟨size, rfl⟩ := h
  · exact hprepend
  · exact hprepend.store (.inl (Int.le_refl _))

end Packet

/-! ## On the way -/

/-- The index of a node among the next nodes. -/
def Node.index : Node → UInt8
  | .gre => SF_NEXT_NODE_ACTION_GRE_ENCAPSULATION
  | .erspan => SF_NEXT_NODE_ACTION_ERSPAN_ENCAPSULATION
  | .vxlan => SF_NEXT_NODE_ACTION_VXLAN_ENCAPSULATION

theorem nodeAt_index (n : Node) : nodeAt n.index = some n := by
  cases n <;> rfl

/-- The headers of the nodes are put in front of `hs` one by one, and give `hs'`. There are `len`
bytes behind `hs`. -/
def Grown (e : Encapsulations) (len : Nat) : List Node → List UInt8 → List UInt8 → Prop
  | [], hs, hs' => hs' = hs
  | n :: ns, hs, hs' => ∃ h, n.Header e (hs.length + len) h ∧ Grown e len ns (h ++ hs) hs'

theorem Grown.concat {e : Encapsulations} {len : Nat} {ns : List Node} {n : Node}
    {hs hs' h : List UInt8} (hgrown : Grown e len ns hs hs')
    (hh : n.Header e (hs'.length + len) h) : Grown e len (ns ++ [n]) hs (h ++ hs') := by
  induction ns generalizing hs with
  | nil =>
      cases hgrown
      exact ⟨h, hh, rfl⟩
  | cons m ns ih =>
      obtain ⟨h', hh', hrest⟩ := hgrown
      exact ⟨h', hh', ih hrest⟩

/-- Where the packet `p` is after the nodes `done`, with the headers `hs` in front of it: the
nodes `rest` are still to come, and then the one with the index `last`. -/
structure Underway (d : Dataplane) (e : Encapsulations) (p : Packet) (last : UInt8)
    (done rest : List Node) (hs : List UInt8) (s : Arrival) : Prop where
  arg1ToNext : s.1.arg1ToNext = p.arg1ToNext
  recvAt : s.1.recvAt = p.recvAt
  next : ∃ list, s.2 :: list = rest.map Node.index ++ [last] ∧ s.1.Listed (done.length + 1) list
  size : hs.length = (done.map e.size).sum
  current : s.1.currentData.toInt = p.currentData.toInt - hs.length
  length_le : s.1.currentLength.toNat ≤ p.currentLength.toNat + hs.length
  length : p.currentLength.toNat + hs.length < 2 ^ 16 →
    s.1.currentLength.toNat = p.currentLength.toNat + hs.length
  frame : p.currentLength.toNat + hs.length < 2 ^ 16 → s.1.frame = hs ++ p.frame
  grown : d.ChecksumComplements → p.currentLength.toNat + hs.length < 2 ^ 16 →
    Grown e p.currentLength.toNat done [] hs

namespace Underway

variable {d : Dataplane} {e : Encapsulations} {p : Packet} {last : UInt8} {done rest : List Node}
  {hs : List UInt8} {s t : Arrival} {n m : Node}

/-- The next node comes first. -/
theorem next_cons (h : Underway d e p last done (n :: rest) hs s) : s.2 = n.index := by
  obtain ⟨list, hlist, -⟩ := h.next
  exact (List.cons.inj (show s.2 :: list = n.index :: _ from hlist)).1

/-- The node `last` comes behind the others. -/
theorem next_nil (h : Underway d e p last done [] hs s) : s.2 = last := by
  obtain ⟨list, hlist, -⟩ := h.next
  exact (List.cons.inj hlist).1

theorem headroom {k : Nat} (h : Underway d e p last done rest hs s)
    (headroom : p.Headroom (hs.length + k)) : s.1.Headroom k := by
  obtain ⟨hdata, hlist⟩ := headroom
  have hcurrent := h.current
  have hlength := h.length_le
  have hrecv := h.recvAt
  exact ⟨by omega, by omega⟩

/-- What the next node gives to the packet. -/
theorem gets {bytes : List UInt8} {q : Packet}
    (h : Underway d e p last done (n :: rest) hs s)
    (headroom : p.Headroom (hs.length + e.size n)) (hgets : Encapsulates d e n s.1 bytes q) :
    Underway d e p last (done ++ [n]) rest (bytes ++ hs) q.popAddtionalList := by
  obtain ⟨list, hlist, hlisted⟩ := h.next
  obtain ⟨-, hrest⟩ := List.cons.inj (show s.2 :: list = n.index :: _ from hlist)
  have hroom : s.1.Headroom bytes.length := by
    rw [hgets.length]
    exact h.headroom headroom
  have honly : (s.1.prepend bytes).ListOnly q.popAddtionalList.1 :=
    hgets.gets.listOnly.trans Packet.listOnly_pop
  obtain ⟨v, list', hcons⟩ : ∃ v list', list = v :: list' := by
    cases list with
    | nil => cases rest <;> cases hrest
    | cons v list' => exact ⟨v, list', rfl⟩
  rw [hcons] at hlisted hrest
  obtain ⟨hv, hlisted'⟩ := (hgets.gets.listed hroom hlisted).pop
  have hsize : (bytes ++ hs).length = bytes.length + hs.length := List.length_append
  constructor
  case arg1ToNext => exact honly.arg1ToNext.trans h.arg1ToNext
  case recvAt => exact honly.recvAt.trans h.recvAt
  case next =>
    refine ⟨list', ?_, ?_⟩
    · rw [hv]
      exact hrest
    · rw [List.length_append, List.length_singleton]
      exact hlisted'
  case size =>
    rw [hsize, hgets.length, h.size, List.map_append, List.sum_append, Nat.add_comm]
    rfl
  case current =>
    rw [honly.currentData, Packet.prepend_current hroom.data, h.current, hsize]
    omega
  case length_le =>
    have hle := @Packet.prepend_length_le s.1 bytes
    have hlength := h.length_le
    rw [honly.currentLength, hsize]
    omega
  case length =>
    intro hshort
    rw [hsize] at hshort
    have hlength := h.length (by omega)
    rw [honly.currentLength, Packet.prepend_length (by omega), hlength, hsize]
    omega
  case frame =>
    intro hshort
    rw [hsize] at hshort
    have hlength := h.length (by omega)
    rw [honly.frame (Packet.Headroom.prepend hroom),
      Packet.prepend_frame hroom.data (by omega), h.frame (by omega), List.append_assoc]
  case grown =>
    intro complements hshort
    rw [hsize] at hshort
    have hlength := h.length (by omega)
    have hheader := hgets.header complements (by rw [← hgets.length]; omega)
    rw [hlength, Nat.add_comm] at hheader
    exact (h.grown complements (by omega)).concat hheader

section

variable (hencap : (d.conf.actions p.arg1ToNext.toNat).additionalActions = e.toAdditional)
include hencap

/-- The next node has a header for the packet. -/
theorem single (h : Underway d e p last done (n :: rest) hs s) (hn : n ∈ e.nodes)
    (headroom : p.Headroom (hs.length + e.size n)) (option : UInt32) :
    ∃ hs', Underway d e p last (done ++ [n]) rest hs' (n.single d option s.1).2 := by
  have hconf : (getActionPtrNocheck d s.1).additionalActions = e.toAdditional := by
    rw [getActionPtrNocheck, h.arg1ToNext, hencap]
  obtain ⟨bytes, hbytes⟩ := n.encap_encapsulates option hconf hn
  exact ⟨_, h.gets headroom hbytes⟩

/-- A node that is visited is the next one, and puts its header in front of the others. -/
theorem visit (h : Underway d e p last done (n :: rest) hs s) (hn : n ∈ e.nodes)
    (headroom : p.Headroom (hs.length + e.size n)) (hvisit : Visits d s m t) :
    m = n ∧ ∃ hs', Underway d e p last (done ++ [n]) rest hs' t := by
  obtain ⟨hm, option, rfl⟩ := visits_iff.mp hvisit
  rw [h.next_cons, nodeAt_index] at hm
  obtain rfl := Option.some.inj hm
  exact ⟨rfl, h.single hencap hn headroom option⟩

/-- Every way through the nodes goes along the list. -/
theorem run {path : List Node} (h : Underway d e p last done rest hs s)
    (hlast : nodeAt last = none) (hnodes : ∀ n ∈ rest, n ∈ e.nodes)
    (headroom : p.Headroom ((done ++ rest).map e.size).sum)
    (hrun : Run (Visits d) s path t) :
    ∃ rest' hs', rest = path ++ rest' ∧ Underway d e p last (done ++ path) rest' hs' t := by
  induction hrun generalizing done rest hs with
  | refl s => exact ⟨rest, hs, rfl, by rwa [List.append_nil]⟩
  | @cons s m u path t hvisit _ ih =>
      cases rest with
      | nil =>
          have hm := hvisit.1
          rw [h.next_nil, hlast] at hm
          cases hm
      | cons n rest =>
          obtain ⟨hn, hrest⟩ := List.forall_mem_cons.mp hnodes
          rw [List.append_cons] at headroom
          obtain ⟨rfl, hs', hu⟩ := h.visit hencap hn (headroom.mono (by
            rw [h.size, List.map_append, List.map_append, List.sum_append, List.sum_append]
            exact Nat.le_add_right _ _)) hvisit
          obtain ⟨rest', hs'', rfl, ht⟩ := ih hu hrest headroom
          exact ⟨rest', hs'', rfl, by rwa [List.append_cons]⟩

/-- There is a way along the list. -/
theorem exists_run {more : List Node} (h : Underway d e p last done (rest ++ more) hs s)
    (hnodes : ∀ n ∈ rest, n ∈ e.nodes) (headroom : p.Headroom ((done ++ rest).map e.size).sum) :
    ∃ hs' t, Run (Visits d) s rest t ∧ Underway d e p last (done ++ rest) more hs' t := by
  induction rest generalizing done hs s with
  | nil => exact ⟨hs, s, .refl s, by rwa [List.append_nil]⟩
  | cons n rest ih =>
      obtain ⟨hn, hrest⟩ := List.forall_mem_cons.mp hnodes
      rw [List.append_cons] at headroom
      obtain ⟨hs', hu⟩ := h.single hencap hn (headroom.mono (by
        rw [h.size, List.map_append, List.map_append, List.sum_append, List.sum_append]
        exact Nat.le_add_right _ _)) 0
      obtain ⟨hs'', t, hrun, ht⟩ := ih hu hrest headroom
      refine ⟨hs'', t, .cons (visits_iff.mpr ⟨?_, 0, rfl⟩) hrun, by rwa [List.append_cons]⟩
      rw [h.next_cons, nodeAt_index]

end

end Underway

/-! ## Entering -/

variable {d : Dataplane} {e : Encapsulations} {p : Packet} {a : Action} {s : Arrival}

/-- `arg_to_next` -/
def Packet.argToNext (p : Packet) : Nat := p.arg1ToNext.toNat + 65536 * p.arg2ToNext.toNat

/-- An action that is found has its id in the lower half of the argument. -/
theorem getAction_some (h : d.conf.getAction p.argToNext = some a) :
    d.conf.actions p.arg1ToNext.toNat = a := by
  rw [Conf.getAction] at h
  split at h
  next hvalid =>
    have hid := (isValidActionId_iff.mp hvalid).2
    have harg : p.argToNext = p.arg1ToNext.toNat := by
      rw [Packet.argToNext] at hid ⊢
      have hmax : (MAX_ACTION_NUM : Int) = 128 := rfl
      omega
    split at h
    next => cases h
    next => rw [← harg, Option.some.inj h]
  next => cases h

theorem appended_toAdditional (e : Encapsulations) :
    e.toAdditional.appended = e.nodes.map Node.index := by
  rw [AdditionalActions.appended, Encapsulations.nodes]
  show (if e.erspan.isSome then _ else _) ++ (if e.vxlan.isSome then _ else _) ++
    (if e.gre.isSome then _ else _) = _
  cases e.erspan.isSome <;> cases e.vxlan.isSome <;> cases e.gre.isSome <;> rfl

theorem switchFlags_toAdditional (e : Encapsulations) :
    e.toAdditional.switchFlags = false ↔ e.nodes = [] := by
  rw [AdditionalActions.switchFlags, Encapsulations.nodes]
  show (e.gre.isSome || e.vxlan.isSome || e.erspan.isSome) = false ↔ _
  cases e.erspan.isSome <;> cases e.vxlan.isSome <;> cases e.gre.isSome <;> decide

theorem length_nodes_le (e : Encapsulations) : e.nodes.length ≤ 3 := by
  rw [Encapsulations.nodes]
  cases e.erspan.isSome <;> cases e.vxlan.isSome <;> cases e.gre.isSome <;> decide

/-- An empty list is made. -/
theorem Packet.made_reset (delta : Nat) :
    (p.resetAddtionalList.setDelta delta).Made [] := by
  refine ⟨?_, rfl⟩
  have hdelta : (p.resetAddtionalList.setDelta delta).preIndex = p.resetAddtionalList.preIndex :=
    store_of_ge (Int.le_refl (p.recvAt + 2))
  have hreset : p.resetAddtionalList.preIndex = 0 :=
    @store_add _ p.mem p.recvAt 2 (.replicate 64 0) (by decide)
  rw [hdelta, hreset]
  rfl

/-- A packet with nothing but its list changed, at the first node. -/
theorem Underway.start {last : UInt8} {ns : List Node} {list : List UInt8} (headroom : p.Headroom 0)
    (honly : p.ListOnly s.1) (hlist : s.2 :: list = ns.map Node.index ++ [last])
    (hlisted : s.1.Listed 1 list) : Underway d e p last [] ns [] s := by
  constructor
  case arg1ToNext => exact honly.arg1ToNext
  case recvAt => exact honly.recvAt
  case next => exact ⟨list, hlist, hlisted⟩
  case size => rfl
  case current =>
    rw [honly.currentData]
    exact (Int.sub_zero _).symm
  case length_le => exact Nat.le_of_eq (congrArg UInt16.toNat honly.currentLength)
  case length => exact fun _ => congrArg UInt16.toNat honly.currentLength
  case frame => exact fun _ => honly.frame headroom
  case grown => exact fun _ _ => rfl

/-- The list is made, and its first node taken. -/
theorem Packet.made_pop {list : List UInt8} {v : UInt8} (delta : Nat) (hroom : list.length < 60) :
    let s := (((v :: list).foldl appendAddtionalList
      (p.resetAddtionalList.setDelta delta)).setPreIndex 0).popAddtionalList
    p.ListOnly s.1 ∧ s.2 = v ∧ s.1.Listed 1 list := by
  have hreset : p.ListOnly p.resetAddtionalList :=
    listOnly_store (Int.le_refl _) (show p.recvAt + (64 : Nat) ≤ p.recvAt + 64 by omega)
  have hdelta : p.resetAddtionalList.ListOnly (p.resetAddtionalList.setDelta delta) :=
    listOnly_store (Int.le_refl _) (show p.recvAt + (2 : Nat) ≤ p.recvAt + 64 by omega)
  have hroom' : ([] : List UInt8).length + (v :: list).length ≤ 60 := by
    rw [List.length_nil, List.length_cons]
    omega
  obtain ⟨hmade, happends⟩ := (@made_reset p delta).appends hroom'
  obtain ⟨q, hq⟩ : ∃ q, q = (v :: list).foldl appendAddtionalList
    (p.resetAddtionalList.setDelta delta) := ⟨_, rfl⟩
  rw [← hq] at hmade happends
  show p.ListOnly (((List.foldl _ _ _ : Packet).setPreIndex 0).popAddtionalList).1 ∧ _
  rw [← hq]
  have hindex : q.ListOnly (q.setPreIndex 0) :=
    listOnly_store (by omega) (show q.recvAt + 2 + (1 : Nat) ≤ q.recvAt + 64 by omega)
  have hlisted := hmade.listed (by rw [List.nil_append, List.length_cons]; omega)
  exact ⟨(((hreset.trans hdelta).trans happends).trans hindex).trans listOnly_pop, hlisted.pop⟩

theorem additional_of_getAction (haction : d.conf.getAction p.argToNext = some a)
    (hencap : a.additionalActions = e.toAdditional) :
    (d.conf.actions p.arg1ToNext.toNat).additionalActions = e.toAdditional := by
  rw [getAction_some haction, hencap]

/-- A packet of an action that does not drop it comes to the first node. -/
theorem underway_enter (haction : d.conf.getAction p.argToNext = some a)
    (hforward : a.type = ACTION_TYPE_FORWARD_INTERFACE ∨ a.type =
      ACTION_TYPE_LOAD_BALANCE_INTERFACES)
    (hencap : a.additionalActions = e.toAdditional) (headroom : p.Headroom 0) (hs : Enters d p s) :
    Underway d e p (actionTypeToNextIndex a.type) [] e.nodes [] s := by
  obtain rfl := enters_iff.mp hs
  have htype : ¬(a.type ≤ ACTION_TYPE_DROP ∨ ACTION_TYPE_COUNT ≤ a.type) := by
    obtain h | h := hforward <;> rw [h] <;> decide
  have haction' : d.conf.getAction (p.arg1ToNext.toNat + 65536 * p.arg2ToNext.toNat) = some a :=
    haction
  obtain ⟨q, hq⟩ : ∃ q, q = { p with arg2ToNext := 0, interfaceOut := a.forwardInterfaceId } :=
    ⟨_, rfl⟩
  have honly : p.ListOnly q := by
    rw [hq]
    exact ⟨rfl, rfl, rfl, rfl, fun _ _ => rfl⟩
  have hpath : getActionForwardPath d p = if e.toAdditional.switchFlags then
      (((e.nodes.map Node.index ++ [actionTypeToNextIndex a.type]).foldl Packet.appendAddtionalList
        (q.resetAddtionalList.setDelta (-p.currentData).toUInt16.toNat)).setPreIndex
          0).popAddtionalList
      else (q, actionTypeToNextIndex a.type) := by
    rw [getActionForwardPath, haction', ← appended_toAdditional, ← hencap, hq]
    exact if_neg htype
  rw [hpath]
  cases hswitch : e.toAdditional.switchFlags with
  | false =>
      rw [if_neg (by decide)]
      rw [(switchFlags_toAdditional e).mp hswitch]
      exact .start headroom honly rfl (.inl rfl)
  | true =>
      rw [if_pos rfl]
      obtain ⟨v, list, hlist⟩ : ∃ v list,
          e.nodes.map Node.index ++ [actionTypeToNextIndex a.type] = v :: list := by
        cases e.nodes with
        | nil => exact ⟨_, _, rfl⟩
        | cons n ns => exact ⟨_, _, rfl⟩
      have hlength : list.length ≤ 3 := by
        have hle := length_nodes_le e
        have heq := congrArg List.length hlist
        rw [List.length_append, List.length_map, List.length_singleton, List.length_cons] at heq
        omega
      rw [hlist]
      obtain ⟨honly', hv, hlisted⟩ := @Packet.made_pop q list v (-p.currentData).toUInt16.toNat
        (by omega)
      exact .start headroom (honly.trans honly') (by rw [hv, hlist]) hlisted

end Tapplet.Actions
