import Tapplet.Reass.Cache

/-!
# A fragment of a known datagram

What `foundNode` does, by cases: the fragment is a duplicate, or it is appended and the
datagram is given up, complete or still waiting.
-/

namespace Tapplet.Reass

open Linked

variable {env : Env} {s : Worker} {o : Outside} {d : Datagram} {f : Fragment}
  {fs : List Fragment}

/-! ## Reading after writing -/

section Read

variable (s) (n : NodeId) (D D' : NodeIpReass)

@[simp] theorem setNode_node_self : (s.setNode n D).node n = D := Function.update_self ..

theorem setNode_node_of_ne {m : NodeId} (h : m ≠ n) : (s.setNode n D).node m = s.node m :=
  Function.update_of_ne h ..

@[simp] theorem setNode_setNode : (s.setNode n D).setNode n D' = s.setNode n D' := by
  simp [Worker.setNode]

@[simp] theorem setNode_view : (s.setNode n D).view = s.view := rfl

@[simp] theorem setNode_wdata : (s.setNode n D).wdata = s.wdata := rfl

@[simp] theorem setNode_record : (s.setNode n D).record = s.record := rfl

@[simp] theorem setRecord_view (b : BufferId) (r : IpReassRecord) :
    (s.setRecord b r).view = s.view := rfl

@[simp] theorem setRecord_record_self (b : BufferId) (r : IpReassRecord) :
    (s.setRecord b r).record b = r := Function.update_self ..

theorem setRecord_record_of_ne {b c : BufferId} (h : c ≠ b) (r : IpReassRecord) :
    (s.setRecord b r).record c = s.record c := Function.update_of_ne h ..

theorem load_add (mem : PacketMem) (p : DataPtr) (k i : Nat) :
    load mem (p.add k) i = load mem p (k + i) := by
  obtain ⟨_ | b, off⟩ := p
  · rfl
  · simp [load, DataPtr.add, Nat.add_assoc]

end Read

/-- The view of an intact buffer. -/
theorem FragOk.view (h : FragOk s f) : s.view f.buffer = f.view := by
  funext i
  rw [Worker.view, Wdata.current, h.wdata, load_add, h.data, Fragment.view]

/-- The state after a fragment was linked behind `tail` and its node set to `D`. -/
def linkFrag (s : Worker) (tail : BufferId) (f : Fragment) (n : NodeId) (D : NodeIpReass) :
    Worker :=
  (s.setRecord tail { s.record tail with nextFrag := some f.buffer }).setNode n D

theorem exists_tail (hok : DatagramOk s d) : ∃ tail, (buffers d.frags).getLast? = some tail := by
  have hcount := hok.list.count
  have hne : buffers d.frags ≠ [] := by
    intro hnil
    have hlen := congrArg List.length hnil
    rw [buffers_length, List.length_nil] at hlen
    omega
  exact ⟨_, List.getLast?_eq_getLast_of_ne_nil hne⟩

/-- The loop over the cached fragments looks for a duplicate. -/
theorem hasOffset_eq (hok : DatagramOk s d) :
    hasOffset s (s.node d.node) f.offset = true ↔ Duplicate d.frags f := by
  have hfuel : (buffers d.frags).length ≤ (s.node d.node).cachePktNum + 1 :=
    Nat.le_of_eq ((buffers_length _).trans hok.list.count.symm)
  rw [hasOffset, hok.list.head, search_of_seg hok.chain.linked hfuel, List.find?_isSome]
  simp only [decide_eq_true_eq]
  constructor
  · rintro ⟨b, hb, hoff⟩
    obtain ⟨g, hg, rfl⟩ := List.mem_map.mp hb
    exact ⟨g, hg, (hok.chain.ok g hg).fragOffset.symm.trans hoff⟩
  · rintro ⟨g, hg, hoff⟩
    exact ⟨g.buffer, List.mem_map_of_mem hg, (hok.chain.ok g hg).fragOffset.trans hoff⟩

/-- Appending a fragment to a node with room. -/
theorem appendFrag_eq (hok : DatagramOk s d) {tail : BufferId}
    (htail : (buffers d.frags).getLast? = some tail) :
    ∃ D, appendFrag s d.node f.buffer = linkFrag s tail f d.node D ∧
      NodeList D d.key (d.frags ++ [f]) ∧ NodeSums D d.frags ∧
      D.cachePktNum = d.frags.length := by
  obtain ⟨⟨hkey, hhead, htail', hcount⟩, hsums, -, -, hshort, -⟩ := hok
  have hlen : ((s.node d.node).cachePktNum + 1) % 2 ^ 8 = d.frags.length := by
    rw [hcount]
    have hten : d.frags.length ≤ 10 := hshort
    omega
  refine ⟨{ s.node d.node with
    tail := some f.buffer
    cachePktNum := ((s.node d.node).cachePktNum + 1) % 2 ^ 8 }, ?_, ⟨hkey, ?_, ?_, ?_⟩,
    ⟨hsums.meet, hsums.total, hsums.last⟩, hlen⟩
  · have htail'' : (s.node d.node).tail = some tail := htail'.trans htail
    simp only [appendFrag, htail'', linkFrag]
  · rw [buffers_append, List.head?_append, ← hhead]
    cases hp : (s.node d.node).head with
    | some b => rfl
    | none =>
        rw [hhead, List.head?_eq_none_iff] at hp
        simp [hp] at htail
  · simp
  · rw [List.length_append, List.length_singleton]
    exact congrArg (· + 1) hlen

/-- The cases of a fragment whose datagram has a node. -/
theorem foundNode_cases (env : Env) (o : Outside) (hok : DatagramOk s d) (hf : FragOk s f)
    (hashIndex : Nat) :
    (Duplicate d.frags f ∧
      foundNode f.version.fields env s o f.buffer d.node hashIndex = (s, some f.buffer, 1)) ∨
    ∃ tail D, (buffers d.frags).getLast? = some tail ∧ NodeList D d.key (d.frags ++ [f]) ∧
      ¬Duplicate d.frags f ∧
      (((TooMany d.frags ∨ TooLarge f) ∧
          foundNode f.version.fields env s o f.buffer d.node hashIndex =
            dropDatagram (linkFrag s tail f d.node D) d.node hashIndex) ∨
        (¬TooMany d.frags ∧ ¬TooLarge f ∧ NodeSums D (d.frags ++ [f]) ∧
          ((Completes d.frags f ∧ foundNode f.version.fields env s o f.buffer d.node hashIndex =
              completeDatagram f.version.fields env (linkFrag s tail f d.node D) o d.node
                hashIndex) ∨
            (¬Completes d.frags f ∧
              foundNode f.version.fields env s o f.buffer d.node hashIndex =
                (linkFrag s tail f d.node D, none, 0))))) := by
  have hview : s.view f.buffer = f.view := hf.view
  rw [foundNode]
  by_cases hdup : Duplicate d.frags f
  · left
    refine ⟨hdup, ?_⟩
    simp only [hf.fragOffset, (hasOffset_eq hok).mpr hdup, if_true]
  right
  obtain ⟨tail, htail⟩ := exists_tail hok
  obtain ⟨D, happend, hlist, hsums, hcount⟩ := appendFrag_eq (f := f) hok htail
  have hnot : hasOffset s (s.node d.node) f.offset = false := by
    rw [Bool.eq_false_iff, ne_eq, hasOffset_eq hok]
    exact hdup
  simp only [hf.fragOffset, hnot, happend, Bool.false_eq_true, if_false]
  have hnode : (linkFrag s tail f d.node D).node d.node = D := setNode_node_self ..
  by_cases hmany : TooMany d.frags
  · refine ⟨tail, D, htail, hlist, hdup, .inl ⟨.inl hmany, ?_⟩⟩
    rw [hnode, if_pos (by rw [hcount]; exact hmany)]
  rw [hnode, if_neg (by rw [hcount]; exact hmany)]
  have hlast : f.version.fields.isLast (s.wdata f.buffer)
      ((linkFrag s tail f d.node D).view f.buffer) = f.isLast := by
    rw [linkFrag, setNode_view, setRecord_view, hview, hf.wdata]
    rfl
  rw [hlast]
  -- the node after the last fragment has fixed the total length
  obtain ⟨D', hset, hlist', hmeet', htotal', hlast', hcount'⟩ : ∃ D' : NodeIpReass,
      (if f.isLast = true then setTotalLen (linkFrag s tail f d.node D) d.node
          (s.record f.buffer) else linkFrag s tail f d.node D) = linkFrag s tail f d.node D' ∧
      NodeList D' d.key (d.frags ++ [f]) ∧ D'.meetLen = meetLen d.frags ∧
      D'.totalLen = totalLen (d.frags ++ [f]) ∧ D'.recvLastFrag = recvLastFrag (d.frags ++ [f]) ∧
      D'.cachePktNum = d.frags.length := by
    by_cases hl : f.isLast
    · refine ⟨{ D with
        recvLastFrag := 1
        totalLen := (f.offset + f.size) % 2 ^ 16 }, ?_, ⟨hlist.1, hlist.2, hlist.3, hlist.4⟩,
        hsums.meet, ?_, ?_, hcount⟩
      · rw [if_pos hl, setTotalLen, hnode, hf.fragOffset, hf.fragSize, linkFrag, setNode_setNode]
        rfl
      · rw [totalLen_append, if_pos hl]
        rfl
      · rw [recvLastFrag_append, if_pos hl]
    · refine ⟨D, if_neg hl, hlist, hsums.meet, ?_, ?_, hcount⟩
      · rw [totalLen_append, if_neg hl, hsums.total]
      · rw [recvLastFrag_append, if_neg hl, hsums.last]
  have hnode' : (linkFrag s tail f d.node D').node d.node = D' := setNode_node_self ..
  rw [hset, hnode', hf.wdata]
  have hlarge : (f.isLast = true ∧ sfHugePktMaxDataSize < D'.totalLen + f.wdata.currentData) ↔
      TooLarge f := by
    rw [TooLarge, htotal', totalLen_append]
    refine and_congr_right fun hl => ?_
    rw [if_pos hl]
    exact Iff.rfl
  by_cases hbig : TooLarge f
  · refine ⟨tail, D', htail, hlist', hdup, .inl ⟨.inr hbig, ?_⟩⟩
    rw [if_pos (hlarge.mpr hbig)]
  rw [if_neg (mt hlarge.mp hbig)]
  have hlink : ∀ E E', (linkFrag s tail f d.node E).setNode d.node E' =
      linkFrag s tail f d.node E' := fun E E' => setNode_setNode ..
  have hsum : (D'.meetLen + (s.record f.buffer).fragSize) % 2 ^ 16 = meetLen (d.frags ++ [f]) := by
    rw [meetLen_append, hmeet', hf.fragSize]
  have hnodeOf : ∀ E, (linkFrag s tail f d.node E).node d.node = E := fun E =>
    setNode_node_self ..
  simp only [hlink, hnodeOf, hsum]
  by_cases hdone : Completes d.frags f
  · refine ⟨tail, { D' with meetLen := meetLen (d.frags ++ [f]) }, htail,
      ⟨hlist'.1, hlist'.2, hlist'.3, hlist'.4⟩, hdup,
      .inr ⟨hmany, hbig, ⟨rfl, htotal', hlast'⟩, .inl ⟨hdone, ?_⟩⟩⟩
    rw [if_pos (by rw [htotal']; exact hdone)]
  · refine ⟨tail, { D' with
      meetLen := meetLen (d.frags ++ [f])
      recvNewPktInInterval := 1 }, htail, ⟨hlist'.1, hlist'.2, hlist'.3, hlist'.4⟩, hdup,
      .inr ⟨hmany, hbig, ⟨rfl, htotal', hlast'⟩, .inr ⟨hdone, ?_⟩⟩⟩
    rw [if_neg (by rw [htotal']; exact hdone)]

end Tapplet.Reass
