import Tapplet.Reass.Conserved

/-!
# What a node of the table caches

The fragments behind a node of the hash table, as the code finds them: from the head of its
list on. They share the key of the node, and so everything that the key is made of.
-/

namespace Tapplet.Reass

open Linked GenericHash SfTimer Transition

/-- The fragments that the node `n` caches, in order of arrival. -/
def System.nodeFrags (S : System) (n : NodeId) : List Fragment :=
  (S.worker.chain ((S.worker.node n).cachePktNum + 1) (S.worker.node n).head).map S.fragment

/-- The fragments that are cached for a key. -/
def System.cached (env : Env) (S : System) (key : KeyIpReass) : List Fragment :=
  match S.worker.hashFind (env.getHashIndex key.bytes) key with
  | none => []
  | some n => S.nodeFrags n

/-- The two fragments are cached in one node of the table. -/
def System.Together (env : Env) (S : System) (f g : Fragment) : Prop :=
  ∃ key n, S.worker.hashFind (env.getHashIndex key.bytes) key = some n ∧ f ∈ S.nodeFrags n ∧
    g ∈ S.nodeFrags n

variable {env : Env} {nenv : NodeEnv} {S T : System} {live : List Datagram}
  {kids : BufferId → List BufferId} {es : List Event} {d : Datagram} {key : KeyIpReass}
  {n : NodeId} {f g : Fragment}

namespace Inv

theorem nodeFrags_eq (h : Inv env S live kids) (hd : d ∈ live) : S.nodeFrags d.node = d.frags := by
  have hok := h.cache.ok d hd
  have hchain := hok.chain.fuel_chain (Nat.le_of_eq hok.list.count.symm)
  rw [System.nodeFrags, hok.list.head, hchain, buffers, List.map_map]
  refine (List.map_congr_left fun f hf => ?_).trans (List.map_id _)
  exact (h.known d hd f hf).1

/-- The lookup of a key finds the node of its datagram, or nothing. -/
theorem find_cases (h : Inv env S live kids) (key : KeyIpReass) :
    (∃ d ∈ live, d.key = key ∧
      S.worker.hashFind (env.getHashIndex key.bytes) key = some d.node) ∨
    (∀ d ∈ live, d.key ≠ key) ∧ S.worker.hashFind (env.getHashIndex key.bytes) key = none := by
  by_cases hknown : ∃ d ∈ live, d.key = key
  · obtain ⟨d, hd, rfl⟩ := hknown
    exact .inl ⟨d, hd, rfl, h.cache.hashFind_eq hd⟩
  · have hunknown : ∀ d ∈ live, d.key ≠ key := fun d hd hkey => hknown ⟨d, hd, hkey⟩
    exact .inr ⟨hunknown, h.cache.hashFind_none hunknown _⟩

theorem cached_eq (h : Inv env S live kids) (hd : d ∈ live) : S.cached env d.key = d.frags := by
  have hfind := h.cache.hashFind_eq hd
  rw [Datagram.hashIndex] at hfind
  rw [System.cached, hfind]
  exact h.nodeFrags_eq hd

theorem cached_eq_nil (h : Inv env S live kids) (unknown : ∀ d ∈ live, d.key ≠ key) :
    S.cached env key = [] := by
  rw [System.cached, h.cache.hashFind_none unknown]

end Inv

/-! ## What the fragments of a node have in common -/

namespace Fragment

/-- The source address, an IPv4 address as the first four of sixteen bytes. -/
def sip (f : Fragment) : IpAddr :=
  match f.version with
  | .ip4 => .ofV4 (load32 f.view 12)
  | .ip6 => f.wdata.ipWdata.sip

/-- The destination address, an IPv4 address as the first four of sixteen bytes. -/
def dip (f : Fragment) : IpAddr :=
  match f.version with
  | .ip4 => .ofV4 (load32 f.view 16)
  | .ip6 => f.wdata.ipWdata.dip

/-- The identification, from the IPv4 header or from the IPv6 fragment header. -/
def identification (f : Fragment) : Nat :=
  match f.version with
  | .ip4 => load16 f.view 4
  | .ip6 => (load32 f.view (f.hdrLen - ipv6FragHeaderLen + 4)).toNat

/-- The encapsulation layer. -/
def layer (f : Fragment) : Nat := f.wdata.ipWdataCnt

/-- The next protocol. -/
def protocol (f : Fragment) : Nat := f.wdata.ipWdata.protocol

theorem load16_lt (v : View) (i : Nat) : load16 v i < 2 ^ 16 := by
  have hlow := (v i).toNat_lt
  have hhigh := (v (i + 1)).toNat_lt
  rw [load16]
  omega

/-- The key is made of the addresses, the identification and the layer. -/
theorem key_eq (f : Fragment) :
    f.key = ⟨f.sip, f.dip, UInt32.ofNat f.identification, UInt32.ofNat f.layer⟩ := by
  obtain ⟨b, v, w, data, output⟩ := f
  cases v with
  | ip4 => rfl
  | ip6 =>
      simp only [key, sip, dip, identification, layer, Version.fields, ip6Fields, hdrLen,
        UInt32.ofNat_toNat]

theorem identification_lt (f : Fragment) : f.identification < 2 ^ 32 := by
  obtain ⟨b, v, w, data, output⟩ := f
  cases v with
  | ip4 =>
      have hlt : identification ⟨b, .ip4, w, data, output⟩ < 2 ^ 16 := load16_lt _ _
      omega
  | ip6 => exact UInt32.toNat_lt _

end Fragment

/-- The fragments agree on everything that the key holds. -/
structure SameDatagram (f g : Fragment) : Prop where
  sip : f.sip = g.sip
  dip : f.dip = g.dip
  identification : f.identification = g.identification
  layer : f.layer = g.layer

theorem sameDatagram_of_key (hkey : f.key = g.key) (hf : f.layer < 2 ^ 8) (hg : g.layer < 2 ^ 8) :
    SameDatagram f g := by
  rw [f.key_eq, g.key_eq, KeyIpReass.mk.injEq] at hkey
  obtain ⟨hsip, hdip, hid, hlayer⟩ := hkey
  have cut : ∀ x y : Nat, x < 2 ^ 32 → y < 2 ^ 32 → UInt32.ofNat x = UInt32.ofNat y → x = y := by
    intro x y hx hy hxy
    have hnat := congrArg UInt32.toNat hxy
    rwa [UInt32.toNat_ofNat_of_lt' hx, UInt32.toNat_ofNat_of_lt' hy] at hnat
  exact ⟨hsip, hdip, cut _ _ f.identification_lt g.identification_lt hid,
    cut _ _ (by omega) (by omega) hlayer⟩

/-- Two fragments are cached in one node only if they agree on their addresses, identification
and layer. -/
theorem cached_only_with_same_datagram (room_pos : ∀ k, 0 < nenv.room k)
    (registered : nenv.nextIndexVec sfTwTimerGroupIpReass ≠ 0) {w : Worker} {arr : EnqueueArrays}
    {start interval : Nat} (hstart : start < 2 ^ 64) (hpos : 0 < interval)
    (run : Run (Step env nenv) (.init w arr start interval) es S) (together : S.Together env f g) :
    SameDatagram f g := by
  obtain ⟨live, kids, h⟩ := inv_of_run room_pos registered hstart hpos run
  obtain ⟨key, n, found, hf, hg⟩ := together
  obtain ⟨d, hd, -, hfind⟩ | ⟨-, hnone⟩ := h.find_cases key
  · rw [found] at hfind
    obtain rfl : n = d.node := Option.some.inj hfind
    rw [h.nodeFrags_eq hd] at hf hg
    have hkeys := (h.cache.ok d hd).keys
    exact sameDatagram_of_key ((hkeys f hf).trans (hkeys g hg).symm) (h.known d hd f hf).2
      (h.known d hd g hg).2
  · rw [found] at hnone
    cases hnone

/-! Three fragments with the same addresses and identification: IPv4 with TCP, IPv4 with UDP,
and IPv6 with TCP. -/

def sampleMixed : List Event :=
  [samplePacket 1 32 0 8,
    .packet .ip4 2
      { sampleWdata 2 8 with ipWdata := { (sampleWdata 2 8).ipWdata with protocol := 17 } }
      (sampleBytes 32 1 0) (sampleOutside 2),
    .packet .ip6 3
      { sampleWdata 3 8 with
        ipWdata := { (sampleWdata 3 8).ipWdata with version := 6, headerLen := 48 } }
      (fun i => if i = 57 then 17 else 0) (sampleOutside 3)]

theorem sampleMixedRun : Run (Step sampleEnv sampleNodeEnv) sampleInit sampleMixed
    (sampleAfter sampleMixed) := by
  have hchecked : Checked Enabled (System.after sampleEnv sampleNodeEnv) sampleInit
      sampleMixed := by decide +kernel
  exact .of_checked (fun _ _ h => ⟨h, rfl⟩) hchecked

theorem sampleMixed_together {b c : BufferId} (hb : b ∈ [1, 2, 3]) (hc : c ∈ [1, 2, 3]) :
    (sampleAfter sampleMixed).Together sampleEnv ((sampleAfter sampleMixed).fragment b)
      ((sampleAfter sampleMixed).fragment c) := by
  have hnode : (sampleAfter sampleMixed).worker.hashFind 0 ⟨⟨0, 0⟩, ⟨0, 0⟩, 0, 1⟩ = some 1 ∧
      (sampleAfter sampleMixed).worker.chain
        (((sampleAfter sampleMixed).worker.node 1).cachePktNum + 1)
        ((sampleAfter sampleMixed).worker.node 1).head = [1, 2, 3] := by decide +kernel
  refine ⟨⟨⟨0, 0⟩, ⟨0, 0⟩, 0, 1⟩, 1, hnode.1, ?_, ?_⟩
  · rw [System.nodeFrags, hnode.2]
    exact List.mem_map_of_mem hb
  · rw [System.nodeFrags, hnode.2]
    exact List.mem_map_of_mem hc

theorem cached_only_with_same_datagram_mixed :
    SameDatagram ((sampleAfter sampleMixed).fragment 1) ((sampleAfter sampleMixed).fragment 3) :=
  cached_only_with_same_datagram (fun _ => Nat.one_pos) (by decide) (by decide) (by decide)
    sampleMixedRun (sampleMixed_together (by simp) (by simp))

/-- Neither the IP version nor, within one version, the next protocol keeps fragments apart. -/
theorem versions_and_protocols_mixed :
    (¬∀ es S f g, Run (Step sampleEnv sampleNodeEnv) sampleInit es S →
      S.Together sampleEnv f g → f.version = g.version) ∧
    ¬∀ es S f g, Run (Step sampleEnv sampleNodeEnv) sampleInit es S →
      S.Together sampleEnv f g → f.version = g.version → f.protocol = g.protocol := by
  constructor
  · intro claim
    have hsame := claim _ _ _ _ sampleMixedRun
      (sampleMixed_together (b := 1) (c := 3) (by simp) (by simp))
    exact absurd hsame (by decide +kernel)
  · intro claim
    have hsame := claim _ _ _ _ sampleMixedRun
      (sampleMixed_together (b := 1) (c := 2) (by simp) (by simp)) (by decide +kernel)
    exact absurd hsame (by decide +kernel)

end Tapplet.Reass
