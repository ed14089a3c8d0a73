import Tapplet.Reass.Basic

/-!
# Datagrams

What reassembly is about, without the memory that it uses: a datagram is a key with the
fragments that have arrived for it, in order of arrival. `Handles` says what one more
fragment does to the datagrams that are waiting, and what is handed back.

A fragment is what a buffer held when it arrived. Everything the code reads from it is a
function of its metadata and its bytes.
-/

namespace Tapplet.Reass

/-- A fragment: its buffer, the node it went to, and the metadata and bytes it came with.
`output` is the output switch of its interface. -/
structure Fragment where
  buffer : BufferId
  version : Version
  wdata : Wdata
  data : Nat → UInt8
  output : Nat

namespace Fragment

variable (f : Fragment)

def view : View := fun i => f.data (f.wdata.currentData + i)

def key : KeyIpReass := f.version.fields.key f.wdata f.view

def offset : Nat := f.version.fields.fragOffset f.wdata f.view

def isLast : Bool := f.version.fields.isLast f.wdata f.view

def size : Nat := f.wdata.ipWdata.payloadLen

def hdrLen : Nat := f.wdata.ipWdata.headerLen

/-- The bytes before the IP header. -/
def before : Nat := f.wdata.currentData

def stop : Nat := f.offset + f.size

/-- The payload. -/
def body (i : Nat) : UInt8 := f.view (f.hdrLen + i)

end Fragment

def buffers (fs : List Fragment) : List BufferId := fs.map (·.buffer)

@[simp] theorem buffers_nil : buffers [] = [] := rfl

@[simp] theorem buffers_cons (f : Fragment) (fs : List Fragment) :
    buffers (f :: fs) = f.buffer :: buffers fs := rfl

@[simp] theorem buffers_append (fs gs : List Fragment) :
    buffers (fs ++ gs) = buffers fs ++ buffers gs := List.map_append ..

@[simp] theorem buffers_length (fs : List Fragment) : (buffers fs).length = fs.length :=
  List.length_map ..

/-- The bytes received, as the node counts them. -/
def meetLen (fs : List Fragment) : Nat := (fs.map Fragment.size).sum % 2 ^ 16

/-- The total length: the last fragment that arrived without the more-fragments bit fixes it. -/
def totalLen (fs : List Fragment) : Nat :=
  match (fs.filter (·.isLast)).getLast? with
  | none => 0
  | some f => f.stop % 2 ^ 16

def recvLastFrag (fs : List Fragment) : Nat := if fs.any (·.isLast) then 1 else 0

theorem meetLen_append (fs : List Fragment) (f : Fragment) :
    meetLen (fs ++ [f]) = (meetLen fs + f.size) % 2 ^ 16 := by
  simp [meetLen]

theorem totalLen_append (fs : List Fragment) (f : Fragment) :
    totalLen (fs ++ [f]) = if f.isLast then f.stop % 2 ^ 16 else totalLen fs := by
  by_cases h : f.isLast
  · simp [totalLen, h]
  · simp [totalLen, h]

theorem recvLastFrag_append (fs : List Fragment) (f : Fragment) :
    recvLastFrag (fs ++ [f]) = if f.isLast then 1 else recvLastFrag fs := by
  by_cases h : f.isLast
  · simp [recvLastFrag, h]
  · simp [recvLastFrag, h]

/-- A datagram that is waiting: its hash node, its timer info and its fragments. -/
structure Datagram where
  node : NodeId
  info : Nat
  key : KeyIpReass
  frags : List Fragment

/-- The hash of the key of a datagram. -/
def Datagram.hashIndex (env : Env) (d : Datagram) : Nat := env.getHashIndex d.key.bytes

/-- The buffers that the datagrams hold. -/
def cachedBuffers (live : List Datagram) : List BufferId := live.flatMap fun d => buffers d.frags

@[simp] theorem cachedBuffers_append (live live' : List Datagram) :
    cachedBuffers (live ++ live') = cachedBuffers live ++ cachedBuffers live' :=
  List.flatMap_append ..

@[simp] theorem cachedBuffers_cons (d : Datagram) (live : List Datagram) :
    cachedBuffers (d :: live) = buffers d.frags ++ cachedBuffers live := rfl

theorem mem_cachedBuffers {live : List Datagram} {d : Datagram} {f : Fragment} (hd : d ∈ live)
    (hf : f ∈ d.frags) : f.buffer ∈ cachedBuffers live :=
  List.mem_flatMap.mpr ⟨d, hd, List.mem_map_of_mem hf⟩

/-! ## What an arrival does -/

section

variable (fs : List Fragment) (f : Fragment)

def Duplicate : Prop := ∃ g ∈ fs, g.offset = f.offset

/-- One more fragment is too many. -/
def TooMany : Prop := ipReassMaxCachePkts ≤ fs.length

/-- The total length does not fit, as the node checks it on the last fragment. -/
def TooLarge : Prop := f.isLast ∧ sfHugePktMaxDataSize < f.stop % 2 ^ 16 + f.before

/-- The bytes received are as many as the total length. -/
def Completes : Prop := meetLen (fs ++ [f]) = totalLen (fs ++ [f])

end

/-- The layer of the fragment is not reassembled. -/
def LayerOver (o : Outside) (f : Fragment) : Prop :=
  o.ipReassLayers (f.wdata.interfaceId - 1) < f.wdata.ipWdataCnt

/-- What a fragment does to the datagrams that are waiting, with the buffer and the status that
are returned. -/
inductive Handles (o : Outside) (f : Fragment) :
    List Datagram → List Datagram → Option BufferId → Int → Prop where
  | layer {live} (beyond : LayerOver o f) : Handles o f live live (some f.buffer) (-1)
  | refused {live} (within : ¬LayerOver o f) (unknown : ∀ d ∈ live, d.key ≠ f.key)
      (short : o.newNode = none ∨ o.newInfo = none ∨ o.newChunk = none) :
      Handles o f live live (some f.buffer) 1
  | first {live} {n : NodeId} {info : Nat} (within : ¬LayerOver o f)
      (unknown : ∀ d ∈ live, d.key ≠ f.key) (node : o.newNode = some n)
      (timer : o.newInfo = some info) :
      Handles o f live (⟨n, info, f.key, [f]⟩ :: live) none 0
  | duplicate {live} {d : Datagram} (within : ¬LayerOver o f) (known : d ∈ live)
      (key : d.key = f.key) (dup : Duplicate d.frags f) :
      Handles o f live live (some f.buffer) 1
  | waits {l₁ l₂} {d : Datagram} (within : ¬LayerOver o f) (key : d.key = f.key)
      (new : ¬Duplicate d.frags f) (few : ¬TooMany d.frags) (small : ¬TooLarge f)
      (more : ¬Completes d.frags f) :
      Handles o f (l₁ ++ d :: l₂) (l₁ ++ { d with frags := d.frags ++ [f] } :: l₂) none 0
  | givenUp {l₁ l₂} {d : Datagram} (within : ¬LayerOver o f) (key : d.key = f.key)
      (new : ¬Duplicate d.frags f) (bad : TooMany d.frags ∨ TooLarge f) :
      Handles o f (l₁ ++ d :: l₂) (l₁ ++ l₂) (buffers (d.frags ++ [f])).head? d.frags.length
  | unbuilt {l₁ l₂} {d : Datagram} (within : ¬LayerOver o f) (key : d.key = f.key)
      (new : ¬Duplicate d.frags f) (few : ¬TooMany d.frags) (small : ¬TooLarge f)
      (done : Completes d.frags f) (short : o.newBuffer = none) :
      Handles o f (l₁ ++ d :: l₂) (l₁ ++ l₂) (buffers (d.frags ++ [f])).head? d.frags.length
  | built {l₁ l₂} {d : Datagram} {b : BufferId} (within : ¬LayerOver o f) (key : d.key = f.key)
      (new : ¬Duplicate d.frags f) (few : ¬TooMany d.frags) (small : ¬TooLarge f)
      (done : Completes d.frags f) (buffer : o.newBuffer = some b) :
      Handles o f (l₁ ++ d :: l₂) (l₁ ++ l₂) (some b) 0

end Tapplet.Reass
