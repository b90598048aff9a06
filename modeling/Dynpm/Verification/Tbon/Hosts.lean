import Dynpm.Verification.Tbon.Network
import Dynpm.Verification.Tbon.PartialBroadcast

/-! # A broadcast among the hosts

The vertices that the hosts have initialised for themselves, once they are connected to their
children, are an overlay. Who receives a message can then be told from the hosts and the links
between them.
-/

namespace Dynpm.Tbon

open Library

/-- The hosts that have joined the tree of a request, with a connection from each of them to each
of its children. -/
structure Network where
  request : TreeRequest
  header : Protocol.Header
  buffer : Frame
  frame : Frame
  serialized : Protocol.serializeCreateTbonMsg header request.createTbon buffer = .ok frame
  malloc : List UInt8 → Garbage
  garbage : List UInt8 → ℤ
  vertices : List Vertex
  joined : setUpTree malloc garbage request.hostArray frame = .ok vertices
  connect : List UInt8 → List UInt8 → ℤ
  peerHost : List UInt8 → ℤ → List UInt8
  peerHost_connect : ∀ host child, child ∈ request.hostArray →
    peerHost host (connect host child) = child

/-- The hosts that a message can reach if a send over each of the broken links fails. -/
inductive HostServed (vertices : List Vertex) (broken : List UInt8 → List UInt8 → Bool) :
    List UInt8 → Prop where
  | root {root : Vertex} : vertices[0]? = some root → HostServed vertices broken root.localHost
  | child {parent : Vertex} {host : List UInt8} {j : ℕ} : parent ∈ vertices →
      HostServed vertices broken parent.localHost → parent.childHosts[j]? = some (some host) →
      (∀ i ≤ j, ∀ other, parent.childHosts[i]? = some (some other) →
        broken parent.localHost other = false) → HostServed vertices broken host

/-! ## Children by their index -/

section

variable {R : TreeRequest} {vertex : Vertex} {k j : ℕ}

/-- The child at an index has an id and a host. -/
theorem Vertex.At.host_of_childId (h : vertex.At R k) {child : ℤ}
    (hchild : vertex.childrenIds[j]? = some child) (hne : child ≠ -1) :
    ∃ host, vertex.childHosts[j]? = some (some host) ∧ 0 ≤ child ∧
      R.hostArray[child.toNat]? = some host := by
  have hhosts : R.hostArray.length = R.total := R.hosts
  have hj : j < R.degree := by
    have hlt := (List.getElem?_eq_some_iff.mp hchild).1
    rwa [h.childrenIds_eq, childrenOf, List.length_map, List.length_range, Int.toNat_natCast]
      at hlt
  rw [h.childrenIds_eq, getElem?_childrenOf hj] at hchild
  have hvalue : childOf R.degree R.total k j = child := Option.some.inj hchild
  rw [childOf] at hvalue
  split at hvalue
  case isTrue => exact absurd hvalue.symm hne
  case isFalse hin =>
    have hposition : child = ((R.degree * k + 1 + j : ℕ) : ℤ) := by
      push_cast
      omega
    have hlt : R.degree * k + 1 + j < R.hostArray.length := by
      have hlt' : ((R.degree * k + 1 + j : ℕ) : ℤ) < R.total := by omega
      omega
    refine ⟨R.hostArray[R.degree * k + 1 + j], ?_, by omega, ?_⟩
    · rw [h.childHosts_getElem?, if_pos hj, List.getElem?_eq_getElem hlt]
      rfl
    · rw [hposition, Int.toNat_natCast, List.getElem?_eq_getElem hlt]

theorem Vertex.At.childId_of_host (h : vertex.At R k) {host : List UInt8}
    (hhost : vertex.childHosts[j]? = some (some host)) :
    ∃ c : ℕ, vertex.childrenIds[j]? = some (c : ℤ) ∧ R.hostArray[c]? = some host := by
  have hhosts : R.hostArray.length = R.total := R.hosts
  rw [h.childHosts_getElem?] at hhost
  split at hhost
  case isFalse => exact absurd hhost (by simp)
  case isTrue hj =>
    obtain ⟨other, hget, heq⟩ := Option.map_eq_some_iff.mp hhost
    obtain rfl := Option.some.inj heq
    refine ⟨R.degree * k + 1 + j, ?_, hget⟩
    have hlt := (List.getElem?_eq_some_iff.mp hget).1
    have hlt' : ((R.degree * k + 1 + j : ℕ) : ℤ) < R.total := by omega
    push_cast at hlt' ⊢
    rw [h.childrenIds_eq, getElem?_childrenOf hj, childOf, if_neg (by omega)]
    exact congrArg some (by omega)

end

/-! ## The overlay -/

namespace Network

variable (N : Network)

theorem placed : N.request.Vertices N.vertices := by
  obtain ⟨frame, hserialize, hframe⟩ := N.request.serialize_ok N.header N.buffer
  obtain rfl : frame = N.frame := Except.ok.inj (hserialize.symm.trans N.serialized)
  obtain ⟨vertices, hvertices, hsetup⟩ := N.request.setUpTree_ok hframe
  have heq : vertices = N.vertices := Except.ok.inj ((hsetup _ _).symm.trans N.joined)
  rwa [heq] at hvertices

/-- The name of the host with the given id. -/
def host (id : ℤ) : List UInt8 := N.request.hostArray.getD id.toNat []

/-- What the host with the given id forwards by. -/
def vertex (id : ℤ) : TbonVertex :=
  match N.vertices[id.toNat]? with
  | some vertex => vertex.forwarding (N.connect (N.host id))
  | none => ⟨0, [], []⟩

variable {N}

theorem exists_vertex {id : ℤ} (hid : 0 ≤ id) (hlt : id < N.request.total) :
    ∃ vertex : Vertex, N.vertices[id.toNat]? = some vertex ∧ vertex.At N.request id.toNat ∧
      N.host id = vertex.localHost ∧ N.vertex id = vertex.forwarding (N.connect (N.host id)) := by
  have hhosts : N.request.hostArray.length = N.request.total := N.request.hosts
  obtain ⟨vertex, hget, hat⟩ := N.placed.exists_at (k := id.toNat) (by omega)
  refine ⟨vertex, hget, hat, ?_, ?_⟩
  · rw [host, List.getD_eq_getElem?_getD, hat.localHost_eq]
    rfl
  · rw [Network.vertex, hget]

/-- The connection at an index leads to the child there. -/
theorem connection_of_host {vertex : Vertex} {connect : List UInt8 → ℤ} {j : ℕ}
    {host : List UInt8} (h : vertex.childHosts[j]? = some (some host)) :
    (vertex.forwarding connect).childrenConnectionIndexes[j]? = some (connect host) := by
  rw [Vertex.forwarding, List.getElem?_map, h]
  rfl

/-- Every connection leads to a host. -/
theorem host_of_connection {R : TreeRequest} {vertex : Vertex} {k j : ℕ} (hat : vertex.At R k)
    {connect : List UInt8 → ℤ} {connection : ℤ}
    (h : (vertex.forwarding connect).childrenConnectionIndexes[j]? = some connection) :
    ∃ host, vertex.childHosts[j]? = some (some host) ∧ connection = connect host := by
  rw [Vertex.forwarding, List.getElem?_map] at h
  obtain ⟨entry, hentry, rfl⟩ := Option.map_eq_some_iff.mp h
  have hget := hentry
  rw [hat.childHosts_getElem?] at hget
  split at hget
  case isFalse => exact absurd hget (by simp)
  case isTrue =>
    obtain ⟨host, _, rfl⟩ := Option.map_eq_some_iff.mp hget
    exact ⟨host, hentry, rfl⟩

/-- The connection to a child has the child at its other end. -/
theorem peerHost_of_child {vertex : Vertex} {k j : ℕ} (hat : vertex.At N.request k)
    {child : List UInt8} (h : vertex.childHosts[j]? = some (some child)) (host : List UInt8) :
    N.peerHost host (N.connect host child) = child := by
  obtain ⟨_, _, hposition⟩ := hat.childId_of_host h
  exact N.peerHost_connect host child (List.mem_of_getElem? hposition)

variable (N)

/-- The overlay of the hosts. -/
def overlay : Overlay where
  degree := N.request.degree
  total := N.request.total
  degree_pos := N.request.size.degree_pos
  total_pos := N.request.size.total_pos
  size_le := N.request.size.product_le
  vertex := N.vertex
  peer id connection := N.request.hostArray.idxOf (N.peerHost (N.host id) connection)
  degree_eq id hid hlt := by
    obtain ⟨vertex, _, hat, _, hvertex⟩ := exists_vertex hid hlt
    rw [hvertex]
    exact hat.degree_eq
  edges_eq id hid hlt := by
    obtain ⟨vertex, _, hat, _, hvertex⟩ := exists_vertex hid hlt
    refine ⟨parentOf N.request.degree id, ?_⟩
    have hids : (vertex.forwarding (N.connect (N.host id))).childrenIds =
        childrenOf N.request.degree N.request.total id := by
      have hids' := hat.childrenIds_eq
      rwa [Int.toNat_of_nonneg hid] at hids'
    rw [hvertex, hids]
    exact N.request.size.computeLocalTbonEdges_eq hid hlt
  connected id hid hlt j child hchild hne := by
    obtain ⟨vertex, _, hat, _, hvertex⟩ := exists_vertex hid hlt
    rw [hvertex] at hchild ⊢
    obtain ⟨host, hhost, hpos, hget⟩ := hat.host_of_childId hchild hne
    refine ⟨_, connection_of_host hhost, ?_⟩
    rw [peerHost_of_child hat hhost]
    obtain ⟨hin, rfl⟩ := List.getElem?_eq_some_iff.mp hget
    rw [N.request.nodup.idxOf_getElem]
    exact Int.toNat_of_nonneg hpos

/-- The connections of a host whose link to the peer is broken. -/
def brokenConnection (broken : List UInt8 → List UInt8 → Bool) (id connection : ℤ) : Bool :=
  broken (N.host id) (N.peerHost (N.host id) connection)

variable {N} {broken : List UInt8 → List UInt8 → Bool}

/-- The connections of a vertex work as far as its links do. -/
theorem unbroken_iff {id : ℤ} {vertex : Vertex} (hat : vertex.At N.request id.toNat)
    (hhost : N.host id = vertex.localHost)
    (hvertex : N.vertex id = vertex.forwarding (N.connect (N.host id))) (j : ℕ) :
    N.overlay.Unbroken (N.brokenConnection broken) id j ↔
      ∀ i ≤ j, ∀ other, vertex.childHosts[i]? = some (some other) →
        broken vertex.localHost other = false := by
  constructor
  · intro h i hi other hother
    have hworks := h i hi (N.connect (N.host id) other) (by
      change (N.vertex id).childrenConnectionIndexes[i]? = _
      rw [hvertex]
      exact connection_of_host hother)
    rwa [brokenConnection, peerHost_of_child hat hother, hhost] at hworks
  · intro h i hi connection hconnection
    change (N.vertex id).childrenConnectionIndexes[i]? = _ at hconnection
    rw [hvertex] at hconnection
    obtain ⟨other, hother, rfl⟩ := host_of_connection hat hconnection
    rw [brokenConnection, peerHost_of_child hat hother, hhost]
    exact h i hi other hother

/-- A vertex is served if and only if its host is. -/
theorem hostServed_of_served {id : ℤ} (h : N.overlay.Served (N.brokenConnection broken) id) :
    HostServed N.vertices broken (N.host id) := by
  induction h with
  | root =>
      obtain ⟨vertex, hget, _, hhost, _⟩ :=
        exists_vertex (N := N) (le_refl 0) (by have := N.overlay.total_pos; exact this)
      rw [hhost]
      exact .root hget
  | child hp hchild hne hunbroken ih =>
      obtain ⟨hid, hlt⟩ := hp.range
      obtain ⟨vertex, hget, hat, hhost, hvertex⟩ := exists_vertex hid hlt
      change (N.vertex _).childrenIds[_]? = _ at hchild
      rw [hvertex] at hchild
      obtain ⟨host, hentry, hpos, hposition⟩ := hat.host_of_childId hchild hne
      rw [hhost] at ih
      rw [Network.host, List.getD_eq_getElem?_getD, hposition]
      exact .child (List.mem_of_getElem? hget) ih hentry
        ((unbroken_iff hat hhost hvertex _).mp hunbroken)

theorem served_of_hostServed {host : List UInt8} (h : HostServed N.vertices broken host) :
    ∀ k : ℕ, N.request.hostArray[k]? = some host →
      N.overlay.Served (N.brokenConnection broken) k := by
  induction h with
  | root hroot =>
      intro k hk
      rw [N.request.position_unique (N.placed.2 0 _ hroot).localHost_eq k hk]
      exact .root
  | child hparent _ hentry hunbroken ih =>
      intro k hk
      obtain ⟨p, hp⟩ := List.mem_iff_getElem?.mp hparent
      have hat := N.placed.2 p _ hp
      have hserved := ih p hat.localHost_eq
      obtain ⟨hid, hlt⟩ := hserved.range
      obtain ⟨vertex, hget, hat', hhost, hvertex⟩ := exists_vertex hid hlt
      obtain rfl := Option.some.inj (hp.symm.trans hget)
      obtain ⟨c, hchild, hposition⟩ := hat.childId_of_host hentry
      rw [N.request.position_unique hposition k hk]
      refine .child hserved ?_ (by omega) ((unbroken_iff hat' hhost hvertex _).mpr hunbroken)
      change (N.vertex p).childrenIds[_]? = _
      rw [hvertex]
      exact hchild

/-- A host is the child of one host only. -/
theorem parent_unique {parent parent' : Vertex} {host : List UInt8} {j j' : ℕ}
    (hparent : parent ∈ N.vertices) (hchild : parent.childHosts[j]? = some (some host))
    (hparent' : parent' ∈ N.vertices) (hchild' : parent'.childHosts[j']? = some (some host)) :
    parent' = parent := by
  obtain ⟨p, hp⟩ := List.mem_iff_getElem?.mp hparent
  obtain ⟨p', hp'⟩ := List.mem_iff_getElem?.mp hparent'
  have hat := N.placed.2 p _ hp
  have hat' := N.placed.2 p' _ hp'
  obtain ⟨c, _, hc⟩ := hat.childId_of_host hchild
  obtain ⟨child, _, hchildAt⟩ := N.placed.exists_at (k := c) (List.getElem?_eq_some_iff.mp hc).1
  obtain rfl : child.localHost = host := Option.some.inj (hchildAt.localHost_eq.symm.trans hc)
  have hid := (hat.mem_childHosts_iff hchildAt).mp (List.mem_of_getElem? hchild)
  have hid' := (hat'.mem_childHosts_iff hchildAt).mp (List.mem_of_getElem? hchild')
  rw [hid, hat.id_eq, hat'.id_eq] at hid'
  obtain rfl : p' = p := by exact_mod_cast hid'.symm
  exact Option.some.inj (hp'.symm.trans hp)

/-- A broken link cuts off the child at its end. -/
theorem not_hostServed_of_broken {parent : Vertex} {host : List UInt8} {j : ℕ}
    (hparent : parent ∈ N.vertices) (hchild : parent.childHosts[j]? = some (some host))
    (hbroken : broken parent.localHost host = true) : ¬HostServed N.vertices broken host := by
  intro hserved
  obtain ⟨p, hp⟩ := List.mem_iff_getElem?.mp hparent
  have hat := N.placed.2 p _ hp
  cases hserved with
  | root hroot =>
      -- the first host stands before all children
      rw [hat.childHosts_getElem?] at hchild
      split at hchild
      case isFalse => exact absurd hchild (by simp)
      case isTrue =>
        obtain ⟨_, hposition, heq⟩ := Option.map_eq_some_iff.mp hchild
        obtain rfl := Option.some.inj heq
        have hfirst := (N.placed.2 0 _ hroot).localHost_eq
        have hzero := N.request.position_unique hfirst _ hposition
        omega
  | child hparent' _ hchild' hunbroken =>
      obtain rfl := parent_unique hparent hchild hparent' hchild'
      have hworks := hunbroken _ (le_refl _) host hchild'
      rw [hbroken] at hworks
      exact absurd hworks (by simp)

end Network

/-- However the sends and deliveries of a broadcast are ordered and whichever links are broken, no
host receives the message twice. When nothing is left to do, the hosts that have received it are
those that the first host reaches through the tree without a broken link in the way. -/
theorem hosts_receive {β : Type} (N : Network) (broken : List UInt8 → List UInt8 → Bool)
    (message : β) (s : PartialState β)
    (hreach : (N.overlay.partialBroadcast (N.brokenConnection broken) message).Reachable s)
    (k : ℕ) (host : List UInt8) (hhost : N.request.hostArray[k]? = some host) (hk : 0 < k) :
    (s.state.received k = [] ∨
      s.state.received k = [message] ∧ HostServed N.vertices broken host) ∧
      (PartialFinal N.overlay (N.brokenConnection broken) message s →
        (s.state.received k = [message] ↔ HostServed N.vertices broken host)) := by
  have h := PartialInvariant.of_reachable hreach
  have hname : N.host k = host := by
    rw [Network.host, Int.toNat_natCast, List.getD_eq_getElem?_getD, hhost]
    rfl
  have hserved : N.overlay.Served (N.brokenConnection broken) k ↔
      HostServed N.vertices broken host := by
    constructor
    · intro hserved
      rw [← hname]
      exact Network.hostServed_of_served hserved
    · intro hserved
      exact Network.served_of_hostServed hserved k hhost
  constructor
  · rcases h.received_eq k with hnil | ⟨_, hid, hone⟩
    · exact .inl hnil
    · exact .inr ⟨hone, hserved.mp hid⟩
  · intro hfinal
    exact (h.received_iff hfinal (by omega)).trans hserved

/-- Whatever the indices of the connections are, the hosts of a request can join its tree. -/
theorem TreeRequest.exists_network (R : TreeRequest) (connect : List UInt8 → List UInt8 → ℤ)
    (peerHost : List UInt8 → ℤ → List UInt8)
    (h : ∀ host child, child ∈ R.hostArray → peerHost host (connect host child) = child) :
    ∃ N : Network, N.request = R ∧ N.connect = connect := by
  obtain ⟨frame, hserialize, hframe⟩ := R.serialize_ok ⟨0, 0⟩ zeroFrame
  obtain ⟨vertices, _, hsetup⟩ := R.setUpTree_ok hframe
  exact ⟨⟨R, ⟨0, 0⟩, zeroFrame, frame, hserialize, fun _ => zeroGarbage, fun _ => 0,
    vertices, hsetup _ _, connect, peerHost, h⟩, rfl, rfl⟩

/-- The link from `n1` to `n3` is broken. -/
def brokenLink (host other : List UInt8) : Bool :=
  decide (host = [110, 49] ∧ other = [110, 51])

section

variable {N : Network} (hrequest : N.request = threeHosts)

include hrequest

/-- `n1` has the children `n2` and `n3`. -/
theorem threeHosts_root :
    ∃ root : Vertex, N.vertices[0]? = some root ∧ root.localHost = [110, 49] ∧
      root.childHosts[0]? = some (some [110, 50]) ∧
      root.childHosts[1]? = some (some [110, 51]) := by
  have hhosts : N.request.hostArray = [[110, 49], [110, 50], [110, 51]] := by
    rw [hrequest]
    rfl
  have hdegree : N.request.degree = 2 := by
    rw [hrequest]
    rfl
  obtain ⟨root, hroot, hat⟩ := N.placed.exists_at (k := 0) (by rw [hhosts]; decide)
  have hname := hat.localHost_eq
  rw [hhosts] at hname
  refine ⟨root, hroot, (Option.some.inj hname).symm, ?_, ?_⟩
  all_goals
    rw [hat.childHosts_getElem?, hdegree, hhosts]
    rfl

theorem threeHosts_served :
    HostServed N.vertices brokenLink [110, 50] ∧ ¬HostServed N.vertices brokenLink [110, 51] := by
  obtain ⟨root, hroot, hname, hleft, hright⟩ := threeHosts_root hrequest
  constructor
  · refine .child (List.mem_of_getElem? hroot) (.root hroot) hleft ?_
    intro i hi other hother
    obtain rfl : i = 0 := by omega
    obtain rfl := Option.some.inj (Option.some.inj (hleft.symm.trans hother))
    rw [hname]
    rfl
  · apply Network.not_hostServed_of_broken (List.mem_of_getElem? hroot) hright
    rw [hname]
    rfl

end

/-- The connections are numbered by the last digit of the host. -/
theorem threeHosts_receive :
    ∃ N : Network, N.request = threeHosts ∧ ∃ s,
      (N.overlay.partialBroadcast (N.brokenConnection brokenLink) true).Reachable s ∧
      PartialFinal N.overlay (N.brokenConnection brokenLink) true s ∧
      s.state.received 1 = [true] ∧ s.state.received 2 = [] := by
  obtain ⟨N, hrequest, _⟩ := threeHosts.exists_network
    (fun _ child => (child.getD 1 0).toNat) (fun _ index => [110, UInt8.ofNat index.toNat])
    (by
      intro _ child hchild
      revert child
      decide)
  have hinit : (N.overlay.partialBroadcast (N.brokenConnection brokenLink) true).Reachable
      ⟨⟨fun _ => none, [], [], []⟩, fun _ => false⟩ := .initial rfl
  obtain ⟨as, s, hrun, hfinal⟩ := (PartialInvariant.of_reachable hinit).exists_run_final
  have hreach := hinit.run hrun
  obtain ⟨hserved, hcut⟩ := threeHosts_served hrequest
  have hfirst := hosts_receive N brokenLink true s hreach 1 [110, 50] (by rw [hrequest]; rfl)
    (by decide)
  have hsecond := hosts_receive N brokenLink true s hreach 2 [110, 51] (by rw [hrequest]; rfl)
    (by decide)
  refine ⟨N, hrequest, s, hreach, hfinal, (hfirst.2 hfinal).mpr hserved, ?_⟩
  rcases hsecond.1 with hnil | ⟨_, hserved'⟩
  · exact hnil
  · exact absurd hserved' hcut

end Dynpm.Tbon
