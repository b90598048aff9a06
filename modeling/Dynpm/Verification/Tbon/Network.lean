import Dynpm.Model.TbonNetwork
import Dynpm.Verification.Protocol.TextRoundTrip
import Dynpm.Verification.Tbon.Broadcast
import Dynpm.Verification.Tbon.Vertex

/-! # The hosts form a tree

Each host finds its place from its own name and the list of all hosts, without asking any other
one. The places agree: every host but the first is a child of exactly one host, which is the host
that it takes for its parent itself.
-/

namespace Dynpm.Tbon

open Library Library.Stdio

/-- A tree that can be requested for a list of different hosts. -/
structure TreeRequest where
  createTbon : Protocol.CreateTbonMsg
  hostArray : List (List UInt8)
  degree_pos : 1 ≤ createTbon.degree.toNat
  total_pos : 1 ≤ createTbon.total.toNat
  size_le : createTbon.degree.toNat * createTbon.total.toNat ≤ 2 ^ 31 - 1
  hosts : hostArray.length = createTbon.total.toNat
  nodup : hostArray.Nodup
  nodes_token : Token createTbon.nodes
  nodes_fit : createTbon.nodes.length < 256

namespace TreeRequest

variable (R : TreeRequest)

def degree : ℕ := R.createTbon.degree.toNat

def total : ℕ := R.createTbon.total.toNat

theorem size : Size R.degree R.total where
  degree_pos := by exact_mod_cast R.degree_pos
  total_pos := by exact_mod_cast R.total_pos
  product_le := by
    have := R.size_le
    rw [degree, total]
    omega

theorem degree_le : R.degree ≤ 2 ^ 31 - 1 := by
  have hproduct : R.degree * 1 ≤ R.degree * R.total := Nat.mul_le_mul_left _ R.total_pos
  have hsize := R.size_le
  rw [degree, total] at *
  omega

/-- A host is found only at its position. -/
theorem position_unique {k : ℕ} {host : List UInt8} (hk : R.hostArray[k]? = some host) :
    ∀ j, R.hostArray[j]? = some host → j = k := by
  intro j hj
  obtain ⟨_, hhost⟩ := List.getElem?_eq_some_iff.mp hk
  obtain ⟨_, hhost'⟩ := List.getElem?_eq_some_iff.mp hj
  exact R.nodup.getElem_inj_iff.mp (hhost'.trans hhost.symm)

/-- The message is short enough for every frame. -/
theorem length_text_lt (header : Protocol.Header) :
    ((Protocol.TextMessage.createTbon R.createTbon).text header).length < maxMessageSize := by
  have hargs : ∀ arg ∈ header.args ++ (Protocol.TextMessage.createTbon R.createTbon).args,
      arg.text.length ≤ 255 := by
    intro arg harg
    cases arg with
    | int v =>
        have hlength := length_printInt_le v
        exact hlength.trans (by decide)
    | str nodes =>
        obtain rfl : nodes = R.createTbon.nodes := by
          simpa [Protocol.Header.args, Protocol.TextMessage.args] using harg
        have hnodes := (List.takeWhile_sublist (l := R.createTbon.nodes) (· ≠ 0)).length_le
        have hfit := R.nodes_fit
        exact hnodes.trans (by omega)
  have hline := length_line_le_mul _ hargs
  rw [Protocol.TextMessage.text_eq, List.length_append]
  have hcount : (header.args ++ (Protocol.TextMessage.createTbon R.createTbon).args).length = 6 :=
    rfl
  have hend : (Protocol.TextMessage.createTbon R.createTbon).lineEnd.length = 0 := rfl
  rw [hcount] at hline
  rw [hend, maxMessageSize]
  omega

/-- The message is serialised into any frame, and every host decodes it. -/
theorem serialize_ok (header : Protocol.Header) (buffer : Frame) :
    ∃ frame, Protocol.serializeCreateTbonMsg header R.createTbon buffer = .ok frame ∧
      ∀ malloc, Protocol.deserializeCreateTbonMsg malloc frame = .ok R.createTbon := by
  have hmsg := (Protocol.TextMessage.createTbon R.createTbon).text_eq header
  have hlength := R.length_text_lt header
  have hstrings : (Protocol.TextMessage.createTbon R.createTbon).StringsFit :=
    ⟨R.nodes_token, R.nodes_fit⟩
  obtain ⟨rest, hformat, hrest, _⟩ :=
    (Protocol.TextMessage.createTbon R.createTbon).parseFormat_eq header
  obtain ⟨frame, hserialize, hholds⟩ :=
    (Protocol.TextMessage.createTbon R.createTbon).serialize_holds header buffer hlength
  refine ⟨frame, hserialize, ?_⟩
  intro malloc
  rw [hmsg] at hholds
  have hscan := Protocol.sscanf_of_holds hholds
    (Protocol.TextMessage.createTbon R.createTbon).isSpace_of_mem_lineEnd
    ((Protocol.TextMessage.createTbon R.createTbon).fits_iff.mpr hstrings) hformat hrest
  change (do
    let values ← frame.sscanf (Protocol.TextMessage.createTbon R.createTbon).kind.format
      (Protocol.TextMessage.createTbon R.createTbon).kind.capacities
    return _) = _
  rw [hscan]
  rfl

end TreeRequest

/-- The vertex of the host at position `k`. -/
structure Vertex.At (vertex : Vertex) (R : TreeRequest) (k : ℕ) : Prop where
  localHost_eq : R.hostArray[k]? = some vertex.localHost
  id_eq : vertex.id = k
  degree_eq : vertex.degree = R.degree
  parentId_eq : vertex.parentId = parentOf R.degree k
  childrenIds_eq : vertex.childrenIds = childrenOf R.degree R.total k
  totalChildren_eq : vertex.totalChildren = (min R.degree (childrenBelow R.degree k R.total) : ℕ)
  childrenHosts : HostsAssigned R.degree k R.hostArray
    (min R.degree (childrenBelow R.degree k R.total)) vertex.childrenHosts

/-- The host at position `k` is placed there, whatever the allocated vertex held. -/
theorem TreeRequest.initialize_ok (R : TreeRequest) {k : ℕ} {localHost : List UInt8}
    (hlocal : R.hostArray[k]? = some localHost) :
    ∃ vertex : Vertex, vertex.At R k ∧
      ∀ garbage, initializeTbonVertex garbage localHost R.createTbon R.hostArray = .ok vertex := by
  obtain ⟨hk, _⟩ := List.getElem?_eq_some_iff.mp hlocal
  have hhosts := R.hosts
  have htotal := R.size.total_le
  have hdegree := R.degree_le
  have hdegreeInt := toInt_toInt32_of_lt R.createTbon.degree (by rw [degree] at hdegree; omega)
  have htotalInt := toInt_toInt32_of_lt R.createTbon.total (by rw [total] at htotal; omega)
  have hedges : computeLocalTbonEdges k R.createTbon.degree.toNat R.createTbon.total.toNat =
      .ok (parentOf R.degree k, childrenOf R.degree R.total k) :=
    R.size.computeLocalTbonEdges_eq (Int.natCast_nonneg k) (by rw [total, ← hhosts]; omega)
  obtain ⟨childrenHosts, hmatch, hassigned⟩ :=
    @matchChildren_all R.degree R.total k R.hostArray hhosts (by omega) R.degree_pos
  refine ⟨{
    id := k
    degree := R.degree
    nodes := R.createTbon.nodes
    localHost
    totalNodes := R.total
    parentId := parentOf R.degree k
    readyCount := 0
    childrenDone := 0
    totalChildren := (min R.degree (childrenBelow R.degree k R.total) : ℕ)
    childrenIds := childrenOf R.degree R.total k
    childrenHosts
    initialized := false
    finalized := false }, ⟨hlocal, rfl, rfl, rfl, rfl, rfl, hassigned⟩, ?_⟩
  intro garbage
  have hid := foldlM_matchLocalHost hlocal (R.position_unique hlocal) garbage
    (Nat.le_of_eq hhosts.symm) (by rw [total] at htotal; omega)
  rw [if_pos (by rw [← hhosts]; exact hk)] at hid
  rw [initializeTbonVertex, hid, ok_bind, hdegreeInt, htotalInt]
  rw [hedges, ok_bind]
  dsimp only
  rw [Int.toNat_natCast, show R.createTbon.degree.toNat = R.degree from rfl,
    show R.createTbon.total.toNat = R.total from rfl, hmatch]
  rfl

/-- A host joins the tree with what it makes of the frame. -/
theorem TreeRequest.joinTree_ok (R : TreeRequest) {frame : Frame}
    (hframe : ∀ malloc, Protocol.deserializeCreateTbonMsg malloc frame = .ok R.createTbon)
    {localHost : List UInt8} (hlocal : localHost ∈ R.hostArray) :
    ∃ vertex : Vertex, vertex.At R (R.hostArray.idxOf localHost) ∧
      ∀ malloc garbage, joinTree malloc garbage localHost R.hostArray frame = .ok vertex := by
  have hposition : R.hostArray[R.hostArray.idxOf localHost]? = some localHost := by
    rw [List.getElem?_eq_getElem (List.idxOf_lt_length_of_mem hlocal), List.getElem_idxOf]
  obtain ⟨vertex, hat, hinitialize⟩ := R.initialize_ok hposition
  refine ⟨vertex, hat, ?_⟩
  intro malloc garbage
  rw [joinTree, hframe malloc, ok_bind, hinitialize garbage]

/-! ## The tree of the hosts -/

section

variable {R : TreeRequest} {vertex parent child : Vertex} {k p c : ℕ}

/-- The hosts of the children are those behind the children of the earlier vertices. -/
theorem Vertex.At.childHosts_getElem? (h : vertex.At R k) (j : ℕ) :
    vertex.childHosts[j]? =
      if j < R.degree then (R.hostArray[R.degree * k + 1 + j]?).map some else none := by
  have hhosts : R.hostArray.length = R.total := R.hosts
  rw [Vertex.childHosts, h.totalChildren_eq, Int.toNat_natCast, List.getElem?_take]
  by_cases hj : j < min R.degree (childrenBelow R.degree k R.total)
  · have hin : R.degree * k + 1 + j < R.hostArray.length := by
      rw [childrenBelow] at hj
      omega
    rw [if_pos hj, if_pos (by omega), h.childrenHosts j hj, List.getElem?_eq_getElem hin]
    rfl
  · rw [if_neg hj]
    by_cases hdegree : j < R.degree
    · have hout : R.hostArray.length ≤ R.degree * k + 1 + j := by
        rw [childrenBelow] at hj
        omega
      rw [if_pos hdegree, List.getElem?_eq_none hout]
      rfl
    · rw [if_neg hdegree]

theorem Vertex.At.childHosts_eq (h : vertex.At R k) :
    vertex.childHosts = ((R.hostArray.tail.drop (R.degree * k)).take R.degree).map some := by
  apply List.ext_getElem?
  intro j
  rw [h.childHosts_getElem?, List.getElem?_map, List.getElem?_take, List.getElem?_drop,
    List.getElem?_tail, show R.degree * k + j + 1 = R.degree * k + 1 + j by omega]
  split
  · rfl
  · rfl

/-- A vertex lists a host exactly if the host takes it for its parent. -/
theorem Vertex.At.mem_childHosts_iff (hparent : parent.At R p) (hchild : child.At R c) :
    some child.localHost ∈ parent.childHosts ↔ child.parentId = parent.id := by
  have hhosts : R.hostArray.length = R.total := R.hosts
  have hlt : c < R.hostArray.length := (List.getElem?_eq_some_iff.mp hchild.localHost_eq).1
  have hdegree : (1 : ℤ) ≤ R.degree := R.size.degree_pos
  have hmem : some child.localHost ∈ parent.childHosts ↔
      (c : ℤ) ∈ childrenIdsOf R.degree R.total p := by
    rw [List.mem_iff_getElem?, mem_childrenIdsOf]
    constructor
    · rintro ⟨j, hj⟩
      rw [hparent.childHosts_getElem?] at hj
      split at hj
      case isFalse => exact absurd hj (by simp)
      case isTrue hin =>
        obtain ⟨host, hhost, heq⟩ := Option.map_eq_some_iff.mp hj
        obtain rfl := Option.some.inj heq
        have hc := R.position_unique hchild.localHost_eq _ hhost
        subst hc
        push_cast at hlt ⊢
        omega
    · rintro ⟨hlow, hhigh, _⟩
      have hindex : R.degree * p + 1 + (c - (R.degree * p + 1)) = c := by
        have hlow' : R.degree * p + 1 ≤ c := by exact_mod_cast hlow
        omega
      refine ⟨c - (R.degree * p + 1), ?_⟩
      rw [hparent.childHosts_getElem?, hindex, hchild.localHost_eq, if_pos]
      · rfl
      · have hhigh' : c ≤ R.degree * p + R.degree := by exact_mod_cast hhigh
        omega
  rw [hmem, mem_childrenIdsOf_iff_parentOf hdegree (Int.natCast_nonneg p) (by omega),
    hchild.parentId_eq, hparent.id_eq]
  constructor
  · exact And.right
  · intro heq
    refine ⟨?_, heq⟩
    intro hzero
    rw [parentOf, if_pos hzero] at heq
    omega

end

/-- What it means that the vertices of a list of hosts form one tree. -/
structure HostTree (hostArray : List (List UInt8)) (vertices : List Vertex) : Prop where
  localHost_eq : vertices.map Vertex.localHost = hostArray
  parentId_root : ∀ root, vertices[0]? = some root → root.parentId = -1
  parentId_earlier : ∀ k vertex, vertices[k]? = some vertex → 0 < k →
    ∃ (p : ℕ) (parent : Vertex), p < k ∧ vertices[p]? = some parent ∧
      vertex.parentId = parent.id
  mem_childHosts_iff : ∀ parent ∈ vertices, ∀ child ∈ vertices,
    (some child.localHost ∈ parent.childHosts ↔ child.parentId = parent.id)
  childHosts_eq : vertices.flatMap Vertex.childHosts = hostArray.tail.map some

/-- The vertices of a tree, in the order of the hosts. -/
def TreeRequest.Vertices (R : TreeRequest) (vertices : List Vertex) : Prop :=
  vertices.length = R.hostArray.length ∧
    ∀ (k : ℕ) (vertex : Vertex), vertices[k]? = some vertex → vertex.At R k

section

variable {R : TreeRequest} {vertices : List Vertex}

theorem TreeRequest.Vertices.exists_at (h : R.Vertices vertices) {k : ℕ}
    (hk : k < R.hostArray.length) : ∃ vertex, vertices[k]? = some vertex ∧ vertex.At R k := by
  have hget := List.getElem?_eq_getElem (h.1.symm ▸ hk : k < vertices.length)
  exact ⟨_, hget, h.2 k _ hget⟩

/-- The first vertices list the hosts of the upper levels of the tree, level by level. -/
theorem TreeRequest.Vertices.flatMap_take (h : R.Vertices vertices) {count : ℕ}
    (hcount : count ≤ vertices.length) :
    (vertices.take count).flatMap Vertex.childHosts =
      (R.hostArray.tail.take (R.degree * count)).map some := by
  induction count with
  | zero => simp
  | succ count ih =>
      obtain ⟨vertex, hget, hat⟩ := h.exists_at (k := count) (by rw [← h.1]; omega)
      rw [List.take_add_one, hget, List.flatMap_append, ih (by omega), Nat.mul_add, Nat.mul_one,
        List.take_add, List.map_append]
      simp [hat.childHosts_eq]

theorem TreeRequest.Vertices.hostTree (h : R.Vertices vertices) :
    HostTree R.hostArray vertices where
  localHost_eq := by
    apply List.ext_getElem?
    intro k
    rw [List.getElem?_map]
    cases hk : vertices[k]? with
    | none =>
        rw [List.getElem?_eq_none_iff, h.1] at hk
        rw [List.getElem?_eq_none hk]
        rfl
    | some vertex => exact (h.2 k vertex hk).localHost_eq.symm
  parentId_root root hroot := by
    rw [(h.2 0 root hroot).parentId_eq]
    exact if_pos rfl
  parentId_earlier k vertex hk hpos := by
    have hat := h.2 k vertex hk
    have hlt : k < R.hostArray.length := (List.getElem?_eq_some_iff.mp hat.localHost_eq).1
    obtain ⟨hlow, hhigh⟩ := parentOf_bounds R.size.degree_pos (show (1 : ℤ) ≤ k by omega)
    obtain ⟨parent, hget, hparent⟩ :=
      h.exists_at (k := (parentOf R.degree k).toNat) (by omega)
    refine ⟨_, parent, by omega, hget, ?_⟩
    rw [hat.parentId_eq, hparent.id_eq]
    omega
  mem_childHosts_iff parent hparent child hchild := by
    obtain ⟨p, hp⟩ := List.mem_iff_getElem?.mp hparent
    obtain ⟨c, hc⟩ := List.mem_iff_getElem?.mp hchild
    exact (h.2 p parent hp).mem_childHosts_iff (h.2 c child hc)
  childHosts_eq := by
    have hall := h.flatMap_take (le_refl vertices.length)
    have hlength : R.hostArray.tail.length ≤ R.degree * vertices.length := by
      have hmul : 1 * vertices.length ≤ R.degree * vertices.length :=
        Nat.mul_le_mul_right _ R.degree_pos
      rw [List.length_tail, ← h.1]
      omega
    rwa [List.take_length, List.take_of_length_le hlength] at hall

end

/-- The set-up of a tree at all hosts. -/
theorem TreeRequest.setUpTree_ok (R : TreeRequest) {frame : Frame}
    (hframe : ∀ malloc, Protocol.deserializeCreateTbonMsg malloc frame = .ok R.createTbon) :
    ∃ vertices, R.Vertices vertices ∧
      ∀ malloc garbage, setUpTree malloc garbage R.hostArray frame = .ok vertices := by
  obtain ⟨vertices, hall, hmapM⟩ := exists_mapM_ok
    (f := fun (memory : (List UInt8 → Garbage) × (List UInt8 → ℤ)) localHost =>
      joinTree (memory.1 localHost) (memory.2 localHost) localHost R.hostArray frame)
    (P := fun localHost vertex => vertex.At R (R.hostArray.idxOf localHost)) R.hostArray
    (by
      intro localHost hlocal
      obtain ⟨vertex, hat, hjoin⟩ := R.joinTree_ok hframe hlocal
      exact ⟨vertex, hat, fun memory => hjoin _ _⟩)
  obtain ⟨hlength, hget⟩ := List.forall₂_iff_get.mp hall
  refine ⟨vertices, ⟨hlength.symm, ?_⟩, fun malloc garbage => hmapM (malloc, garbage)⟩
  intro k vertex hk
  obtain ⟨hlt, rfl⟩ := List.getElem?_eq_some_iff.mp hk
  have hat := hget k (by omega) hlt
  rwa [List.get_eq_getElem, List.get_eq_getElem, R.nodup.idxOf_getElem] at hat

/-- Any request for a tree of different hosts is serialised, and every host decodes it and
initialises its vertex, whatever the memory that it allocates holds. The parents and the children
that the hosts have found form one tree: no host is missing, and none is listed twice. -/
theorem hosts_form_tree (R : TreeRequest) (header : Protocol.Header) (buffer : Frame) :
    ∃ frame vertices,
      Protocol.serializeCreateTbonMsg header R.createTbon buffer = .ok frame ∧
      (∀ malloc garbage, setUpTree malloc garbage R.hostArray frame = .ok vertices) ∧
      HostTree R.hostArray vertices := by
  obtain ⟨frame, hserialize, hframe⟩ := R.serialize_ok header buffer
  obtain ⟨vertices, hvertices, hsetup⟩ := R.setUpTree_ok hframe
  exact ⟨frame, vertices, hserialize, hsetup, hvertices.hostTree⟩

/-- A tree of `n[1-3]`, in which `n1` has two children. -/
def threeHosts : TreeRequest where
  createTbon := ⟨0, 2, 3, [110, 91, 49, 45, 51, 93]⟩
  hostArray := [[110, 49], [110, 50], [110, 51]]
  degree_pos := by decide
  total_pos := by decide
  size_le := by decide
  hosts := rfl
  nodup := by decide
  nodes_token := by decide
  nodes_fit := by decide

theorem threeHosts_form_tree :
    ∃ frame vertices,
      Protocol.serializeCreateTbonMsg ⟨0, 0⟩ threeHosts.createTbon zeroFrame = .ok frame ∧
      (∀ malloc garbage, setUpTree malloc garbage threeHosts.hostArray frame = .ok vertices) ∧
      vertices.map Vertex.localHost = [[110, 49], [110, 50], [110, 51]] ∧
      vertices.flatMap Vertex.childHosts = [some [110, 50], some [110, 51]] := by
  obtain ⟨frame, vertices, hserialize, hsetup, htree⟩ :=
    hosts_form_tree threeHosts ⟨0, 0⟩ zeroFrame
  exact ⟨frame, vertices, hserialize, hsetup, htree.localHost_eq, htree.childHosts_eq⟩

end Dynpm.Tbon
