import Dynpm.Library.Word
import Dynpm.Model.TbonVertex
import Dynpm.Verification.Tbon.Edges

/-! # The position of a host in the tree

The vertex finds its children in one pass over all hosts. This is enough because the ids of the
children are consecutive: behind the first child every node is the next child, until the children
or the nodes end.
-/

namespace Dynpm.Tbon

open Library

/-! ## The own id -/

section

variable {localHost : List UInt8} {hostArray : List (List UInt8)} {k : ℕ}
  (hlocal : hostArray[k]? = some localHost) (honce : ∀ j, hostArray[j]? = some localHost → j = k)

include hlocal honce

/-- An iteration assigns the id at the position of the local host. -/
theorem matchLocalHost_eq (id : ℤ) {nodeId : ℕ} (hnode : nodeId < hostArray.length)
    (hlt : (nodeId : ℤ) + 1 < 2 ^ 31) :
    matchLocalHost localHost hostArray id nodeId = .ok (if nodeId = k then (k : ℤ) else id) := by
  have hadd : CInt.add nodeId 1 = .ok ((nodeId : ℤ) + 1) := CInt.checked_ok (by omega) hlt
  have hhost : localHost = hostArray[nodeId] ↔ nodeId = k := by
    constructor
    · intro heq
      exact honce nodeId (by rw [List.getElem?_eq_getElem hnode, ← heq])
    · rintro rfl
      rw [List.getElem?_eq_getElem hnode] at hlocal
      exact (Option.some.inj hlocal).symm
  rw [matchLocalHost, List.getElem?_eq_getElem hnode]
  dsimp only
  rw [hadd, ok_bind]
  by_cases heq : nodeId = k
  · rw [if_pos (hhost.mpr heq), if_pos heq, heq]
    rfl
  · rw [if_neg (fun h => heq (hhost.mp h)), if_neg heq]
    rfl

/-- The search for the local host ends with its position. -/
theorem foldlM_matchLocalHost (garbage : ℤ) {count : ℕ} (hcount : count ≤ hostArray.length)
    (hlt : (count : ℤ) < 2 ^ 31) :
    (List.range count).foldlM (matchLocalHost localHost hostArray) garbage =
      .ok (if k < count then (k : ℤ) else garbage) := by
  induction count with
  | zero => rfl
  | succ count ih =>
      push_cast at hlt
      rw [List.range_succ, List.foldlM_append, ih (by omega) (by omega)]
      simp only [bind, Except.bind, List.foldlM_cons, List.foldlM_nil,
        matchLocalHost_eq hlocal honce _ hcount hlt]
      rcases Nat.lt_trichotomy k count with hk | rfl | hk
      · rw [if_neg (by omega), if_pos hk, if_pos (by omega)]
        rfl
      · rw [if_pos rfl, if_pos (Nat.lt_succ_self k)]
        rfl
      · rw [if_neg (by omega), if_neg (by omega), if_neg (by omega)]
        rfl

end

/-! ## The children -/

section

variable {degree total k : ℕ} {hostArray : List (List UInt8)}

theorem getElem?_childrenOf {i : ℕ} (hi : i < degree) :
    (childrenOf degree total k)[i]? = some (childOf degree total k i) := by
  rw [childrenOf, List.getElem?_map, Int.toNat_natCast, List.getElem?_range hi]
  rfl

/-- The number of children that are among the nodes up to the given one. Their ids are consecutive
and start behind `degree * k`. -/
def childrenBelow (degree k nodeId : ℕ) : ℕ := nodeId - (degree * k + 1)

/-- The hosts of these children have been assigned. -/
def HostsAssigned (degree k : ℕ) (hostArray : List (List UInt8)) (found : ℕ)
    (childrenHosts : List (Option (List UInt8))) : Prop :=
  ∀ j < found, childrenHosts[j]? = some hostArray[degree * k + 1 + j]?

/-- The node is the next child. -/
theorem matchChildren_found {childrenIds : List ℤ} {remaining nodeId childIndex : ℕ}
    {childrenHosts : List (Option (List UInt8))} {host : List UInt8}
    (hchild : childrenIds[childIndex]? = some (nodeId : ℤ)) (hhost : hostArray[nodeId]? = some host)
    (hlt : (nodeId : ℤ) + 1 < 2 ^ 31) :
    matchChildren degree childrenIds hostArray (remaining + 1) nodeId childIndex childrenHosts =
      if degree ≤ childIndex + 1 then
        .ok (childIndex + 1, childrenHosts.set childIndex (some host))
      else matchChildren degree childrenIds hostArray remaining (nodeId + 1) (childIndex + 1)
        (childrenHosts.set childIndex (some host)) := by
  have hadd : CInt.add nodeId 1 = .ok ((nodeId : ℤ) + 1) := CInt.checked_ok (by omega) hlt
  rw [matchChildren, hchild]
  dsimp only
  rw [if_pos rfl, hhost]
  dsimp only
  rw [ok_bind]
  by_cases hall : degree ≤ childIndex + 1
  · rw [if_pos hall, if_pos (by exact_mod_cast hall)]
    rfl
  · rw [if_neg hall, if_neg (by exact_mod_cast hall), hadd, ok_bind]

/-- The node is not the next child, or there are no more children. -/
theorem matchChildren_missed {childrenIds : List ℤ} {remaining nodeId childIndex : ℕ}
    {childrenHosts : List (Option (List UInt8))} {child : ℤ}
    (hchild : childrenIds[childIndex]? = some child) (hne : (nodeId : ℤ) ≠ child)
    (hindex : childIndex < degree) (hlt : (nodeId : ℤ) + 1 < 2 ^ 31) :
    matchChildren degree childrenIds hostArray (remaining + 1) nodeId childIndex childrenHosts =
      matchChildren degree childrenIds hostArray remaining (nodeId + 1) childIndex
        childrenHosts := by
  have hadd : CInt.add nodeId 1 = .ok ((nodeId : ℤ) + 1) := CInt.checked_ok (by omega) hlt
  rw [matchChildren, hchild]
  dsimp only
  rw [if_neg hne, ok_bind]
  dsimp only
  rw [if_neg (by omega), hadd, ok_bind]

/-- The pass over the nodes finds the next child whenever it comes to one. -/
theorem matchChildren_eq (hhosts : hostArray.length = total) (htotal : (total : ℤ) < 2 ^ 31)
    (remaining : ℕ) {nodeId : ℕ} (hremaining : nodeId + remaining = total)
    {childrenHosts : List (Option (List UInt8))} (hlength : childrenHosts.length = degree)
    (hbelow : childrenBelow degree k nodeId < degree)
    (hassigned : HostsAssigned degree k hostArray (childrenBelow degree k nodeId) childrenHosts) :
    ∃ childrenHosts', matchChildren degree (childrenOf degree total k) hostArray remaining nodeId
        (childrenBelow degree k nodeId) childrenHosts =
      .ok (min degree (childrenBelow degree k total), childrenHosts') ∧
      HostsAssigned degree k hostArray (min degree (childrenBelow degree k total))
        childrenHosts' := by
  induction remaining generalizing nodeId childrenHosts with
  | zero =>
      obtain rfl : nodeId = total := by omega
      refine ⟨childrenHosts, ?_, ?_⟩
      · rw [matchChildren, Nat.min_eq_right (Nat.le_of_lt hbelow)]
      · rwa [Nat.min_eq_right (Nat.le_of_lt hbelow)]
  | succ remaining ih =>
      have hnode : nodeId < hostArray.length := by omega
      have hget := @getElem?_childrenOf degree total k _ hbelow
      by_cases hfirst : nodeId < degree * k + 1
      · -- the children come later
        have hzero : childrenBelow degree k nodeId = 0 := by
          rw [childrenBelow]
          omega
        have hnext : childrenBelow degree k (nodeId + 1) = 0 := by
          rw [childrenBelow]
          omega
        have hne : (nodeId : ℤ) ≠ childOf degree total k (childrenBelow degree k nodeId) := by
          rw [hzero, childOf]
          split
          · omega
          · push_cast at hfirst ⊢
            omega
        rw [matchChildren_missed hget hne hbelow (by omega), hzero, ← hnext]
        rw [hzero, ← hnext] at hbelow hassigned
        exact ih (by omega) hlength hbelow hassigned
      · -- the node is the next child
        have hnext : childrenBelow degree k nodeId + 1 = childrenBelow degree k (nodeId + 1) := by
          rw [childrenBelow, childrenBelow]
          omega
        have hposition : degree * k + 1 + childrenBelow degree k nodeId = nodeId := by
          rw [childrenBelow]
          omega
        have hchild : childOf degree total k (childrenBelow degree k nodeId) = nodeId := by
          rw [childOf, if_neg (by omega)]
          omega
        rw [hchild] at hget
        have hassigned' : HostsAssigned degree k hostArray (childrenBelow degree k (nodeId + 1))
            (childrenHosts.set (childrenBelow degree k nodeId) (some hostArray[nodeId])) := by
          intro j hj
          by_cases hlast : j = childrenBelow degree k nodeId
          · rw [hlast, List.getElem?_set_self (by omega), hposition,
              List.getElem?_eq_getElem hnode]
          · rw [List.getElem?_set_ne (Ne.symm hlast)]
            exact hassigned j (by omega)
        rw [matchChildren_found hget (List.getElem?_eq_getElem hnode) (by omega), hnext]
        by_cases hall : degree ≤ childrenBelow degree k (nodeId + 1)
        · -- the last child: the loop ends here
          have hmin : min degree (childrenBelow degree k total) =
              childrenBelow degree k (nodeId + 1) := by
            rw [childrenBelow] at hall hbelow ⊢
            rw [childrenBelow]
            omega
          rw [if_pos hall, hmin]
          exact ⟨_, rfl, hassigned'⟩
        · rw [if_neg hall]
          exact ih (by omega) (by rw [List.length_set, hlength]) (by omega) hassigned'

/-- The whole pass. -/
theorem matchChildren_all (hhosts : hostArray.length = total) (htotal : (total : ℤ) < 2 ^ 31)
    (hdegree : 0 < degree) :
    ∃ childrenHosts, matchChildren degree (childrenOf degree total k) hostArray total 0 0
        (List.replicate degree none) =
      .ok (min degree (childrenBelow degree k total), childrenHosts) ∧
      HostsAssigned degree k hostArray (min degree (childrenBelow degree k total))
        childrenHosts := by
  have hzero : childrenBelow degree k 0 = 0 := Nat.zero_sub _
  have hpass := @matchChildren_eq degree total k hostArray hhosts htotal total 0 (by omega)
    (List.replicate degree none) List.length_replicate (by omega)
    (by intro j hj; omega)
  rwa [hzero] at hpass

/-- The host assigned to a child is the one at the position of its id. -/
theorem HostsAssigned.host {childrenHosts : List (Option (List UInt8))}
    (h : HostsAssigned degree k hostArray (min degree (childrenBelow degree k total))
      childrenHosts)
    (hhosts : hostArray.length = total) {j : ℕ}
    (hj : j < min degree (childrenBelow degree k total)) :
    ∃ (child : ℕ) (host : List UInt8),
      (childrenOf degree total k)[j]? = some (child : ℤ) ∧ hostArray[child]? = some host ∧
        childrenHosts[j]? = some (some host) := by
  have hchild : degree * k + 1 + j < hostArray.length := by
    rw [childrenBelow] at hj
    omega
  refine ⟨degree * k + 1 + j, hostArray[degree * k + 1 + j], ?_,
    List.getElem?_eq_getElem hchild, ?_⟩
  · rw [getElem?_childrenOf (by omega), childOf, if_neg (by omega)]
    push_cast
    exact congrArg some (by omega)
  · rw [h j hj, List.getElem?_eq_getElem hchild]

end

/-! ## The vertex -/

/-- The number of children is the number of entries of the array that are ids. -/
theorem length_filter_childrenOf {degree total k : ℕ} :
    ((childrenOf degree total k).filter (· ≠ -1)).length =
      min degree (childrenBelow degree k total) := by
  have hids : (childrenIdsOf degree total k).filter (· ≠ -1) = childrenIdsOf degree total k := by
    rw [List.filter_eq_self]
    intro c hc
    obtain ⟨hlow, _⟩ := mem_childrenIdsOf.mp hc
    have hproduct : 0 ≤ (degree : ℤ) * k := Int.mul_nonneg (by omega) (by omega)
    simp only [ne_eq, decide_eq_true_eq]
    omega
  rw [childrenOf_eq, List.filter_append, hids, List.filter_replicate, if_neg (by simp),
    List.append_nil, childrenIdsOf, List.length_map, List.length_range, childrenBelow]
  omega

/-- What the initialisation has to establish for the host at position `k`. -/
structure Vertex.Placed (vertex : Vertex) (degree total : ℤ) (hostArray : List (List UInt8))
    (k : ℕ) : Prop where
  id_eq : vertex.id = k
  edges_eq : computeLocalTbonEdges k degree total = .ok (vertex.parentId, vertex.childrenIds)
  totalChildren_eq_count :
    vertex.totalChildren = (vertex.childrenIds.filter (· ≠ -1)).length
  totalChildren_eq_min : vertex.totalChildren = min degree (max 0 (total - degree * k - 1))
  childrenHosts_eq : ∀ j : ℕ, j < vertex.totalChildren →
    ∃ (child : ℕ) (host : List UInt8), vertex.childrenIds[j]? = some (child : ℤ) ∧
      hostArray[child]? = some host ∧ vertex.childrenHosts[j]? = some (some host)

/-- A host that occurs once among the hosts of a tree is placed at its position, whatever the
allocated vertex held. No array is read outside its bounds, since this would be a fault. -/
theorem tbon_vertex_placed (garbage : ℤ) (localHost : List UInt8)
    (createTbon : Protocol.CreateTbonMsg) (hostArray : List (List UInt8)) (k : ℕ)
    (hdegree : 1 ≤ createTbon.degree.toNat) (htotal : 1 ≤ createTbon.total.toNat)
    (hsize : createTbon.degree.toNat * createTbon.total.toNat ≤ 2 ^ 31 - 1)
    (hhosts : hostArray.length = createTbon.total.toNat)
    (hlocal : hostArray[k]? = some localHost)
    (honce : ∀ j, hostArray[j]? = some localHost → j = k) :
    ∃ vertex, initializeTbonVertex garbage localHost createTbon hostArray = .ok vertex ∧
      vertex.Placed createTbon.degree.toNat createTbon.total.toNat hostArray k := by
  obtain ⟨id, degree, total, nodes⟩ := createTbon
  dsimp only at *
  have hk : k < hostArray.length := List.getElem?_eq_some_iff.mp hlocal |>.choose
  have hsizeInt : ((degree.toNat * total.toNat : ℕ) : ℤ) ≤ 2 ^ 31 - 1 := by omega
  rw [Int.natCast_mul] at hsizeInt
  have hsize' : Size (degree.toNat : ℤ) total.toNat := ⟨by omega, by omega, hsizeInt⟩
  have htotal' := hsize'.total_le
  have hdegree' : (degree.toNat : ℤ) * 1 ≤ degree.toNat * total.toNat :=
    Int.mul_le_mul_of_nonneg_left (by omega) (by omega)
  have hproduct := hsize'.product_le
  have hdegreeInt := toInt_toInt32_of_lt degree (by omega)
  have htotalInt := toInt_toInt32_of_lt total (by omega)
  have hid := foldlM_matchLocalHost hlocal honce garbage (Nat.le_of_eq hhosts.symm) (by omega)
  rw [if_pos (by omega)] at hid
  have hedges := hsize'.computeLocalTbonEdges_eq (Int.natCast_nonneg k) (by omega)
  obtain ⟨childrenHosts, hmatch, hassigned⟩ :=
    @matchChildren_all degree.toNat total.toNat k hostArray hhosts (by omega) (by omega)
  refine ⟨{
    id := k
    degree := degree.toNat
    nodes
    localHost
    totalNodes := total.toNat
    parentId := parentOf degree.toNat k
    readyCount := 0
    childrenDone := 0
    totalChildren := (min degree.toNat (childrenBelow degree.toNat k total.toNat) : ℕ)
    childrenIds := childrenOf degree.toNat total.toNat k
    childrenHosts
    initialized := false
    finalized := false }, ?_, rfl, hedges, ?_, ?_, ?_⟩
  · rw [initializeTbonVertex]
    dsimp only
    rw [hid, ok_bind, hdegreeInt, htotalInt, hedges, ok_bind]
    dsimp only
    rw [Int.toNat_natCast, hmatch]
    rfl
  · rw [length_filter_childrenOf]
  · rw [childrenBelow]
    push_cast
    omega
  · intro j hj
    exact hassigned.host hhosts (Int.ofNat_lt.mp hj)

/-- The hosts `n1`, `n2` and `n3`, of which the first one has the two others as its children. -/
theorem tbon_vertex_placed_three :
    ∃ vertex, initializeTbonVertex 7 [110, 49] ⟨0, 2, 3, [110]⟩ [[110, 49], [110, 50], [110, 51]] =
        .ok vertex ∧
      vertex.Placed (2 : UInt32).toNat (3 : UInt32).toNat [[110, 49], [110, 50], [110, 51]] 0 := by
  refine tbon_vertex_placed 7 [110, 49] ⟨0, 2, 3, [110]⟩ _ 0 (by decide) (by decide) (by decide)
    rfl rfl ?_
  intro j hj
  match j with
  | 0 => rfl
  | 1 => exact absurd hj (by decide)
  | 2 => exact absurd hj (by decide)
  | j + 3 => exact absurd hj (by simp)

end Dynpm.Tbon
