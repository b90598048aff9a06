import Dynpm.Model.Protocol
import Dynpm.Model.Tbon

/-! # Initialisation of a vertex

Model of `dynpm_initialize_tbon_vertex` in `src/network/tbon.c`. The vertex finds its own id and
the hosts of its children by comparing its host name and its children's ids with the list of all
hosts. An access outside an array is a fault.
-/

namespace Dynpm.Tbon

open Library

/-- `dynpm_tbon_vertex_t` as the initialisation leaves it. The strings are C strings, and an entry
of `children_hosts` that has not been assigned is none. -/
structure Vertex where
  id : ℤ
  degree : ℤ
  nodes : List UInt8
  localHost : List UInt8
  totalNodes : ℤ
  parentId : ℤ
  readyCount : ℤ
  childrenDone : ℤ
  totalChildren : ℤ
  childrenIds : List ℤ
  childrenHosts : List (Option (List UInt8))
  initialized : Bool
  finalized : Bool

/-- One iteration of the search for the local host. The id of the last match stays. -/
def matchLocalHost (localHost : List UInt8) (hostArray : List (List UInt8)) (id : ℤ) (nodeId : ℕ) :
    Except Fault ℤ :=
  match hostArray[nodeId]? with
  | none => .error .outOfBounds
  | some host => do
      let _ ← CInt.add nodeId 1
      return if localHost = host then nodeId else id

/-- The loop over the nodes from `nodeId` on that looks for the children in the order of their ids.
It ends when all children have been found. -/
def matchChildren (degree : ℤ) (childrenIds : List ℤ) (hostArray : List (List UInt8)) :
    ℕ → ℕ → ℕ → List (Option (List UInt8)) → Except Fault (ℕ × List (Option (List UInt8)))
  | 0, _, childIndex, childrenHosts => .ok (childIndex, childrenHosts)
  | remaining + 1, nodeId, childIndex, childrenHosts =>
      match childrenIds[childIndex]? with
      | none => .error .outOfBounds
      | some child => do
          let (childIndex, childrenHosts) ←
            if (nodeId : ℤ) = child then
              match hostArray[nodeId]? with
              | none => .error .outOfBounds
              | some host => .ok (childIndex + 1, childrenHosts.set childIndex (some host))
            else .ok (childIndex, childrenHosts)
          if degree ≤ childIndex then return (childIndex, childrenHosts)
          else
            let _ ← CInt.add nodeId 1
            matchChildren degree childrenIds hostArray remaining (nodeId + 1) childIndex
              childrenHosts

/-- `dynpm_initialize_tbon_vertex`. The field `id` of the allocated vertex holds `garbage` until the
local host is found. The loops compare their counter with `create_tbon->total` as an unsigned
number. -/
def initializeTbonVertex (garbage : ℤ) (localHost : List UInt8)
    (createTbon : Protocol.CreateTbonMsg) (hostArray : List (List UInt8)) :
    Except Fault Vertex := do
  let degree := createTbon.degree.toInt32.toInt
  let totalNodes := createTbon.total.toInt32.toInt
  let id ← (List.range createTbon.total.toNat).foldlM (matchLocalHost localHost hostArray) garbage
  let (parentId, childrenIds) ← computeLocalTbonEdges id degree totalNodes
  let (childIndex, childrenHosts) ← matchChildren degree childrenIds hostArray
    createTbon.total.toNat 0 0 (List.replicate degree.toNat none)
  return {
    id, degree, localHost, totalNodes, parentId, childrenIds, childrenHosts
    nodes := createTbon.nodes
    readyCount := 0
    childrenDone := 0
    totalChildren := childIndex
    initialized := false
    finalized := false }

end Dynpm.Tbon
