import Dynpm.Library.Fault
import Dynpm.Library.Transition
import Mathlib.Data.Nat.Notation
import Mathlib.Logic.Function.Basic

/-! # The tree overlay network

Model of `src/network/tbon.c`: the edges that each vertex computes from its own id, and the
forwarding of a message to the children.
-/

namespace Dynpm.Tbon

open Library

/-! ## Edges -/

/-- The parent id of `dynpm_compute_local_tbon_edges`. -/
def parentId (localId degree : ℤ) : Except Fault ℤ :=
  if localId = 0 then .ok (-1)
  else do
    let previous ← CInt.sub localId 1
    CInt.div previous degree

/-- The entry at index `i` of the array of children ids. -/
def childId (localId degree total : ℤ) (i : ℕ) : Except Fault ℤ := do
  let product ← CInt.mul degree localId
  let sum ← CInt.add product i
  let child ← CInt.add sum 1
  return if total ≤ child then -1 else child

/-- `dynpm_compute_local_tbon_edges`: the parent id and the `degree` entries of the array. -/
def computeLocalTbonEdges (localId degree total : ℤ) : Except Fault (ℤ × List ℤ) := do
  let parent ← parentId localId degree
  let children ← (List.range degree.toNat).mapM (childId localId degree total)
  return (parent, children)

/-! ## Forwarding -/

/-- The fields of `dynpm_tbon_vertex_t` that forwarding reads. -/
structure TbonVertex where
  degree : ℤ
  childrenIds : List ℤ
  childrenConnectionIndexes : List ℤ

/-- The loop of `dynpm_send_message_to_tbon_children` at the given index: the connection to which
it sends next, unless the loop ends here. -/
def TbonVertex.nextSend (vertex : TbonVertex) (index : ℕ) : Option ℤ :=
  if (index : ℤ) < vertex.degree ∧ vertex.childrenIds[index]? ≠ some (-1) then
    vertex.childrenConnectionIndexes[index]?
  else none

/-- An overlay of `total` vertices that have been initialised with the same degree. `peer` gives
the vertex at the other end of a server connection. -/
structure Overlay where
  degree : ℤ
  total : ℤ
  degree_pos : 1 ≤ degree
  total_pos : 1 ≤ total
  size_le : degree * total ≤ 2 ^ 31 - 1
  vertex : ℤ → TbonVertex
  peer : ℤ → ℤ → ℤ
  degree_eq : ∀ id, 0 ≤ id → id < total → (vertex id).degree = degree
  edges_eq : ∀ id, 0 ≤ id → id < total →
    ∃ parent, computeLocalTbonEdges id degree total = .ok (parent, (vertex id).childrenIds)
  connected : ∀ id, 0 ≤ id → id < total → ∀ (j : ℕ) (child : ℤ),
    (vertex id).childrenIds[j]? = some child → child ≠ -1 →
      ∃ index, (vertex id).childrenConnectionIndexes[j]? = some index ∧ peer id index = child

/-- The state of a broadcast. `progress` is the loop index of a vertex that has called
`dynpm_send_message_to_tbon_children`; `sent` and `delivered` record, with their destinations,
the buffers that have been sent and that have arrived. -/
structure State (β : Type) where
  progress : ℤ → Option ℕ
  inFlight : List (ℤ × β)
  sent : List (ℤ × β)
  delivered : List (ℤ × β)

variable {β : Type}

/-- The buffers that a vertex has received. -/
def State.received (s : State β) (id : ℤ) : List β :=
  (s.delivered.filter fun delivery => delivery.1 = id).map Prod.snd

/-- The message at a vertex: the root starts with it, the others receive it. -/
def State.held (s : State β) (message : β) (id : ℤ) : Option β :=
  if id = 0 then some message else (s.received id).head?

/-- A vertex starts to forward the message, it sends to its next child, or the buffer at a
position of those in flight arrives. -/
inductive Action where
  | start (id : ℤ)
  | send (id : ℤ)
  | deliver (position : ℕ)

/-- `dynpm_send_message_to_tbon_children` is called once by a vertex that holds the message. -/
def Overlay.start (O : Overlay) (message : β) (s : State β) (id : ℤ) : Option (State β) :=
  if 0 ≤ id ∧ id < O.total ∧ s.progress id = none ∧ (s.held message id).isSome then
    some { s with progress := Function.update s.progress id (some 0) }
  else none

/-- One iteration of the loop, in which `dynpm_send_buffer_to_server` succeeds. -/
def Overlay.send (O : Overlay) (message : β) (s : State β) (id : ℤ) : Option (State β) := do
  let index ← s.progress id
  let buffer ← s.held message id
  let connection ← (O.vertex id).nextSend index
  return { s with
    progress := Function.update s.progress id (some (index + 1))
    inFlight := s.inFlight ++ [(O.peer id connection, buffer)]
    sent := s.sent ++ [(O.peer id connection, buffer)] }

def deliver (s : State β) (position : ℕ) : Option (State β) := do
  let delivery ← s.inFlight[position]?
  return { s with
    inFlight := s.inFlight.eraseIdx position
    delivered := s.delivered ++ [delivery] }

/-- The broadcast of `message` from vertex 0. -/
def Overlay.broadcast (O : Overlay) (message : β) : System (State β) Action where
  initial s := s = ⟨fun _ => none, [], [], []⟩
  step s
    | .start id => O.start message s id
    | .send id => O.send message s id
    | .deliver position => deliver s position

end Dynpm.Tbon
