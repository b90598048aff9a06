import Dynpm.Model.TbonVertex

/-! # The network of a tree

All hosts of a tree receive the frame of one `create_tbon` message. Each of them decodes it and
initialises its vertex. A broadcast in this network can fail at some of the connections: then
`dynpm_send_message_to_tbon_children` returns at the first one, and does not send to the children
behind it.
-/

namespace Dynpm.Tbon

open Library

/-! ## Set-up -/

/-- A host, whose name `gethostname` returns, decodes the frame and initialises its vertex. -/
def joinTree (malloc : Garbage) (garbage : ℤ) (localHost : List UInt8)
    (hostArray : List (List UInt8)) (frame : Frame) : Except Fault Vertex := do
  let createTbon ← Protocol.deserializeCreateTbonMsg malloc frame
  initializeTbonVertex garbage localHost createTbon hostArray

/-- All hosts join the tree. What the memory they allocate holds depends on the host. -/
def setUpTree (malloc : List UInt8 → Garbage) (garbage : List UInt8 → ℤ)
    (hostArray : List (List UInt8)) (frame : Frame) : Except Fault (List Vertex) :=
  hostArray.mapM fun localHost =>
    joinTree (malloc localHost) (garbage localHost) localHost hostArray frame

/-- The entries of `children_hosts` that are in use. -/
def Vertex.childHosts (vertex : Vertex) : List (Option (List UInt8)) :=
  vertex.childrenHosts.take vertex.totalChildren.toNat

/-- What forwarding reads of a vertex, where the connection to a host has the index
`connect host`. -/
def Vertex.forwarding (vertex : Vertex) (connect : List UInt8 → ℤ) : TbonVertex where
  degree := vertex.degree
  childrenIds := vertex.childrenIds
  childrenConnectionIndexes := vertex.childHosts.map fun host => (host.map connect).getD (-1)

/-! ## Broken connections -/

/-- The state of a broadcast and the vertices that have returned because a send failed. -/
structure PartialState (β : Type) where
  state : State β
  stopped : ℤ → Bool

variable {β : Type}

/-- One iteration of the loop, in which `dynpm_send_buffer_to_server` fails if the connection is
broken. -/
def Overlay.sendOrStop (O : Overlay) (broken : ℤ → ℤ → Bool) (message : β) (s : PartialState β)
    (id : ℤ) : Option (PartialState β) := do
  let index ← s.state.progress id
  let connection ← (O.vertex id).nextSend index
  if s.stopped id then none
  else if broken id connection then
    some { s with stopped := Function.update s.stopped id true }
  else (O.send message s.state id).map fun t => { s with state := t }

/-- The broadcast of `message` from vertex 0 where `broken` are the connections at which a send
fails. -/
def Overlay.partialBroadcast (O : Overlay) (broken : ℤ → ℤ → Bool) (message : β) :
    System (PartialState β) Action where
  initial s := s = ⟨⟨fun _ => none, [], [], []⟩, fun _ => false⟩
  step s
    | .start id => (O.start message s.state id).map fun t => { s with state := t }
    | .send id => O.sendOrStop broken message s id
    | .deliver position => (deliver s.state position).map fun t => { s with state := t }

end Dynpm.Tbon
